import Stencil.Proofs.Height.Paths

/-!
# Footprints of values

The simulation counts a value by its stack item, and a transfer moves the words of its storage. Both round
the size of a value type up to words. But the stack item takes a word even for a type without bytes, for which
a transfer moves nothing, and it takes none for a type so large that its rounded size wraps around to zero. So
the two agree for every size but zero and the three largest ones (`footprintsAgree_primitive_iff`).
-/

namespace Stencil

open AddressMap

/-- The instruction moves a value of the type between the stack and a field or an array element. -/
inductive MovesValue (tables : Table) (i : Instruction) (t : TypeDescriptor) : Prop
  | field {field : FieldDescriptor}
      (hop : i.op.operation ∈ [.loadField, .storeField, .loadStatic, .storeStatic])
      (hfield : tables.resolveField i = .ok field) (htype : tables.typeFor i field.fieldType = .ok t)
  | element (hop : i.op.operation ∈ [.loadElement .typed, .storeElement .typed])
      (htype : tables.resolveType i = .ok t)

/-- Bytes that straight code moves over the stack, a word with each step of the stack pointer. -/
def bytesMoved {I : Type} [TargetInstr I] [LabelUse I] [StackUse I] (code : List I) : Nat :=
  4 * code.countP fun instr => StackUse.moves? instr != some 0

/-- On a target, whatever moves a value of the type between memory and the stack moves as many bytes as
the simulation counts, and the stack pointer by them: the transfers themselves, and the templates that are
made of them. -/
structure CountsFootprint {I : Type} [TargetInstr I] [LabelUse I] [StackUse I] (backend : Backend I)
    (PathsAdd : List I → UInt32 → Prop) (Pushes Pops : Nat → List I → Prop) (t : TypeDescriptor) : Prop where
  pushes : ∀ code, Pushes (t.storageSize 4) code →
    bytesMoved code = (t.stackItem 4).size ∧ PathsAdd code (-UInt32.ofNat (t.stackItem 4).size)
  pops : ∀ code, Pops (t.storageSize 4) code →
    bytesMoved code = (t.stackItem 4).size ∧ PathsAdd code (UInt32.ofNat (t.stackItem 4).size)
  templates : ∀ {ctx : EmitContext} {env : SimEnv} {i : Instruction} {stack stack' : OperandStack}
    {e : Effect}, ctx.tables = env.tables → ctx.frame = env.frame → ctx.options.pointerSize = 4 →
    env.pointerSize = 4 → MovesValue env.tables i t → simulate env i stack = .ok e stack' →
    (backend.emit ctx i e).failure = none →
    PathsAdd (backend.emit ctx i e).code (-UInt32.ofInt e.delta)

/-! ## What an instruction does not refer to -/

section Refs

variable {ctx : EmitContext} {env : SimEnv} {i : Instruction} {e : Effect} {t : TypeDescriptor}
  {stack stack' : OperandStack}

/-- The instruction without the reference that moving a value makes no use of. -/
def Instruction.bare (i : Instruction) : Instruction :=
  match i.op.operation with
  | .loadElement _ | .storeElement _ => { i with fieldRef := none }
  | _ => { i with typeRef := none }

theorem Instruction.bare_op (i : Instruction) : i.bare.op = i.op := by
  unfold bare
  split <;> rfl

theorem MovesValue.operation (h : MovesValue env.tables i t) :
    i.op.operation ∈ [.loadField, .storeField, .loadStatic, .storeStatic, .loadElement .typed,
      .storeElement .typed] := by
  cases h with
  | field hop => exact List.mem_append_left [.loadElement .typed, .storeElement .typed] hop
  | element hop => exact List.mem_append_right [.loadField, .storeField, .loadStatic, .storeStatic] hop

theorem simulate_bare (h : MovesValue env.tables i t) : simulate env i.bare = simulate env i := by
  have hop := h.operation
  simp only [List.mem_cons, List.not_mem_nil, or_false] at hop
  unfold simulate Instruction.bare
  rcases hop with hop | hop | hop | hop | hop | hop <;> simp only [hop] <;> rfl

theorem X86.emit_bare (h : MovesValue env.tables i t) : X86.emit ctx i.bare e = X86.emit ctx i e := by
  have hop := h.operation
  simp only [List.mem_cons, List.not_mem_nil, or_false] at hop
  unfold X86.emit Instruction.bare
  rcases hop with hop | hop | hop | hop | hop | hop <;> simp only [hop] <;> rfl

theorem Mips.emit_bare (h : MovesValue env.tables i t) : Mips.emit ctx i.bare e = Mips.emit ctx i e := by
  have hop := h.operation
  simp only [List.mem_cons, List.not_mem_nil, or_false] at hop
  unfold Mips.emit Instruction.bare
  rcases hop with hop | hop | hop | hop | hop | hop <;> simp only [hop] <;> rfl

/-- Without that reference the instruction touches no other type. -/
theorem MovesValue.eq_of_touches (h : MovesValue env.tables i t) {t' : TypeDescriptor}
    (htouches : Touches env i.bare t') : t' = t := by
  cases h with
  | @field field hop hfield htype =>
    have hbare : i.bare = { i with typeRef := none } := by
      simp only [List.mem_cons, List.not_mem_nil, or_false] at hop
      unfold Instruction.bare
      rcases hop with hop | hop | hop | hop <;> simp only [hop]
    rw [hbare] at htouches
    cases htouches with
    | type htype' => cases htype'
    | @field field' hfield' htype' =>
      obtain rfl : field = field' := Except.ok.inj (hfield.symm.trans hfield')
      exact Except.ok.inj (htype'.symm.trans htype)
  | element hop htype =>
    have hbare : i.bare = { i with fieldRef := none } := by
      simp only [List.mem_cons, List.not_mem_nil, or_false] at hop
      unfold Instruction.bare
      rcases hop with hop | hop <;> simp only [hop]
    rw [hbare] at htouches
    cases htouches with
    | type htype' => exact Except.ok.inj (htype'.symm.trans htype)
    | field hfield' => cases hfield'

theorem MovesValue.not_copies (h : MovesValue env.tables i t) {item : StackItem} :
    ¬Copies env i.bare stack item := by
  have hop := h.operation
  intro hcopies
  cases hcopies with
  | arg hop' | «local» hop' =>
    rw [i.bare_op] at hop'
    rcases hop' with hop' | hop' <;> simp [hop'] at hop
  | result hop' | top hop' =>
    rw [i.bare_op] at hop'
    simp [hop'] at hop

/-- What a template is made for is what the simulation ran on, where the words agree. -/
theorem MovesValue.matches_bare (h : MovesValue env.tables i t) (stack : List StackItem)
    (htables : ctx.tables = env.tables) (hframe : ctx.frame = env.frame)
    (hoptions : ctx.options.pointerSize = 4) (hpointer : env.pointerSize = 4)
    (hwords : 4 * ((t.heapSize + 3) / 4) = (t.stackItem 4).size) :
    Matches ctx env i.bare stack where
  tables := htables
  frame := hframe
  options := hoptions
  pointerSize := hpointer
  items _ hcopies := absurd hcopies h.not_copies
  types t' htouches _ := by
    rw [h.eq_of_touches htouches, hpointer]
    exact hwords

theorem MovesValue.returns (h : MovesValue env.tables i t) :
    i.bare.op.isPseudo = false ∧ i.bare.op ≠ .throw := by
  have hop := h.operation
  rw [i.bare_op]
  refine ⟨?_, fun hthrow => ?_⟩
  · unfold Opcode.isPseudo
    split
    · rename_i hstart
      simp [hstart, Opcode.operation] at hop
    · rename_i hend
      simp [hend, Opcode.operation] at hop
    · rfl
  · simp [hthrow, Opcode.operation] at hop

end Refs

/-! ## Transfers -/

theorem Shifts.balanced {I : Type} [TargetInstr I] [LabelUse I] [StackUse I] {code : List I} {d : UInt32}
    (h : Shifts code d) : Balanced (fun _ => d) code d where
  track := ⟨some d, .inr rfl, h.track (UInt32.zero_add d)⟩
  exits _ _ _ := rfl

section Bytes

variable {I : Type} [TargetInstr I] [LabelUse I] [StackUse I]

theorem bytesMoved_append (code code' : List I) : bytesMoved (code ++ code') = bytesMoved code + bytesMoved code' := by
  rw [bytesMoved, bytesMoved, bytesMoved, List.countP_append, Nat.mul_add]

theorem bytesMoved_flatMap {α : Type} (f : α → List I) {bytes : Nat} (h : ∀ a, bytesMoved (f a) = bytes) (as : List α) :
    bytesMoved (as.flatMap f) = as.length * bytes := by
  induction as with
  | nil => rw [List.length_nil, Nat.zero_mul]; rfl
  | cons a as ih => rw [List.flatMap_cons, bytesMoved_append, h, ih, List.length_cons, Nat.succ_mul, Nat.add_comm]

end Bytes

namespace X86

theorem bytesMoved_pushFromMemory (m : Mem) (storage : Nat) (signed : Bool) :
    bytesMoved (pushFromMemory m storage signed) = 4 * wordCount storage := by
  have hword : ∀ k, bytesMoved (pushWord (m.word k) (wordBytes storage k) (signed && storage < 4)) = 4 := by
    intro k
    unfold pushWord
    split
    · rfl
    · unfold loadTail
      split
      · split <;> rfl
      · split <;> rfl
      · rfl
  rw [pushFromMemory, bytesMoved_flatMap _ hword, List.length_reverse, List.length_range, Nat.mul_comm]

theorem bytesMoved_popToMemory (m : Mem) (storage : Nat) :
    bytesMoved (popToMemory m storage) = 4 * wordCount storage := by
  have hword : ∀ k, bytesMoved (popWord (m.word k) (wordBytes storage k)) = 4 := by
    intro k
    unfold popWord
    split <;> rfl
  rw [popToMemory, bytesMoved_flatMap _ hword, List.length_range, Nat.mul_comm]

end X86

namespace Mips

/-- The bytes of a value are put together without the stack. -/
theorem bytesMoved_loadValue (base : Reg) (offset : Int32) (bytes : Nat) (signed : Bool) (align : Nat) :
    bytesMoved (loadValue base offset bytes signed align) = 0 := by
  unfold loadValue
  split
  · rfl
  · have hbyte : ∀ k, bytesMoved (loadByte base (offset + Int32.ofNat k)) = 0 := fun k => rfl
    rw [← List.singleton_append, bytesMoved_append, bytesMoved_flatMap _ hbyte, Nat.mul_zero]
    rfl

theorem bytesMoved_storeValue (base : Reg) (offset : Int32) (bytes align : Nat) :
    bytesMoved (storeValue base offset bytes align) = 0 := by
  unfold storeValue
  split
  · rfl
  · have hbyte : ∀ k, bytesMoved (storeByte base offset k) = 0 := fun k => rfl
    rw [← List.singleton_append, bytesMoved_append, bytesMoved_flatMap _ hbyte, Nat.mul_zero]
    rfl

theorem bytesMoved_pushFromMemory (base : Reg) (offset : Int32) (storage : Nat) (signed : Bool) (align : Nat) :
    bytesMoved (pushFromMemory base offset storage signed align) = 4 * wordCount storage := by
  have hword : ∀ k, bytesMoved (loadValue base (offset + Int32.ofNat (4 * k)) (wordBytes storage k)
      (signed && storage < 4) align ++ Instr.push .t6) = 4 := by
    intro k
    rw [bytesMoved_append, bytesMoved_loadValue]
    rfl
  rw [pushFromMemory, bytesMoved_flatMap _ hword, List.length_reverse, List.length_range, Nat.mul_comm]

theorem bytesMoved_popToMemory (base : Reg) (offset : Int32) (storage align : Nat) :
    bytesMoved (popToMemory base offset storage align) = 4 * wordCount storage := by
  have hword : ∀ k, bytesMoved (Instr.pop .t6 ++
      storeValue base (offset + Int32.ofNat (4 * k)) (wordBytes storage k) align) = 4 := by
    intro k
    rw [bytesMoved_append, bytesMoved_storeValue]
    rfl
  rw [popToMemory, bytesMoved_flatMap _ hword, List.length_range, Nat.mul_comm]

end Mips

/-- The code that pushes a value of so many bytes from somewhere in memory. -/
def X86.Pushes (storage : Nat) (code : List X86.Instr) : Prop :=
  ∃ m signed, code = X86.pushFromMemory m storage signed

/-- The code that pops a value of so many bytes to somewhere in memory. -/
def X86.Pops (storage : Nat) (code : List X86.Instr) : Prop := ∃ m, code = X86.popToMemory m storage

/-- The code that pushes a value of so many bytes from somewhere in memory. -/
def Mips.Pushes (storage : Nat) (code : List Mips.Instr) : Prop :=
  ∃ base offset signed align, code = Mips.pushFromMemory base offset storage signed align

/-- The code that pops a value of so many bytes to somewhere in memory. -/
def Mips.Pops (storage : Nat) (code : List Mips.Instr) : Prop :=
  ∃ base offset align, code = Mips.popToMemory base offset storage align

/-- On both targets the simulation counts the bytes that move with a value of the type. -/
def FootprintsAgree (t : TypeDescriptor) : Prop :=
  CountsFootprint X86.backend X86.PathsAdd X86.Pushes X86.Pops t ∧
    CountsFootprint Mips.backend Mips.PathsAdd Mips.Pushes Mips.Pops t

section Words

variable {t : TypeDescriptor} (hvalue : t.isValueType = true)
  (hwords : 4 * ((t.heapSize + 3) / 4) = (t.stackItem 4).size)

include hvalue hwords

theorem X86.countsFootprint : CountsFootprint X86.backend X86.PathsAdd X86.Pushes X86.Pops t := by
  have hstorage : t.storageSize 4 = t.heapSize := if_pos hvalue
  constructor
  · rintro code ⟨m, signed, rfl⟩
    have hshifts := X86.pushFromMemory_shifts m t.heapSize signed
    rw [X86.wordCount, hwords] at hshifts
    rw [hstorage, X86.bytesMoved_pushFromMemory]
    exact ⟨hwords, X86.pathsAdd_of_balanced hshifts.balanced⟩
  · rintro code ⟨m, rfl⟩
    have hshifts := X86.popToMemory_shifts m t.heapSize
    rw [X86.wordCount, hwords] at hshifts
    rw [hstorage, X86.bytesMoved_popToMemory]
    exact ⟨hwords, X86.pathsAdd_of_balanced hshifts.balanced⟩
  · intro ctx env i stack stack' e htables hframe hoptions hpointer hmoves hsimulate hfailure
    have hmatches := hmoves.matches_bare stack htables hframe hoptions hpointer hwords
    rw [← simulate_bare hmoves] at hsimulate
    change (X86.emit ctx i e).failure = none at hfailure
    show X86.PathsAdd (X86.emit ctx i e).code _
    rw [← X86.emit_bare hmoves] at hfailure ⊢
    exact X86.emit_pathsAdd hmatches hsimulate hmoves.returns.1 hmoves.returns.2 hfailure

theorem Mips.countsFootprint : CountsFootprint Mips.backend Mips.PathsAdd Mips.Pushes Mips.Pops t := by
  have hstorage : t.storageSize 4 = t.heapSize := if_pos hvalue
  constructor
  · rintro code ⟨base, offset, signed, align, rfl⟩
    have hshifts := Mips.pushFromMemory_shifts base offset t.heapSize signed align
    rw [Mips.wordCount, hwords] at hshifts
    rw [hstorage, Mips.bytesMoved_pushFromMemory]
    exact ⟨hwords, Mips.pathsAdd_of_balanced hshifts.balanced⟩
  · rintro code ⟨base, offset, align, rfl⟩
    have hshifts := Mips.popToMemory_shifts base offset t.heapSize align
    rw [Mips.wordCount, hwords] at hshifts
    rw [hstorage, Mips.bytesMoved_popToMemory]
    exact ⟨hwords, Mips.pathsAdd_of_balanced hshifts.balanced⟩
  · intro ctx env i stack stack' e htables hframe hoptions hpointer hmoves hsimulate hfailure
    have hmatches := hmoves.matches_bare stack htables hframe hoptions hpointer hwords
    rw [← simulate_bare hmoves] at hsimulate
    change (Mips.emit ctx i e).failure = none at hfailure
    show Mips.PathsAdd (Mips.emit ctx i e).code _
    rw [← Mips.emit_bare hmoves] at hfailure ⊢
    exact Mips.emit_pathsAdd hmatches hsimulate hmoves.returns.1 hmoves.returns.2 hfailure

end Words

/-! ## The sizes that agree -/

/-- Values of a type of so many bytes, integers and others. -/
theorem primitive_footprint (id : TypeId) (name : String) (n : Nat) (signed : Bool) :
    ((TypeDescriptor.primitive id name n signed).stackItem 4).size = (max n 1 + 3) / 4 * 4 % 2 ^ 32 := rfl

theorem footprintsAgree_primitive_iff (id : TypeId) (name : String) {n : Nat} (hn : n < 2 ^ 32) (signed : Bool) :
    FootprintsAgree (.primitive id name n signed) ↔ 0 < n ∧ n ≤ 0xFFFFFFFC := by
  constructor
  · rintro ⟨hx86, -⟩
    obtain ⟨hbytes, -⟩ := hx86.pushes _ ⟨.global "", signed, rfl⟩
    rw [X86.bytesMoved_pushFromMemory, primitive_footprint] at hbytes
    change 4 * ((n + 3) / 4) = _ at hbytes
    omega
  · intro hsize
    have hwords : 4 * (((TypeDescriptor.primitive id name n signed).heapSize + 3) / 4) =
        ((TypeDescriptor.primitive id name n signed).stackItem 4).size := by
      rw [primitive_footprint]
      show 4 * ((n + 3) / 4) = _
      omega
    exact ⟨X86.countsFootprint rfl hwords, Mips.countsFootprint rfl hwords⟩

/-- Simulation and transfers agree on the footprint of a value type, integer or composite, exactly if it
has bytes at all and their number can be rounded up to words within a word. -/
theorem footprints_agree_iff_rounds (id : TypeId) (name : String) (size : UInt32) (signed : Bool) :
    (FootprintsAgree (.primitive id name size.toNat signed) ↔ 0 < size ∧ size ≤ 0xFFFFFFFC) ∧
      (FootprintsAgree (.composite id name size.toNat) ↔ 0 < size ∧ size ≤ 0xFFFFFFFC) := by
  rw [UInt32.lt_iff_toNat_lt, UInt32.le_iff_toNat_le]
  exact ⟨footprintsAgree_primitive_iff id name size.toNat_lt signed,
    footprintsAgree_primitive_iff id name size.toNat_lt false⟩

/-! ## A static field without bytes -/

section Unit

def unitType : TypeDescriptor := .composite 1 "Unit" 0

def unitField : FieldDescriptor := .ofStatic 1 "unit" 1 1

def unitTable : Table := (Table.addType {} unitType).addField unitField

def loadUnit : Instruction :=
  { Instruction.placed 0 .ldsfld [0, 0, 0, 0] with fieldRef := some unitField.id }

def unitEnv : SimEnv := { tables := unitTable, frame := dropFrame, pointerSize := 4 }

def unitContext : EmitContext := { dropContext with tables := unitTable }

def unitEffect : Effect := { pushed := [.value 4] }

theorem X86.eq_zero_of_pathsAdd_nil {d : UInt32} (h : X86.PathsAdd [] d) : d = 0 := by
  let p : Program X86.Instr := .ofTemplate []
  let m : X86.Machine := { pc := codeAddress 0, store := dropStore }
  have hwf : p.WellFormed := Program.wellFormed_of_layout [] rfl rfl (Nat.zero_le _) []
    (by rw [List.append_nil]; rfl) fun _ => List.not_mem_nil
  have hplaced : Placed p 0 ([] : List X86.Instr) := Placed.of_layout [] rfl rfl .nil [] [] [] rfl
  have hsp := (h p 0 m m hwf hplaced (Nat.zero_le _) rfl .refl nofun).1
  rw [show m.reg .esp = 0 from rfl, UInt32.zero_add] at hsp
  exact hsp.symm

/-- The simulation counts a word for an empty value that no template pushes, so that the stack pointer
does not move as it says. -/
theorem footprints_disagree_empty :
    MovesValue unitTable loadUnit unitType ∧ simulate unitEnv loadUnit [] = .ok unitEffect [.value 4] ∧
      (X86.backend.emit unitContext loadUnit unitEffect).code = [] ∧
      (Mips.backend.emit unitContext loadUnit unitEffect).code = [.la .t0 unitField.symbol] ∧
      ¬X86.PathsAdd (X86.backend.emit unitContext loadUnit unitEffect).code (-UInt32.ofInt unitEffect.delta) ∧
      ¬FootprintsAgree unitType := by
  have hfield : unitTable.resolveField loadUnit = .ok unitField := rfl
  have htype : unitTable.typeFor loadUnit unitField.fieldType = .ok unitType := rfl
  refine ⟨.field (by decide) hfield htype, by rfl, rfl, rfl, fun hadds => ?_, fun hagree => ?_⟩
  · exact absurd (X86.eq_zero_of_pathsAdd_nil hadds) (by decide)
  · have hsize := (footprintsAgree_primitive_iff 1 "Unit" (by decide) false).mp hagree
    exact Nat.lt_irrefl 0 hsize.1

end Unit

end Stencil
