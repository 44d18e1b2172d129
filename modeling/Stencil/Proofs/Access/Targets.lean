import Stencil.Proofs.Isolation.Targets
import Stencil.Proofs.Mips.Accesses
import Stencil.Proofs.X86.Accesses

/-!
# Loads and stores on both targets

Both targets check arrays and indices alike, store exactly the bytes of a value, and load the words it
spells. They differ in one place: a value of three bytes is extended by its sign on MIPS32 and by zeros
on x86.
-/

namespace Stencil

open AddressMap

/-! ## Templates on their own -/

namespace Memory

/-- Memory with words from an address on. -/
def withWords (m : Memory) (a : Nat) : List UInt32 → Memory
  | [] => m
  | w :: words => (m.withWords (a + 4) words).put a w 4

variable {m : Memory} {a : Nat} {words : List UInt32}

theorem wordsAt_withWords (h : a + 4 * words.length ≤ memorySize) :
    (m.withWords a words).wordsAt a words.length = words := by
  induction words generalizing a with
  | nil => rfl
  | cons w words ih =>
    rw [List.length_cons] at h ⊢
    rw [withWords, wordsAt_put w words.length (by omega), ih (by omega)]

theorem byte_withWords_of_lt (h : a + 4 * words.length ≤ memorySize) {c : Nat} (hc : c < a) :
    (m.withWords a words).byte c = m.byte c := by
  induction words generalizing a with
  | nil => rfl
  | cons w words ih =>
    rw [List.length_cons] at h
    rw [withWords, byte_put_of_lt w (by omega) hc, ih (by omega) (by omega)]

end Memory

section Alone

variable {I R M : Type} [Runner I R M] [Storing M]

/-- An object of these words at `0x2000` and a stack of these words from `0x3000` on. -/
def sampleStore (object stack : List UInt32) : Store where
  memory := (Memory.empty.withWords 0x2000 object).withWords 0x3000 stack
  heapNext := 0
  heapEnd := 0

/-- The machine is about to run the first instruction on the object and the stack, with all other registers
clear. -/
structure Sampled (I : Type) {R M : Type} [Runner I R M] [Storing M] (object stack : List UInt32) (m : M) :
    Prop where
  here : Runner.At I m 0
  pointer : (snap I m).regs (Runner.sp I) = 0x3000
  blank : ∀ r, r ≠ Runner.sp I → (snap I m).regs r = 0
  store : (snap I m).store = sampleStore object stack
  small : object.length ≤ 0x400
  short : stack.length ≤ 0x400

theorem X86.exists_sampled {object stack : List UInt32} (hsmall : object.length ≤ 0x400)
    (hshort : stack.length ≤ 0x400) : ∃ m, Sampled X86.Instr object stack m := by
  let m : X86.Machine := { pc := codeAddress 0, store := sampleStore object stack }
  refine ⟨m.setReg .esp 0x3000, rfl, rfl, fun r hr => ?_, rfl, hsmall, hshort⟩
  cases r <;> first | rfl | exact absurd rfl hr

theorem Mips.exists_sampled {object stack : List UInt32} (hsmall : object.length ≤ 0x400)
    (hshort : stack.length ≤ 0x400) : ∃ m, Sampled Mips.Instr object stack m := by
  let m : Mips.Machine := { pc := codeAddress 0, npc := codeAddress 1, store := sampleStore object stack }
  refine ⟨m.setReg .sp 0x3000, ⟨rfl, rfl, rfl⟩, rfl, fun r hr => ?_, rfl, hsmall, hshort⟩
  cases r <;> first | rfl | exact absurd rfl hr

namespace Sampled

variable {object stack : List UInt32} {m : M} (h : Sampled I object stack m)

include h

theorem onStack : OnStack I stack (snap I m) := by
  have hshort := h.short
  refine ⟨?_, ?_, fun _ => ?_⟩
  · rw [h.pointer]
    exact Memory.mapped_iff.mpr ⟨by decide, by simp only [UInt32.reduceToNat]; omega⟩
  · rw [h.pointer, Snapshot.memory, h.store]
    exact Memory.wordsAt_withWords (by show _ ≤ 0x400000; omega)
  · rw [h.pointer]
    decide

theorem value (before rest : List UInt32) {w : UInt32} (hobject : object = before ++ w :: rest) :
    (snap I m).memory.valueAt (0x2000 + 4 * before.length) 4 = w.toNat := by
  have hshort := h.short
  have hsmall := h.small
  have hwords : (Memory.empty.withWords 0x2000 object).wordsAt 0x2000 object.length = object :=
    Memory.wordsAt_withWords (by show _ ≤ 0x400000; omega)
  have hlength : object.length = before.length + (rest.length + 1) := by
    rw [hobject, List.length_append, List.length_cons]
  have hkept : (snap I m).memory.valueAt (0x2000 + 4 * before.length) 4 =
      (Memory.empty.withWords 0x2000 object).valueAt (0x2000 + 4 * before.length) 4 := by
    rw [Snapshot.memory, h.store]
    refine Memory.valueAt_congr fun c _ hc => Memory.byte_withWords_of_lt ?_ (by omega)
    show _ ≤ 0x400000
    omega
  rw [hlength, Memory.wordsAt_add, Memory.wordsAt] at hwords
  obtain ⟨-, hrest⟩ := List.append_inj (hwords.trans hobject) (Memory.length_wordsAt ..)
  rw [hkept, ← (List.cons.inj hrest).1, UInt32.toNat_ofNat_of_lt' (Memory.valueAt_lt ..)]

theorem pushable {a : UInt32} {storage : Nat} (hmapped : Memory.mapped a storage = true)
    (hbelow : a.toNat + storage + 4 * ((storage + 3) / 4) ≤ 0x3000) :
    Pushable (Runner.sp I)
      (Set.Ico a.toNat (a.toNat + storage) ∪ Set.Ico (0x3000 - 4 * ((storage + 3) / 4)) 0x3000) a storage
      (snap I m) := by
  obtain ⟨hlow, -⟩ := Memory.mapped_iff.mp hmapped
  have hpointer : ((snap I m).regs (Runner.sp I)).toNat = 0x3000 := by
    rw [h.pointer]
    rfl
  refine ⟨hmapped, Set.subset_union_left, Memory.mapped_iff.mpr ?_, ?_, ?_⟩
  · rw [toNat_sub_ofNat (by omega)]
    omega
  · rw [hpointer]
    exact Set.subset_union_right
  · rw [hpointer]
    refine Set.disjoint_left.mpr fun c hvalue hslot => ?_
    rw [Set.mem_Ico] at hvalue hslot
    omega

theorem loadable [DecidableEq R] {place : Place} (hmapped : Memory.mapped place.address place.access.storage = true)
    (haligned : place.address.toNat % place.align = 0) (hoperands : place.operands.length ≤ stack.length)
    (hbelow : place.address.toNat + place.access.storage + 4 * place.wordCount ≤ 0x3000) :
    Loadable I place (snap I m) := by
  have hshort := h.short
  obtain ⟨hlow, -⟩ := Memory.mapped_iff.mp hmapped
  have hdropped : ((snap I m).dropped I place.operands.length).regs (Runner.sp I) =
      0x3000 + UInt32.ofNat (4 * place.operands.length) := by
    rw [Snapshot.dropped, Snapshot.set_self, h.pointer]
  have hpointer : (((snap I m).dropped I place.operands.length).regs (Runner.sp I)).toNat =
      0x3000 + 4 * place.operands.length := by
    rw [hdropped]
    exact toNat_add_ofNat (by simp only [UInt32.reduceToNat]; omega)
  refine ⟨hmapped, fun _ => haligned, Memory.mapped_iff.mpr ?_, ?_⟩
  · rw [toNat_sub_ofNat (by omega)]
    omega
  · refine Set.disjoint_left.mpr fun c hvalue hslot => ?_
    simp only [Place.bytes, slots, Set.mem_Ico] at hvalue hslot
    omega

theorem storable {place : Place} (hmapped : Memory.mapped place.address place.access.storage = true)
    (haligned : place.address.toNat % place.align = 0) (henough : place.wordCount ≤ stack.length)
    (hbelow : place.address.toNat + place.access.storage ≤ 0x3000) : Storable I place stack (snap I m) := by
  refine ⟨hmapped, fun _ => haligned, henough, Set.disjoint_left.mpr fun c hvalue hslot => ?_⟩
  rw [h.pointer] at hslot
  simp only [Place.bytes, slots, Set.mem_Ico, UInt32.reduceToNat] at hvalue hslot
  omega

end Sampled

variable [TargetInstr I]

theorem Sampled.reaches {object stack : List UInt32} {m : M} {touched : Set Nat} {code : List I}
    {Q : Snapshot R → Prop} (h : Sampled I object stack m) (hnodup : (boundLabels code).Nodup)
    (hrun : Runs (Program.ofTemplate code) touched code (snap I m) Q fun _ _ => False) :
    Reaches (Runner.cycle (Program.ofTemplate code)) m fun m' => Q (snap I m') :=
  (ReachesWithin.reaches (hrun 0 m (ofTemplate_placed hnodup) h.here rfl)).mono fun _ hm' => hm'.1.2

/-- The template can be placed alone. -/
structure Lone (backend : Backend I) (ctx : EmitContext) (i : Instruction) (e : Effect) : Prop where
  emitted : (backend.emit ctx i e).failure = none
  short : (backend.emit ctx i e).code.length ≤ codeLimit
  nodup : (boundLabels (backend.emit ctx i e).code).Nodup

variable {backend : Backend I} {ctx : EmitContext} {i : Instruction} {e : Effect} {object stack : List UInt32}
  {m : M}

theorem Lone.ready (h : Lone backend ctx i e) (hm : Sampled I object stack m) :
    Ready backend ctx i e (Program.ofTemplate (backend.emit ctx i e).code) 0 stack m :=
  ⟨ofTemplate_wellFormed _ h.short, h.emitted, ofTemplate_placed h.nodup, hm.here, hm.onStack⟩

/-- A machine that runs the template alone starts on the object and the stack and gets past it as asked. -/
def PassesAlone (backend : Backend I) (ctx : EmitContext) (i : Instruction) (e : Effect)
    (object stack : List UInt32) (Q : Snapshot R → Prop) : Prop :=
  ∃ m : M, Sampled I object stack m ∧
    Reaches (Runner.cycle (Program.ofTemplate (backend.emit ctx i e).code)) m fun m' =>
      Past backend ctx i e 0 m' ∧ Q (snap I m')

/-- The template alone leaves these words on top of the stack. -/
def PushesAlone (backend : Backend I) (ctx : EmitContext) (i : Instruction) (e : Effect)
    (object stack words : List UInt32) : Prop :=
  PassesAlone backend ctx i e object stack fun s =>
    s.memory.wordsAt (s.regs (Runner.sp I)).toNat words.length = words

/-- The template alone leaves this word at an address. -/
def WritesAlone (backend : Backend I) (ctx : EmitContext) (i : Instruction) (e : Effect)
    (object stack : List UInt32) (a word : Nat) : Prop :=
  PassesAlone backend ctx i e object stack fun s => s.memory.valueAt a 4 = word

/-- A machine that runs the template alone starts on the object and the stack, touches nothing but these
bytes, and ends in a fault of the kind. -/
def FailsAlone (backend : Backend I) (ctx : EmitContext) (i : Instruction) (e : Effect)
    (object stack : List UInt32) (touched : Set Nat) (kind : UInt32 → Fault) : Prop :=
  ∃ m : M, Sampled I object stack m ∧
    EndsWithin (Runner.cycle (Program.ofTemplate (backend.emit ctx i e).code)) touched m fun fault _ =>
      ∃ site, fault = kind site

end Alone

theorem X86.lone {ctx : EmitContext} {i : Instruction} {e : Effect}
    (hemitted : (X86.backend.emit ctx i e).failure = none)
    (hshort : (X86.backend.emit ctx i e).code.length ≤ codeLimit) : Lone X86.backend ctx i e :=
  ⟨hemitted, hshort, (X86.emit_labels ctx i hemitted).nodup⟩

theorem Mips.lone {ctx : EmitContext} {i : Instruction} {e : Effect}
    (hemitted : (Mips.backend.emit ctx i e).failure = none)
    (hshort : (Mips.backend.emit ctx i e).code.length ≤ codeLimit) : Lone Mips.backend ctx i e :=
  ⟨hemitted, hshort, (Mips.emit_labels ctx i hemitted).nodup⟩

/-! ## Checks -/

/-- On both targets arrays and indices are checked before anything else is touched, and then lead to the
element. -/
theorem elements_are_checked : ChecksElements X86.backend X86.scratch X86.widens X86.AimsAt ∧
    ChecksElements Mips.backend Mips.scratch Access.signed Mips.AimsAt :=
  ⟨X86.checksElements, Mips.checksElements⟩

def numberLoad : Instruction := .placed 0 .ldelemI4 []

def numberEffect : Effect := { popped := [.int32, .reference 4], pushed := [.int32] }

def numbers : List UInt32 := [0, 3, 0, 10, 20, 30]

section Numbers

variable {I R M : Type} [DecidableEq R] [Runner I R M] [Storing M] [TargetInstr I] {backend : Backend I}
  {scratch : List R} {sign : Access → Bool}
  {aims : Program I → ElementUse → Access → UInt32 → List I → Snapshot R → Prop}

omit [DecidableEq R] [TargetInstr I] in
theorem numbers_length {m : M} {stack : List UInt32} (hm : Sampled I numbers stack m) :
    HasLength I dropContext (snap I m).memory 0x2000 3 := by
  refine ⟨?_, fun _ => by decide⟩
  have hvalue : (snap I m).memory.valueAt 0x2004 4 = 3 := hm.value [0] [0, 10, 20, 30] rfl
  exact (Memory.read_eq_ofNat (by decide)).trans (congrArg (fun n => Except.ok (UInt32.ofNat n)) hvalue)

omit [DecidableEq R] in
theorem numbers_indexes {m : M} {index array : UInt32} (hlone : Lone backend dropContext numberLoad numberEffect)
    (hm : Sampled I numbers [index, array] m) :
    Indexes backend dropContext numberLoad numberEffect
      (Program.ofTemplate (backend.emit dropContext numberLoad numberEffect).code) 0 (.load .i4)
      { storage := 4, signed := true } [] index array [] m where
  operation := rfl
  access := rfl
  size := rfl
  ready := hlone.ready hm
  room := by
    rw [hm.pointer]
    exact show Memory.mapped 0x3000 0 = true by decide

theorem numbers_outside (hchecks : ChecksElements backend scratch sign aims)
    (hlone : Lone backend dropContext numberLoad numberEffect) (hm : ∃ m : M, Sampled I numbers [3, 0x2000] m) :
    FailsAlone backend dropContext numberLoad numberEffect numbers [3, 0x2000]
      (Set.Ico 0x2004 0x2008 ∪ Set.Ico 0x3000 0x3008) .indexOutOfRange := by
  obtain ⟨m, hm⟩ := hm
  have hends := hchecks.outside (numbers_indexes hlone hm) (by decide) (numbers_length hm)
    (fun hindex => absurd hindex.2 (by decide))
  unfold checkedSlots at hends
  rw [hm.pointer] at hends
  exact ⟨m, hm, Goes.mono hends (fun _ hfalse => hfalse) fun _ _ hraised => hraised.1⟩

theorem numbers_middle (hchecks : ChecksElements backend scratch sign aims)
    (hlone : Lone backend dropContext numberLoad numberEffect) (hm : ∃ m : M, Sampled I numbers [1, 0x2000] m) :
    PushesAlone backend dropContext numberLoad numberEffect numbers [1, 0x2000] [20] := by
  obtain ⟨m, hm⟩ := hm
  have hloads := hchecks.load (numbers_indexes hlone hm) (by decide) (numbers_length hm)
    ⟨by decide, by decide⟩ (hm.loadable (by decide) (by decide) (by decide) (by decide))
  have hvalue : (snap I m).memory.valueAt 0x2010 4 = 20 := hm.value [0, 3, 0, 10] [30] rfl
  refine ⟨m, hm, (ReachesWithin.reaches hloads).mono ?_⟩
  rintro m' ⟨⟨hpast, hpushed⟩, -⟩
  refine ⟨hpast, hpushed.words.trans ?_⟩
  have hword : ∀ signed, loadedWords signed 4 20 = [20] := by decide
  rw [← hword, ← hvalue]
  rfl

end Numbers

/-- An element of the array, and an index behind its end. -/
theorem elements_are_checked_numbers :
    (FailsAlone X86.backend dropContext numberLoad numberEffect numbers [3, 0x2000]
        (Set.Ico 0x2004 0x2008 ∪ Set.Ico 0x3000 0x3008) .indexOutOfRange ∧
      PushesAlone X86.backend dropContext numberLoad numberEffect numbers [1, 0x2000] [20]) ∧
    FailsAlone Mips.backend dropContext numberLoad numberEffect numbers [3, 0x2000]
        (Set.Ico 0x2004 0x2008 ∪ Set.Ico 0x3000 0x3008) .indexOutOfRange ∧
      PushesAlone Mips.backend dropContext numberLoad numberEffect numbers [1, 0x2000] [20] := by
  obtain ⟨hx86, hmips⟩ := elements_are_checked
  have hlone : Lone X86.backend dropContext numberLoad numberEffect := X86.lone rfl (Nat.le_of_ble_eq_true rfl)
  have hlone' : Lone Mips.backend dropContext numberLoad numberEffect :=
    Mips.lone rfl (Nat.le_of_ble_eq_true rfl)
  refine ⟨⟨?_, ?_⟩, ?_, ?_⟩
  · exact numbers_outside hx86 hlone (X86.exists_sampled (by decide) (by decide))
  · exact numbers_middle hx86 hlone (X86.exists_sampled (by decide) (by decide))
  · exact numbers_outside hmips hlone' (Mips.exists_sampled (by decide) (by decide))
  · exact numbers_middle hmips hlone' (Mips.exists_sampled (by decide) (by decide))

/-! ## Loads -/

/-- On MIPS32 a value of any size is pushed as the words it spells. No access is misaligned, and the words are
the same whatever alignment the code counts on. -/
theorem loads_spell_values_at_every_alignment {p : Program Mips.Instr} {touched : Set Nat}
    {s : Snapshot Mips.Reg} {base : Mips.Reg} {offset : Int32} {align storage : Nat} {a : UInt32} (signed : Bool)
    (hfits : p.code.size ≤ codeLimit) (hvalue : Mips.Located base offset align s a)
    (hstack : (s.regs .sp).toNat % 4 = 0) (hpushable : Pushable .sp touched a storage s) :
    Runs p touched (Mips.pushFromMemory base offset storage signed align) s
      (Pushed .sp [.t6, .t7] (loadedWords signed storage (s.memory.valueAt a.toNat storage)) s)
      fun _ _ => False :=
  Mips.runs_pushFromMemory hfits signed hvalue hstack hpushable

/-- Minus two in three bytes at an odd address. -/
theorem loads_spell_values_at_every_alignment_odd :
    ∃ m : Mips.Machine, Sampled Mips.Instr [0xFFFFFE00] [] m ∧
      Reaches (Mips.Machine.cycle (Program.ofTemplate (Mips.pushFromMemory .t0 0x2001 3 true 1))) m fun m' =>
        m'.store.memory.wordsAt (m'.reg .sp).toNat 1 = [0xFFFFFFFE] := by
  obtain ⟨m, hm⟩ : ∃ m, Sampled Mips.Instr [0xFFFFFE00] [] m := Mips.exists_sampled (by decide) (by decide)
  have hlocated : Mips.Located .t0 0x2001 1 (snap Mips.Instr m) 0x2001 := by
    refine ⟨by decide, ?_, by decide, by decide⟩
    rw [hm.blank .t0 (by decide)]
    rfl
  have hpushable : Pushable .sp _ 0x2001 3 (snap Mips.Instr m) := hm.pushable (by decide) (by decide)
  have hrun := loads_spell_values_at_every_alignment true
    (ofTemplate_wellFormed (Mips.pushFromMemory .t0 0x2001 3 true 1) (by decide)).fits hlocated
    (hm.onStack.aligned rfl) hpushable
  have hword : (snap Mips.Instr m).memory.valueAt 0x2000 (1 + 3) = 0xFFFFFE00 := hm.value [] [] rfl
  have hvalue : (snap Mips.Instr m).memory.valueAt 0x2001 3 = 0xFFFFFE := by
    have hdiv := (snap Mips.Instr m).memory.valueAt_div 0x2000 1 3
    rw [hword] at hdiv
    exact hdiv.symm
  refine ⟨m, hm, (hm.reaches (by decide) hrun).mono fun m' hm' => ?_⟩
  have hwords := hm'.words
  rw [show (0x2001 : UInt32).toNat = 0x2001 from rfl, hvalue] at hwords
  exact hwords

section Sample

/-- A class with a field of so many bytes at offset eight. -/
def sampleContext (size : Nat) (isSigned : Bool) : EmitContext :=
  { dropContext with
    tables := ((Table.addType {} (.primitive 1 "Number" size isSigned)).addType (.ofClass 2 "Sample" 16)).addField
      (.ofInstance 1 "level" 2 1 8) }

def fieldLoad : Instruction := { Instruction.placed 0 .ldfld [0, 0, 0, 0] with fieldRef := some 1 }

def fieldLoadEffect : Effect := { popped := [.reference 4], pushed := [.int32] }

def fieldStore : Instruction := { Instruction.placed 0 .stfld [0, 0, 0, 0] with fieldRef := some 1 }

def fieldStoreEffect : Effect := { popped := [.int32, .reference 4] }

/-- The field of an object at `0x2000`. -/
def samplePlace (size : Nat) (isSigned : Bool) : Place where
  operands := [0x2000]
  address := 0x2008
  access := { storage := size, signed := isSigned }
  align := 4
  consulted := ∅

theorem sample_locates {I : Type} {R M : Type} [Runner I R M] (size : Nat) (isSigned : Bool) {i : Instruction}
    (hi : i.fieldRef = some 1) (p : Program I) (memory : Memory) :
    Locates (sampleContext size isSigned) i p memory .field (samplePlace size isSigned) := by
  have hobject : (0x2000 : UInt32) ≠ 0 := by decide
  have hfield : (sampleContext size isSigned).fieldAccess i =
      .ok (.ofInstance 1 "level" 2 1 8, { storage := size, signed := isSigned }) := by
    simp only [EmitContext.fieldAccess, Table.resolveField, hi]
    rfl
  exact .field hfield hobject

variable {I R M : Type} [DecidableEq R] [Runner I R M] [Storing M] [TargetInstr I] {backend : Backend I}
  {scratch : List R} {sign : Access → Bool} {size : Nat} {isSigned : Bool} {w : UInt32}

theorem LoadsValues.pushesAlone {words : List UInt32} (hloads : LoadsValues backend scratch sign)
    (hlone : Lone backend (sampleContext size isSigned) fieldLoad fieldLoadEffect) (hsize : size ≤ 4)
    (hm : ∃ m : M, Sampled I [0, 0, w] [0x2000] m)
    (hwords : loadedWords (sign ⟨size, isSigned⟩) size (w.toNat % 256 ^ size) = words) :
    PushesAlone backend (sampleContext size isSigned) fieldLoad fieldLoadEffect [0, 0, w] [0x2000] words := by
  obtain ⟨m, hm⟩ := hm
  have hword : (snap I m).memory.valueAt 0x2008 4 = w.toNat := hm.value [0, 0] [] rfl
  have hloadable : Loadable I (samplePlace size isSigned) (snap I m) := by
    refine hm.loadable (Memory.mapped_iff.mpr ?_) (show (0x2008 : UInt32).toNat % 4 = 0 by decide)
      (Nat.le_refl 1) ?_
    · simp only [samplePlace, UInt32.reduceToNat]
      omega
    · simp only [samplePlace, Place.wordCount, UInt32.reduceToNat]
      omega
  have hop : fieldLoad.op.operation = Site.field.load := rfl
  have hreaches := hloads hop (hlone.ready hm) (sample_locates size isSigned rfl _ _) hloadable
  refine ⟨m, hm, (ReachesWithin.reaches hreaches).mono ?_⟩
  rintro m' ⟨⟨hpast, hpushed⟩, -⟩
  refine ⟨hpast, ?_⟩
  rw [← hwords, ← hword, Memory.valueAt_mod _ _ hsize]
  exact hpushed.words

omit [DecidableEq R] in
theorem StoresValues.writesAlone {v : UInt32} (hstores : StoresValues backend scratch)
    (hlone : Lone backend (sampleContext size isSigned) fieldStore fieldStoreEffect) (hsize : size ≤ 4)
    (hm : ∃ m : M, Sampled I [0, 0, w] [v, 0x2000] m) :
    WritesAlone backend (sampleContext size isSigned) fieldStore fieldStoreEffect [0, 0, w] [v, 0x2000] 0x2008
      (v.toNat % 256 ^ size + 256 ^ size * (w.toNat / 256 ^ size)) := by
  obtain ⟨m, hm⟩ := hm
  have hword : (snap I m).memory.valueAt 0x2008 4 = w.toNat := hm.value [0, 0] [] rfl
  have hpushed : (snap I m).memory.valueAt 0x3000 4 = v.toNat := by
    have hwords := hm.onStack.words
    rw [hm.pointer] at hwords
    rw [← (List.cons.inj hwords).1, UInt32.toNat_ofNat_of_lt' (Memory.valueAt_lt ..)]
    rfl
  have hstorable : Storable I (samplePlace size isSigned) [v, 0x2000] (snap I m) := by
    refine hm.storable (Memory.mapped_iff.mpr ?_) (show (0x2008 : UInt32).toNat % 4 = 0 by decide) ?_ ?_
    · simp only [samplePlace, UInt32.reduceToNat]
      omega
    · simp only [samplePlace, Place.wordCount, List.length_cons]
      omega
    · simp only [samplePlace, UInt32.reduceToNat]
      omega
  have hop : fieldStore.op.operation = Site.field.store := rfl
  have hvalue : (fieldStoreEffect.operand 0).size = 4 * [v].length := rfl
  have hready : Ready backend (sampleContext size isSigned) fieldStore fieldStoreEffect _ 0
      ([v] ++ ((samplePlace size isSigned).operands ++ [])) m := hlone.ready hm
  have hreaches := hstores hop hvalue hready (sample_locates size isSigned rfl _ _) hstorable
  refine ⟨m, hm, (ReachesWithin.reaches hreaches).mono ?_⟩
  rintro m' ⟨⟨hpast, hstored⟩, -⟩
  refine ⟨hpast, ?_⟩
  obtain ⟨hwrote, hkept⟩ := hstored.memory
  have hlow : (snap I m').memory.valueAt 0x2008 size = (snap I m).memory.valueAt 0x3000 size := by
    refine Memory.valueAt_of_bytes fun j hj => (hwrote j hj).trans ?_
    rw [hm.pointer]
    rfl
  have hhigh : (snap I m').memory.valueAt (0x2008 + size) (4 - size) =
      (snap I m).memory.valueAt (0x2008 + size) (4 - size) := by
    refine Memory.valueAt_congr fun c hc _ => hkept c fun hmem => ?_
    exact absurd (show c < 0x2008 + size from hmem.2) (by omega)
  have hsplit : size + (4 - size) = 4 := by omega
  rw [← hsplit] at hword
  calc (snap I m').memory.valueAt 0x2008 4
    _ = (snap I m').memory.valueAt 0x2008 (size + (4 - size)) := by rw [hsplit]
    _ = (snap I m).memory.valueAt 0x3000 size +
        256 ^ size * (snap I m).memory.valueAt (0x2008 + size) (4 - size) := by
      rw [Memory.valueAt_add, hlow, hhigh]
    _ = v.toNat % 256 ^ size + 256 ^ size * (w.toNat / 256 ^ size) := by
      rw [← hpushed, ← hword, Memory.valueAt_mod _ _ hsize, Memory.valueAt_div]

end Sample

/-- Extension by zeros and by the sign differ where the highest of three bytes has its highest bit set. -/
theorem loadedWords_three {value : Nat} (h : value < 256 ^ 3) :
    loadedWords false 3 value = loadedWords true 3 value ↔ value < 0x800000 := by
  have hsigned : extended true 3 value = Int.bmod value (256 ^ 3 : Nat) := by
    rw [← modulus_bytes]
    exact if_pos rfl
  show [UInt32.ofInt value] = [UInt32.ofInt (extended true 3 value)] ↔ _
  rw [hsigned, List.cons.injEq, and_iff_left rfl]
  constructor
  · intro hwords
    have hsame := congrArg UInt32.toNat hwords
    rw [UInt32.ofInt, UInt32.ofInt, UInt32.toNat_ofNat', UInt32.toNat_ofNat', Int.bmod_def] at hsame
    split at hsame <;> omega
  · intro hlow
    rw [Int.bmod_eq_of_le (by omega) (by omega)]

/-- On x86 a value of any size is pushed as the words it spells, but a value of three bytes is never extended
by its sign. So fields, static fields, elements and what raw pointers point at are loaded as the same words on
both targets, except negative values of three bytes. -/
theorem loads_agree_but_for_three_bytes {p : Program X86.Instr} {touched : Set Nat} {s : Snapshot X86.Reg}
    {mem : X86.Mem} {a : UInt32} (access : Access) (hfits : p.code.size ≤ codeLimit) (hsteady : mem.Steady)
    (hnames : mem.Names p s.regs a) (hpushable : Pushable .esp touched a access.storage s) :
    Runs p touched (X86.pushFromMemory mem access.storage access.signed) s
      (Pushed .esp [.edx, .esi]
        (loadedWords (X86.widens access) access.storage (s.memory.valueAt a.toNat access.storage)) s)
      (fun _ _ => False) ∧
    (∀ (memory : Memory) (b : Nat),
      loadedWords (X86.widens access) access.storage (memory.valueAt b access.storage) =
          loadedWords access.signed access.storage (memory.valueAt b access.storage) ↔
        ¬(access.signed = true ∧ access.storage = 3 ∧ 0x800000 ≤ memory.valueAt b 3)) ∧
    LoadsValues X86.backend X86.scratch X86.widens ∧ LoadsValues Mips.backend Mips.scratch Access.signed := by
  refine ⟨X86.runs_pushFromMemory hfits access.signed hsteady hnames hpushable, fun memory b => ?_,
    X86.loadsValues, Mips.loadsValues⟩
  by_cases hnarrow : access.signed = true ∧ access.storage = 3
  · obtain ⟨hsigned, hstorage⟩ := hnarrow
    have hwidens : X86.widens access = false := by
      rw [X86.widens, hsigned, hstorage]
      rfl
    rw [hwidens, hsigned, hstorage, loadedWords_three (memory.valueAt_lt b 3)]
    simp only [true_and, Nat.not_le]
  · have hwidens : X86.widens access = access.signed := by
      unfold X86.widens
      cases hsigned : access.signed with
      | false => rfl
      | true => exact decide_eq_true fun hstorage => hnarrow ⟨hsigned, hstorage⟩
    rw [hwidens]
    exact ⟨fun _ hfails => hnarrow ⟨hfails.1, hfails.2.1⟩, fun _ => rfl⟩

/-- Minus two in two bytes is extended by its sign on both targets. -/
theorem loads_agree_but_for_three_bytes_two :
    (∃ m : X86.Machine, Sampled X86.Instr [0, 0, 0xFFFE] [0x2000] m ∧
      Reaches (X86.Machine.cycle (Program.ofTemplate (X86.pushFromMemory (.based .eax 0x2008) 2 true))) m
        fun m' => m'.store.memory.wordsAt (m'.reg .esp).toNat 1 = [0xFFFFFFFE]) ∧
    PushesAlone X86.backend (sampleContext 2 true) fieldLoad fieldLoadEffect [0, 0, 0xFFFE] [0x2000]
      [0xFFFFFFFE] ∧
    PushesAlone Mips.backend (sampleContext 2 true) fieldLoad fieldLoadEffect [0, 0, 0xFFFE] [0x2000]
      [0xFFFFFFFE] := by
  let code := X86.pushFromMemory (.based .eax 0x2008) 2 true
  obtain ⟨m, hm⟩ : ∃ m, Sampled X86.Instr [0, 0, 0xFFFE] [0x2000] m := X86.exists_sampled (by decide) (by decide)
  have hnames : (X86.Mem.based .eax 0x2008).Names (Program.ofTemplate code) (snap X86.Instr m).regs 0x2008 := by
    have hbased := X86.Mem.Names.based (Program.ofTemplate code) .eax 0x2008 (snap X86.Instr m).regs
    rwa [hm.blank .eax (by decide)] at hbased
  obtain ⟨hrun, -, hx86, hmips⟩ := loads_agree_but_for_three_bytes { storage := 2, signed := true }
    (ofTemplate_wellFormed code (by decide)).fits (X86.steady_eax 0x2008) hnames (hm.pushable (by decide) (by decide))
  refine ⟨⟨m, hm, (hm.reaches (by decide) hrun).mono fun m' hm' => ?_⟩, ?_, ?_⟩
  · have hword : (snap X86.Instr m).memory.valueAt 0x2008 4 = 0xFFFE := hm.value [0, 0] [] rfl
    have hvalue : (snap X86.Instr m).memory.valueAt 0x2008 2 = 0xFFFE := by
      rw [← Memory.valueAt_mod _ _ (show 2 ≤ 4 by decide), hword]
      rfl
    have hwords := hm'.words
    rw [show (0x2008 : UInt32).toNat = 0x2008 from rfl, hvalue] at hwords
    exact hwords
  · exact hx86.pushesAlone (X86.lone rfl (Nat.le_of_ble_eq_true rfl)) (by decide)
      (X86.exists_sampled (by decide) (by decide)) (by decide)
  · exact hmips.pushesAlone (Mips.lone rfl (Nat.le_of_ble_eq_true rfl)) (by decide)
      (Mips.exists_sampled (by decide) (by decide)) (by decide)

/-- Minus one in three bytes is not extended by its sign on x86. -/
theorem loads_differ_at_three_bytes :
    PushesAlone X86.backend (sampleContext 3 true) fieldLoad fieldLoadEffect [0, 0, 0xFFFFFF] [0x2000]
      [0x00FFFFFF] ∧
    PushesAlone Mips.backend (sampleContext 3 true) fieldLoad fieldLoadEffect [0, 0, 0xFFFFFF] [0x2000]
      [0xFFFFFFFF] := by
  constructor
  · exact X86.loadsValues.pushesAlone (X86.lone rfl (Nat.le_of_ble_eq_true rfl)) (by decide)
      (X86.exists_sampled (by decide) (by decide)) (by decide)
  · exact Mips.loadsValues.pushesAlone (Mips.lone rfl (Nat.le_of_ble_eq_true rfl)) (by decide)
      (Mips.exists_sampled (by decide) (by decide)) (by decide)

/-! ## Stores -/

/-- On both targets the words of a value are popped into exactly its bytes and exactly its bytes are cleared,
on MIPS32 without a misaligned access. So stores to fields, static fields, elements and through raw pointers
leave everything next to the value alone, and exactly the instance is cleared. -/
theorem stores_write_exactly_the_value :
    (∀ {p : Program X86.Instr} {touched : Set Nat} {s : Snapshot X86.Reg} {mem : X86.Mem} {storage : Nat}
      {a : UInt32}, p.code.size ≤ codeLimit → mem.Names p s.regs a →
      (mem.base ≠ some .esp ∧ mem.base ≠ some .edx → Poppable .esp touched a storage s →
        Runs p touched (X86.popToMemory mem storage) s
          (Stored .esp [.edx] ((storage + 3) / 4) a.toNat storage
            (fun j => s.memory.byte ((s.regs .esp).toNat + j)) s) fun _ _ => False) ∧
      (Memory.mapped a storage = true → Set.Ico a.toNat (a.toNat + storage) ⊆ touched →
        Runs p touched (X86.zeroMemory mem storage) s (Stored .esp [] 0 a.toNat storage (fun _ => 0) s)
          fun _ _ => False)) ∧
    (∀ {p : Program Mips.Instr} {touched : Set Nat} {s : Snapshot Mips.Reg} {base : Mips.Reg} {offset : Int32}
      {align storage : Nat} {a : UInt32}, p.code.size ≤ codeLimit →
      (Mips.Located base offset align s a → (s.regs .sp).toNat % 4 = 0 → Poppable .sp touched a storage s →
        Runs p touched (Mips.popToMemory base offset storage align) s
          (Stored .sp [.t6, .t7] ((storage + 3) / 4) a.toNat storage
            (fun j => s.memory.byte ((s.regs .sp).toNat + j)) s) fun _ _ => False) ∧
      (s.regs base + offset.toUInt32 = a → align ∈ [1, 2, 4] → a.toNat % align = 0 →
        Memory.mapped a storage = true → Set.Ico a.toNat (a.toNat + storage) ⊆ touched →
        Runs p touched (Mips.zeroMemory base offset storage align) s
          (Stored .sp [] 0 a.toNat storage (fun _ => 0) s) fun _ _ => False)) ∧
    (StoresValues X86.backend X86.scratch ∧ ClearsValues X86.backend X86.scratch) ∧
    StoresValues Mips.backend Mips.scratch ∧ ClearsValues Mips.backend Mips.scratch := by
  refine ⟨fun hfits hnames => ⟨fun hbase hpoppable => ?_, fun hmapped htouched => ?_⟩,
    fun hfits => ⟨fun hplace hpointer hpoppable => ?_, fun hplace hknown haligned hmapped htouched => ?_⟩,
    ⟨X86.storesValues, X86.clearsValues⟩, Mips.storesValues, Mips.clearsValues⟩
  · exact X86.runs_popToMemory hfits hbase hnames hpoppable
  · exact X86.runs_zeroMemory hfits hnames hmapped htouched
  · exact Mips.runs_popToMemory hfits hplace hpointer hpoppable
  · exact Mips.runs_zeroMemory hfits hplace hknown haligned hmapped htouched

/-- Three bytes are stored, and the one behind them stays. -/
theorem stores_write_exactly_the_value_three :
    WritesAlone X86.backend (sampleContext 3 false) fieldStore fieldStoreEffect [0, 0, 0x11223344]
      [0xAABBCCDD, 0x2000] 0x2008 0x11BBCCDD ∧
    WritesAlone Mips.backend (sampleContext 3 false) fieldStore fieldStoreEffect [0, 0, 0x11223344]
      [0xAABBCCDD, 0x2000] 0x2008 0x11BBCCDD := by
  obtain ⟨-, -, ⟨hx86, -⟩, hmips, -⟩ := stores_write_exactly_the_value
  constructor
  · exact hx86.writesAlone (X86.lone rfl (Nat.le_of_ble_eq_true rfl)) (by decide)
      (X86.exists_sampled (by decide) (by decide))
  · exact hmips.writesAlone (Mips.lone rfl (Nat.le_of_ble_eq_true rfl)) (by decide)
      (Mips.exists_sampled (by decide) (by decide))

end Stencil
