import Stencil.Proofs.Calls.Targets
import Stencil.Proofs.Mips.Objects
import Stencil.Proofs.X86.Objects

/-!
# Objects that are created on both targets

A constructor finds the object it is to fill and all that was pushed for it, and the object stays on the
stack when it returns. A heap without room ends the run before that.
-/

namespace Stencil

open AddressMap Link

/-- On both targets an object that is created is delivered to its constructor along with the arguments, and
takes their place. Without memory for it the run ends and the constructor is not run. -/
theorem objects_delivered {env : SimEnv} {caller ctor : EmitContext} {create ret : Instruction}
    {t : TypeDescriptor} {e' : Effect} (h : SimulatedConstructor env caller ctor create ret t e') :
    DeliversObjects X86.backend X86.Machine.store X86.Machine.pc caller ctor create ret t e' ∧
    DeliversObjects Mips.backend Mips.Machine.store Mips.Machine.pc caller ctor create ret t e' :=
  ⟨X86.deliversObjects h, Mips.deliversObjects h⟩

/-! ## A box around an integer -/

section Box

def boxType : TypeDescriptor := .ofClass 2 "Box" 8

theorem boxConstructor_pos : 0 < 3 := Nat.succ_pos 2

def boxConstructor : MethodDescriptor :=
  { (MethodDescriptor.ofName ⟨3, boxConstructor_pos⟩ boxType.id ".ctor").asConstructor with params := [1] }

def boxTable : Table :=
  ((Table.addType {} (.primitive 1 "Int32" 4 true)).addType boxType).addMethod boxConstructor

def boxFrame : Frame where
  args := [⟨12, .reference 4⟩, ⟨8, .int32⟩]
  locals := []
  returnItem := none
  argBytes := 8
  localBytes := 0

def boxContext : EmitContext :=
  { tables := boxTable, options := {}, policy := X86.backend.defaultPolicy, frame := boxFrame,
    method := boxConstructor, endPosition := 1 }

theorem boxCaller_pos : 0 < 4 := Nat.succ_pos 3

def boxCaller : EmitContext := { boxContext with method := .ofName ⟨4, boxCaller_pos⟩ 0 "main" }

def boxEnv : SimEnv := { tables := boxTable, frame := boxFrame, pointerSize := 4 }

def boxCreate : Instruction :=
  { Instruction.placed 0 .newobj [0, 0, 0, 0] with methodRef := some boxConstructor.id }

def boxEffect : Effect := { popped := [.int32], pushed := [.reference 4] }

def boxReturn : Instruction := .placed 0 .ret []

theorem box_simulated :
    SimulatedConstructor boxEnv boxCaller boxContext boxCreate boxReturn boxType {} where
  returns := rfl
  tables := rfl
  pointerSize := rfl
  options := rfl
  framed := rfl
  returned := ⟨[], [], rfl⟩
  creates := rfl
  resolved := rfl
  declaring := rfl
  isClass := rfl
  notDelegate := rfl
  onReceiver := rfl
  noResult := rfl

variable {I R M : Type} [TargetInstr I]

def boxBody (backend : Backend I) : List I :=
  (backend.emit boxContext (.pseudo 0 .methodStart) {}).code ++
  (backend.emit boxContext boxReturn {}).code ++
  (TargetInstr.label boxContext.endLabel :: (backend.emit boxContext (.pseudo 1 .methodEnd) {}).code)

def boxCode (backend : Backend I) : List I :=
  boxBody backend ++ (backend.emit boxCaller boxCreate boxEffect).code

def boxInfo : TypeInfo := { instanceSize := 8, elementSize := 4 }

def boxProgram (backend : Backend I) : Program I :=
  { Program.ofTemplate (boxCode backend) with
    symbols := bindAll ∅ (intrinsicSymbols ++
      [(boxConstructor.symbol, codeAddress 0), (boxType.symbol, dataBase)])
    typeInfo := (∅ : Std.HashMap UInt32 TypeInfo).insert dataBase boxInfo }

/-- The templates can be linked. -/
structure BoxFits (backend : Backend I) : Prop where
  short : (boxCode backend).length ≤ codeLimit
  nodup : (boundLabels (boxCode backend)).Nodup
  created : (backend.emit boxCaller boxCreate boxEffect).failure = none
  returned : (backend.emit boxContext boxReturn {}).failure = none

theorem BoxFits.wellFormed {backend : Backend I} (h : BoxFits backend) :
    (boxProgram backend).WellFormed := by
  refine Program.wellFormed_of_layout (boxCode backend) rfl rfl h.short
    [(boxConstructor.symbol, codeAddress 0), (boxType.symbol, dataBase)] rfl fun intrinsic => ?_
  cases intrinsic <;> decide

theorem BoxFits.places {backend : Backend I} (h : BoxFits backend) :
    CalleePlaces backend (boxProgram backend) boxContext boxReturn {} 0
      (0 + (backend.emit boxContext (.pseudo 0 .methodStart) {}).code.length)
      (0 + ((backend.emit boxContext (.pseudo 0 .methodStart) {}).code ++
        (backend.emit boxContext boxReturn {}).code).length) := by
  have hbody : Placed (boxProgram backend) 0 (boxBody backend) :=
    Placed.of_layout (boxCode backend) rfl rfl h.nodup [] _ _ rfl
  exact {
    fits := h.short
    resolves := by
      have hne : boxType.symbol ≠ boxConstructor.symbol := by decide
      rw [Program.resolve]
      simp [boxProgram, bindAll, boxContext, Std.HashMap.getElem_insert, hne]
    starts := hbody.front.front
    returns := hbody.front.back
    returned := h.returned
    ends := hbody.back }

theorem BoxFits.resolvesType {backend : Backend I} :
    (boxProgram backend).resolve boxType.symbol = .ok dataBase := by
  rw [Program.resolve]
  simp [boxProgram, bindAll]

/-- Seven to be put into a box, over a nine, and a heap of this many bytes. -/
def boxStore (room : UInt32) : Store :=
  { (oneWordStore 9).withWord (wordAddress 1) 7 with heapNext := heapBase, heapEnd := heapBase + room }

theorem holds_boxStore (room : UInt32) : (boxStore room).memory.Holds [7, 9] := by
  show ((oneWordStore 9).withWord (wordAddress 1) 7).memory.Holds [7, 9]
  rw [Store.withWord, toNat_wordAddress (by decide)]
  exact (holds_oneWordStore 9).put_word (by decide)

/-- With room on the heap the constructor finds the box and seven, and the box is left over the nine.
Without room the run ends and the constructor is not run. -/
theorem box_delivered [LabelUse I] [Semantics I R M] {backend : Backend I} (hfits : BoxFits backend)
    {store : M → Store} {pc : M → UInt32}
    (hdelivers : DeliversObjects backend store pc boxCaller boxContext boxCreate boxReturn boxType {})
    {room fp : UInt32} {m : M} (hstore : store m = boxStore room)
    (hm : Poised I m (boxBody backend).length [7, 9] fp) :
    (room = 8 → Reaches (Semantics.cycle (boxProgram backend)) m fun m₁ =>
      (∃ fp₁, Finds boxFrame [[heapBase], [7]] fp₁ (Semantics.memory I m₁)) ∧
      Reaches (Semantics.cycle (boxProgram backend)) m₁ fun m₂ =>
        Poised I m₂ (boxCode backend).length [heapBase, 9] fp) ∧
    (room = 0 → Ends (Semantics.cycle (boxProgram backend)) (.halt HaltReason.outOfMemory.code) m ∧
      ∀ {n : Nat} {m' : M}, Cycles (Semantics.cycle (boxProgram backend)) n m m' →
        pc m' ≠ codeAddress 0) := by
  have hpoised : Poised I m (boxBody backend).length (pushedWords [[7]] ++ [9]) fp := hm
  have hinfo : (boxProgram backend).typeInfo[dataBase]? = some boxInfo := by simp [boxProgram]
  have hplaced : Placed (boxProgram backend) (boxBody backend).length
      (backend.emit boxCaller boxCreate boxEffect).code :=
    Placed.of_layout (boxCode backend) rfl rfl hfits.nodup _ _ [] (List.append_nil _).symm
  have hfill : ∀ object : UInt32, Fill (boxContext.frame.args.map FrameSlot.item) ([object] :: [[7]]) :=
    fun _ => .cons rfl (.cons rfl .nil)
  have hbelow : (heapBase + room).toNat + 16 ≤ stackTop.toNat →
      HeapBelow (boxProgram backend) (store m) ((pushedWords [[7]] ++ [9]).length + 1) := by
    rw [hstore]
    exact id
  constructor
  · rintro rfl
    obtain ⟨s, hobject⟩ : ∃ s, (boxProgram backend).newObject dataBase (boxStore 8) = .ok heapBase s :=
      Program.newObject_fits hinfo (by decide) (by decide) rfl
    rw [← hstore] at hobject
    have hruns := (hdelivers hfits.created hfits.wellFormed hplaced hfits.places BoxFits.resolvesType
      hpoised hobject (hfill heapBase) (hbelow (by decide)) (Nat.le_of_ble_eq_true rfl)).1 (by decide)
    refine hruns.mono fun m₁ ⟨back, slot, fp₁, hslot, _, hpoised, hfinds, hreturns⟩ => ⟨⟨fp₁, hfinds⟩, ?_⟩
    rw [boxCode, List.length_append]
    exact @hreturns [] [] slot [7, heapBase] m₁ rfl rfl rfl hpoised
  · rintro rfl
    have hobject := Program.newObject_full (s := boxStore 0) hinfo (by decide)
    rw [← hstore] at hobject
    exact (hdelivers hfits.created hfits.wellFormed hplaced hfits.places BoxFits.resolvesType
      hpoised hobject (hfill 0) (hbelow (by decide)) (Nat.le_of_ble_eq_true rfl)).2 rfl

/-- On both targets a heap of eight bytes has room for a box, and an empty one has not. -/
theorem objects_delivered_box :
    (∃ m : X86.Machine, Poised X86.Instr m (boxBody X86.backend).length [7, 9] 0 ∧
      Reaches (X86.Machine.cycle (boxProgram X86.backend)) m fun m₁ =>
        (∃ fp₁, Finds boxFrame [[heapBase], [7]] fp₁ m₁.store.memory) ∧
        Reaches (X86.Machine.cycle (boxProgram X86.backend)) m₁ fun m₂ =>
          Poised X86.Instr m₂ (boxCode X86.backend).length [heapBase, 9] 0) ∧
    (∃ m : X86.Machine, Poised X86.Instr m (boxBody X86.backend).length [7, 9] 0 ∧
      Ends (X86.Machine.cycle (boxProgram X86.backend)) (.halt HaltReason.outOfMemory.code) m ∧
      ∀ {n : Nat} {m' : X86.Machine}, Cycles (X86.Machine.cycle (boxProgram X86.backend)) n m m' →
        m'.pc ≠ codeAddress 0) ∧
    (∃ m : Mips.Machine, Poised Mips.Instr m (boxBody Mips.backend).length [7, 9] 0 ∧
      Reaches (Mips.Machine.cycle (boxProgram Mips.backend)) m fun m₁ =>
        (∃ fp₁, Finds boxFrame [[heapBase], [7]] fp₁ m₁.store.memory) ∧
        Reaches (Mips.Machine.cycle (boxProgram Mips.backend)) m₁ fun m₂ =>
          Poised Mips.Instr m₂ (boxCode Mips.backend).length [heapBase, 9] 0) ∧
    ∃ m : Mips.Machine, Poised Mips.Instr m (boxBody Mips.backend).length [7, 9] 0 ∧
      Ends (Mips.Machine.cycle (boxProgram Mips.backend)) (.halt HaltReason.outOfMemory.code) m ∧
      ∀ {n : Nat} {m' : Mips.Machine}, Cycles (Mips.Machine.cycle (boxProgram Mips.backend)) n m m' →
        m'.pc ≠ codeAddress 0 := by
  obtain ⟨hx86, hmips⟩ := objects_delivered box_simulated
  have hfits : BoxFits X86.backend := ⟨Nat.le_of_ble_eq_true rfl, by decide, rfl, rfl⟩
  have hfits' : BoxFits Mips.backend := ⟨Nat.le_of_ble_eq_true rfl, by decide, by decide, rfl⟩
  let start (room : UInt32) : X86.Machine := X86.Machine.setReg
    { pc := codeAddress (boxBody X86.backend).length, store := boxStore room } .esp (stackPointer [7, 9])
  let start' (room : UInt32) : Mips.Machine := Mips.Machine.setReg
    { pc := codeAddress (boxBody Mips.backend).length,
      npc := codeAddress ((boxBody Mips.backend).length + 1), store := boxStore room } .sp
    (stackPointer [7, 9])
  have hstart : ∀ room, Poised X86.Instr (start room) (boxBody X86.backend).length [7, 9] 0 :=
    fun room => X86.poised_iff.mpr ⟨rfl, rfl, rfl, holds_boxStore room⟩
  have hstart' : ∀ room, Poised Mips.Instr (start' room) (boxBody Mips.backend).length [7, 9] 0 :=
    fun room => Mips.poised_iff.mpr ⟨rfl, rfl, rfl, rfl, rfl, holds_boxStore room⟩
  refine ⟨⟨start 8, hstart 8, ?_⟩, ⟨start 0, hstart 0, ?_⟩, ⟨start' 8, hstart' 8, ?_⟩,
    start' 0, hstart' 0, ?_⟩
  · exact (box_delivered hfits hx86 rfl (hstart 8)).1 rfl
  · exact (box_delivered hfits hx86 rfl (hstart 0)).2 rfl
  · exact (box_delivered hfits' hmips rfl (hstart' 8)).1 rfl
  · exact (box_delivered hfits' hmips rfl (hstart' 0)).2 rfl

end Box

end Stencil
