import Stencil.Proofs.Dispatch.Targets
import Stencil.Proofs.Mips.Casts
import Stencil.Proofs.X86.Casts

/-!
# Type tests decide subtyping

On both targets the templates of type tests follow the bases of an object's type in linked memory and
decide what the table says about subtyping, however long the chain of bases is and whether or not the
table has its last base.
-/

namespace Stencil

open AddressMap Link

/-- On both targets a type test leaves the object exactly if its type derives from the one that is asked
for, and null for null. A test of another object leaves null, and a cast of it raises an exception. -/
theorem type_tests_decide_subtyping (tables : Table) {options : Options} {ctx : EmitContext}
    {i : Instruction} (e : Effect) {isCast : Bool} {u : TypeDescriptor} (hoptions : ctx.options = options)
    (htables : ctx.tables = tables) (htest : TestsType ctx i isCast u)
    (hstatics : StaticsFit tables options.pointerSize) :
    (∀ {methods p linked}, LinkedProgram X86.backend tables options methods p linked →
      ∀ {base}, Placed p base (X86.backend.emit ctx i e).code →
      ∀ {object words fp m}, Poised X86.Instr m base (object :: words) fp →
      KeepsTypes tables linked.memory m.store.memory →
      let Leaves := fun w m' =>
        Poised X86.Instr m' (base + (X86.backend.emit ctx i e).code.length) (w :: words) fp
      Decides (X86.Machine.cycle p) p tables u.id m.store.memory object Leaves
        (TestFails (X86.Machine.cycle p) isCast (codeAddress (base + 12)) Leaves) m) ∧
    (∀ {methods p linked}, LinkedProgram Mips.backend tables options methods p linked →
      ∀ {base}, Placed p base (Mips.backend.emit ctx i e).code →
      ∀ {object words fp m}, Poised Mips.Instr m base (object :: words) fp → object.toNat % 4 = 0 →
      KeepsTypes tables linked.memory m.store.memory →
      let Leaves := fun w m' =>
        Poised Mips.Instr m' (base + (Mips.backend.emit ctx i e).code.length) (w :: words) fp
      Decides (Mips.Machine.cycle p) p tables u.id m.store.memory object Leaves
        (TestFails (Mips.Machine.cycle p) isCast (codeAddress (base + 15)) Leaves) m) :=
  ⟨fun hp _ hplaced _ _ _ _ hpoised hkeeps =>
    X86.decides_typeTest hp hstatics hoptions htables htest hplaced hpoised hkeeps,
   fun hp _ hplaced _ _ _ _ hpoised haligned hkeeps =>
    Mips.decides_typeTest hp hstatics hoptions htables htest hplaced hpoised haligned hkeeps⟩

/-! ## A circle is a shape -/

section Shapes

def shapeCast : Instruction :=
  { Instruction.placed 1 .castclass [0, 0, 0, 0] with typeRef := some shapeType.id }

def castBody : MethodBody where
  method := areaMethod.id
  instructions := [.placed 0 .ldarg0 [], shapeCast, .placed 6 .pop [], .placed 7 .ret []]

theorem shapeCast_tests : TestsType areaContext shapeCast true shapeType where
  operation := rfl
  resolved := by
    have htype : shapeTable.type? shapeType.id = some shapeType := rfl
    show Table.require _ _ ((some shapeType.id).bind shapeTable.type?) = _
    rw [Option.bind_some, htype]
    rfl

theorem holds_circleStore (linked : Store) (type : UInt32) :
    (circleStore linked type).memory.Holds [heapBase] := by
  have hroom : ([] : List UInt32).length < stackCapacity := by decide
  rw [circleStore, Store.withWord, toNat_wordAddress (by decide)]
  exact Memory.Holds.put_word hroom trivial

theorem decides_circle {I M : Type} {p : Program I} {linked : Store} {type : UInt32}
    (htype : p.types[circleType.id]? = some type) {cycle : EStateM Fault M Unit}
    {Leaves : UInt32 → M → Prop} {Failed : M → Prop} {m : M}
    (h : Decides cycle p shapeTable shapeType.id (circleStore linked type).memory heapBase Leaves Failed
      m) : Reaches cycle m (Leaves heapBase) :=
  h.derives circleType (by decide) type htype (read_circleStore linked type) (by decide)

/-- A circle can be cast to a shape. -/
theorem type_tests_decide_subtyping_circle :
    (∃ method p linked type m, LinkedProgram X86.backend shapeTable {} [method] p linked ∧
      p.types[circleType.id]? = some type ∧ Poised X86.Instr m 3 [heapBase] 0 ∧
      m.store = circleStore linked type ∧
      Reaches (X86.Machine.cycle p) m fun m' => Poised X86.Instr m' 20 [heapBase] 0) ∧
    ∃ method p linked type m, LinkedProgram Mips.backend shapeTable {} [method] p linked ∧
      p.types[circleType.id]? = some type ∧ Poised Mips.Instr m 8 [heapBase] 0 ∧
      m.store = circleStore linked type ∧
      Reaches (Mips.Machine.cycle p) m fun m' => Poised Mips.Instr m' 32 [heapBase] 0 := by
  obtain ⟨hx86, hmips⟩ := type_tests_decide_subtyping shapeTable areaEffect rfl rfl shapeCast_tests
    shapeTable_staticsFit
  constructor
  · have hcompiles : compilesAt X86.backend shapeTable castBody
        (X86.backend.emit areaContext shapeCast areaEffect).code 3 = true := by decide +kernel
    obtain ⟨method, p, linked, hcompiled, hlink, hfits, hplaced⟩ := exists_linked_of_compilesAt hcompiles
    have hp := linkedProgram_shapes hcompiled hlink hfits
    obtain ⟨type, htype⟩ := hp.exists_type (d := circleType) (by decide)
    let m : X86.Machine :=
      X86.Machine.setReg { pc := codeAddress 3, store := circleStore linked type } .esp (wordAddress 0)
    have hpoised : Poised X86.Instr m 3 [heapBase] 0 :=
      X86.poised_iff.mpr ⟨rfl, rfl, rfl, holds_circleStore linked type⟩
    refine ⟨method, p, linked, type, m, hp, htype, hpoised, rfl, ?_⟩
    exact decides_circle htype (hx86 hp hplaced hpoised (keepsTypes_circleStore _ linked type))
  · have hcompiles : compilesAt Mips.backend shapeTable castBody
        (Mips.backend.emit areaContext shapeCast areaEffect).code 8 = true := by decide +kernel
    obtain ⟨method, p, linked, hcompiled, hlink, hfits, hplaced⟩ := exists_linked_of_compilesAt hcompiles
    have hp := linkedProgram_shapes hcompiled hlink hfits
    obtain ⟨type, htype⟩ := hp.exists_type (d := circleType) (by decide)
    let m : Mips.Machine := Mips.Machine.setReg
      { pc := codeAddress 8, npc := codeAddress 9, store := circleStore linked type } .sp (wordAddress 0)
    have hpoised : Poised Mips.Instr m 8 [heapBase] 0 :=
      Mips.poised_iff.mpr ⟨rfl, rfl, rfl, rfl, rfl, holds_circleStore linked type⟩
    refine ⟨method, p, linked, type, m, hp, htype, hpoised, rfl, ?_⟩
    exact decides_circle htype
      (hmips hp hplaced hpoised (by decide) (keepsTypes_circleStore _ linked type))

end Shapes

/-! ## A base that strings overwrite -/

section Wrapping

def inkCast : Instruction :=
  { Instruction.placed 1 .castclass [0, 0, 0, 0] with typeRef := some inkType.id }

def inkBody : MethodBody where
  method := tiltMethod.id
  instructions := [.placed 0 .ldarg0 [], inkCast, .placed 6 .pop [], .placed 7 .ret []]

theorem inkCast_tests : TestsType tiltContext inkCast true inkType where
  operation := rfl
  resolved := by
    have htype : canvasTable.type? inkType.id = some inkType := rfl
    show Table.require _ _ ((some inkType.id).bind canvasTable.type?) = _
    rw [Option.bind_some, htype]
    rfl

/-- A cast of a brush to another type does not raise an exception: the walk goes on at the length of a
string. -/
theorem cast_reads_string_length :
    ∃ method p linked m, LinkedProgram X86.backend canvasTable {} [method] p linked ∧
      Placed p 3 (X86.backend.emit tiltContext inkCast areaEffect).code ∧
      Poised X86.Instr m 3 [heapBase] 0 ∧ KeepsTypes canvasTable linked.memory m.store.memory ∧
      Ends (X86.Machine.cycle p) (.memory 16) m ∧
      ¬Decides (X86.Machine.cycle p) p canvasTable inkType.id m.store.memory heapBase
        (fun w m' => Poised X86.Instr m' 20 [w] 0)
        (TestFails (X86.Machine.cycle p) true (codeAddress 15) fun w m' => Poised X86.Instr m' 20 [w] 0)
        m := by
  have hcompiles : compilesAt X86.backend canvasTable inkBody
      (X86.backend.emit tiltContext inkCast areaEffect).code 3 = true := by decide +kernel
  obtain ⟨method, p, linked, hcompiled, hlink, hfits, hplaced⟩ := exists_linked_of_compilesAt hcompiles
  have hp := linkedProgram_canvas hcompiled hlink hfits
  obtain ⟨⟨hbrush, hink⟩, hlinked⟩ := canvas_overwrites hlink
  obtain ⟨target, hresolve, htarget⟩ := hp.resolve_type (d := inkType) (by decide)
  obtain rfl : 0x1018 = target := Option.some.inj (hink.symm.trans htarget)
  let m : X86.Machine :=
    X86.Machine.setReg { pc := codeAddress 3, store := circleStore linked 0x1000 } .esp (wordAddress 0)
  have hholds : m.store.memory.Holds [heapBase] := holds_circleStore linked 0x1000
  have hpoised : Poised X86.Instr m 3 [heapBase] 0 := X86.poised_iff.mpr ⟨rfl, rfl, rfl, hholds⟩
  have hobject : m.store.memory.read heapBase 4 = .ok 0x1000 := read_circleStore linked 0x1000
  have htypes : Overwritten m.store.memory := hlinked.congr fun c hc => byte_circleStore linked _ hc
  have hunmapped : ∀ memory : Memory, memory.read (4 + 12) 4 = .error (.memory 16) := fun _ => rfl
  have hends : Ends (X86.Machine.cycle p) (.memory 16) m := by
    have hcode := hplaced
    rw [X86.emit_typeTest inkCast_tests] at hcode
    have hlimit := Nat.le_of_lt hfits
    have hwalks : Walks (X86.Machine.cycle p) m.store.memory 0x1018
        (fun a m' => X86.Testing [] 0 m.store heapBase 7 m' ∧ m'.reg .ecx = a) _ fun _ => True :=
      X86.walks hlimit hcode hresolve rfl hholds.2.2 (by decide) fun _ _ => .here trivial
    refine (X86.test_type hlimit hcode rfl hpoised (by decide) hobject).trans fun m₁ h₁ => ?_
    refine (hwalks.next h₁ (by decide) (by decide) (by decide) htypes.base).trans fun m₂ h₂ => ?_
    exact X86.walk_faults hlimit hcode hresolve rfl h₂.1 h₂.2 (by decide) (by decide) (hunmapped _)
  refine ⟨method, p, linked, m, hp, hplaced, hpoised, keepsTypes_circleStore _ _ _, hends,
    fun hdecides => ?_⟩
  have hfails := hdecides.fails brushType (by decide) 0x1000 hbrush hobject (by decide)
  cases hends.unique (hfails.trans fun _ h => h)

end Wrapping

end Stencil
