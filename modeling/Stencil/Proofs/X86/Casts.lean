import Stencil.Proofs.Casts.Chain
import Stencil.Proofs.X86.Moves
import Stencil.Proofs.X86.Rests
import Stencil.X86.Backend

/-!
# Type tests on x86

The template pops the object, loads its type and follows the bases. What the machine does with one
descriptor is a case of `walks`.
-/

namespace Stencil.X86

open AddressMap Stateful Function

/-! ## The walk -/

/-- The code of a type test up to what it does on failure. -/
def walkBases (ctx : EmitContext) (i : Instruction) (symbol : Symbol) : List Instr :=
  [.popReg .eax,
   .testReg .eax,
   .jcc .e (ctx.inside i "Done" 2),
   .load .ecx (.based .eax (Int32.ofNat ctx.options.layout.typePointer)),
   .label (ctx.inside i "Scan" 0),
   .testReg .ecx,
   .jcc .e (ctx.inside i "Failed" 1),
   .alu .cmp (.reg .ecx) (.addr symbol),
   .jcc .e (ctx.inside i "Done" 2),
   .load .ecx (.based .ecx (Int32.ofNat ctx.options.layout.typeBase)),
   .jump (ctx.inside i "Scan" 0),
   .label (ctx.inside i "Failed" 1)]

def failedTest (isCast : Bool) : List Instr :=
  if isCast then throwHere .throwInvalidCast else [Instr.aluReg .xor .eax .eax]

/-- The machine stands inside the test of an object, with the other words on the stack. -/
structure Testing (words : List UInt32) (fp : UInt32) (store : Store) (object : UInt32) (k : Nat)
    (m : Machine) : Prop where
  pc : m.pc = codeAddress k
  object : m.reg .eax = object
  esp : m.reg .esp = stackPointer words
  ebp : m.reg .ebp = fp
  store : m.store = store

section Walk

variable {ctx : EmitContext} {i : Instruction} {p : Program Instr} {base : Nat} {symbol : Symbol}
  {isCast : Bool} {words : List UInt32} {fp : UInt32} {store : Store} {object target a b : UInt32}
  {m : Machine}

theorem Testing.rests {k : Nat} (h : Testing words fp store object k m) :
    Rests m k m.reg m.flags.zero store := ⟨h.pc, fun _ => rfl, rfl, h.store⟩

theorem Rests.testing {k : Nat} {regs : Reg → UInt32} {zero : Bool} (h : Rests m k regs zero store)
    (hobject : regs .eax = object) (hesp : regs .esp = stackPointer words) (hebp : regs .ebp = fp) :
    Testing words fp store object k m :=
  ⟨h.pc, (h.reg _).trans hobject, (h.reg _).trans hesp, (h.reg _).trans hebp, h.store⟩

variable (hfits : p.code.size ≤ codeLimit)
  (hplaced : Placed p base (walkBases ctx i symbol ++ (failedTest isCast ++
    [Instr.label (ctx.inside i "Done" 2), Instr.pushReg .eax])))

include hplaced

theorem label_done :
    p.labels[ctx.inside i "Done" 2]? = some (base + 12 + (failedTest isCast).length) :=
  hplaced.back.back.labels 0 _ _ rfl rfl

include hfits

theorem test_done (h : Testing words fp store object (base + 12 + (failedTest isCast).length) m)
    (hholds : store.memory.Holds words) (hroom : words.length < stackCapacity) :
    Reaches (Machine.cycle p) m fun m' =>
      Poised Instr m' (base + 12 + (failedTest isCast).length + 2) (object :: words) fp := by
  have hdone := hplaced.back.back
  have hsp : m.reg .esp - 4 = wordAddress words.length := by
    rw [h.esp, stackPointer_sub object, stackPointer_cons]
  refine (h.rests.label hfits (hdone.fetch 0 _ rfl)).reaches fun m₁ h₁ => ?_
  refine (h₁.push hfits (w := object) (hdone.fetch 1 _ rfl) ?_ ?_).reaches fun m₂ h₂ => .here ?_
  · intro m' hreg
    show EStateM.Result.ok (m'.reg .eax) m' = _
    rw [hreg, h.object]
  · rw [hsp]
    exact mapped_wordAddress hroom
  rw [hsp] at h₂
  refine poised_iff.mpr ⟨h₂.pc, ?_, ?_, ?_⟩
  · rw [h₂.reg, update_self, stackPointer_cons]
  · rw [h₂.reg, update_of_ne (by decide), h.ebp]
  · rw [h₂.store, Store.withWord, toNat_wordAddress hroom]
    exact hholds.put_word hroom

theorem test_type (hlayout : ctx.options.layout = {}) (hpoised : Poised Instr m base (object :: words) fp)
    (hne : object ≠ 0) {type : UInt32} (htype : m.store.memory.read object 4 = .ok type) :
    Reaches (Machine.cycle p) m fun m' =>
      Testing words fp m.store object (base + 4) m' ∧ m'.reg .ecx = type := by
  obtain ⟨hpc, hesp, hebp, hholds⟩ := poised_iff.mp hpoised
  have hobject : m.store.memory.read (m.reg .esp) 4 = .ok object := by
    rw [hesp, stackPointer_cons]
    exact hholds.read_top
  have hpopped : m.reg .esp + 4 = stackPointer words := by rw [hesp, stackPointer_cons_add]
  refine ((Rests.of_pc hpc).pop hfits (hplaced.fetch 0 _ rfl) hobject).reaches fun m₁ h₁ => ?_
  refine (h₁.test hfits (hplaced.fetch 1 _ rfl)).reaches fun m₂ h₂ => ?_
  refine (h₂.jcc_passed hfits (hplaced.fetch 2 _ rfl) ?_).reaches fun m₃ h₃ => ?_
  · intro flags hflag
    rw [Flags.holds, hflag, update_self]
    exact beq_false_of_ne hne
  refine (h₃.load hfits type (hplaced.fetch 3 _ rfl) ?_).reaches fun m₄ h₄ => .here ⟨h₄.testing ?_ ?_ ?_, ?_⟩
  · rw [hlayout, update_self]
    rwa [show (Int32.ofNat ({} : ObjectLayout).typePointer).toUInt32 = 0 from rfl, UInt32.zero_add]
  · rw [update_of_ne (by decide), update_self]
  · rw [update_of_ne (by decide), update_of_ne (by decide), update_self, hpopped]
  · rw [update_of_ne (by decide), update_of_ne (by decide), update_of_ne (by decide), hebp]
  · rw [h₄.reg, update_self]

/-- A descriptor is compared with the one that is asked for. -/
theorem walk_compare (hresolve : p.resolve symbol = .ok target)
    (h : Testing words fp store object (base + 4) m) (ha : m.reg .ecx = a) (hne : a ≠ 0)
    {Q : Machine → Prop}
    (hnext : ∀ m', Rests m' (base + 8) m.reg (a == target) store → Reaches (Machine.cycle p) m' Q) :
    Reaches (Machine.cycle p) m Q := by
  refine (h.rests.label hfits (hplaced.fetch 4 _ rfl)).reaches fun m₁ h₁ => ?_
  refine (h₁.test hfits (hplaced.fetch 5 _ rfl)).reaches fun m₂ h₂ => ?_
  refine (h₂.jcc_passed hfits (hplaced.fetch 6 _ rfl) ?_).reaches fun m₃ h₃ => ?_
  · intro flags hflag
    rw [Flags.holds, hflag, ha]
    exact beq_false_of_ne hne
  refine (h₃.cmpAddr hfits (hplaced.fetch 7 _ rfl) hresolve).reaches fun m₄ h₄ => ?_
  rw [ha] at h₄
  exact hnext m₄ h₄

/-- What the template does with a descriptor is what a walk does. -/
theorem walks (hresolve : p.resolve symbol = .ok target) (hlayout : ctx.options.layout = {})
    (hholds : store.memory.Holds words) (hroom : words.length < stackCapacity) {Failed : Machine → Prop}
    (hfailed : ∀ m, Testing words fp store object (base + 12) m → Reaches (Machine.cycle p) m Failed) :
    Walks (Machine.cycle p) store.memory target
      (fun a m => Testing words fp store object (base + 4) m ∧ m.reg .ecx = a)
      (fun m' => Poised Instr m' (base + 12 + (failedTest isCast).length + 2) (object :: words) fp)
      Failed where
  found := by
    rintro m ⟨h, ha⟩ hne
    refine walk_compare hfits hplaced hresolve h ha hne fun m₁ h₁ => ?_
    refine (h₁.jcc_taken hfits (hplaced.fetch 8 _ rfl) ?_ (label_done hplaced)).reaches fun m₂ h₂ => ?_
    · intro flags hflag
      rw [Flags.holds, hflag]
      exact beq_self_eq_true _
    exact test_done hfits hplaced (h₂.testing h.object h.esp h.ebp) hholds hroom
  next := by
    rintro m a b ⟨h, ha⟩ hne hother - hread
    have hscan : p.labels[ctx.inside i "Scan" 0]? = some (base + 4) := hplaced.labels 4 _ _ rfl rfl
    refine walk_compare hfits hplaced hresolve h ha hne fun m₁ h₁ => ?_
    refine (h₁.jcc_passed hfits (hplaced.fetch 8 _ rfl) ?_).reaches fun m₂ h₂ => ?_
    · intro flags hflag
      rw [Flags.holds, hflag]
      exact beq_false_of_ne hother
    refine (h₂.load hfits b (hplaced.fetch 9 _ rfl) ?_).reaches fun m₃ h₃ => ?_
    · rw [hlayout, ha]
      rwa [show (Int32.ofNat ({} : ObjectLayout).typeBase).toUInt32 = 12 from rfl, UInt32.add_comm]
    refine (h₃.jump hfits (hplaced.fetch 10 _ rfl) hscan).reaches fun m₄ h₄ => .here ⟨h₄.testing ?_ ?_ ?_, ?_⟩
    · rw [update_of_ne (by decide), h.object]
    · rw [update_of_ne (by decide), h.esp]
    · rw [update_of_ne (by decide), h.ebp]
    · rw [h₄.reg, update_self]
  missing := by
    rintro m ⟨h, ha⟩
    have hlabel : p.labels[ctx.inside i "Failed" 1]? = some (base + 11) :=
      hplaced.labels 11 _ _ rfl rfl
    refine (h.rests.label hfits (hplaced.fetch 4 _ rfl)).reaches fun m₁ h₁ => ?_
    refine (h₁.test hfits (hplaced.fetch 5 _ rfl)).reaches fun m₂ h₂ => ?_
    refine (h₂.jcc_taken hfits (hplaced.fetch 6 _ rfl) ?_ hlabel).reaches fun m₃ h₃ => ?_
    · intro flags hflag
      rw [Flags.holds, hflag, ha]
      rfl
    refine (h₃.label hfits (hplaced.fetch 11 _ rfl)).reaches fun m₄ h₄ => ?_
    exact hfailed m₄ (h₄.testing h.object h.esp h.ebp)

/-- The walk stops where the base of a descriptor cannot be read. -/
theorem walk_faults (hresolve : p.resolve symbol = .ok target) (hlayout : ctx.options.layout = {})
    (h : Testing words fp store object (base + 4) m) (ha : m.reg .ecx = a) (hne : a ≠ 0)
    (hother : a ≠ target) {fault : Fault} (hfault : store.memory.read (a + 12) 4 = .error fault) :
    Ends (Machine.cycle p) fault m := by
  refine walk_compare hfits hplaced hresolve h ha hne fun m₁ h₁ => ?_
  refine (h₁.jcc_passed hfits (hplaced.fetch 8 _ rfl) ?_).reaches fun m₂ h₂ => ?_
  · intro flags hflag
    rw [Flags.holds, hflag]
    exact beq_false_of_ne hother
  refine h₂.load_faults hfits (hplaced.fetch 9 _ rfl) ?_
  rw [hlayout, ha]
  rwa [show (Int32.ofNat ({} : ObjectLayout).typeBase).toUInt32 = 12 from rfl, UInt32.add_comm]

/-- A test that failed leaves null, or raises an exception. -/
theorem test_failed (hwf : p.WellFormed) (h : Testing words fp store object (base + 12) m)
    (hholds : store.memory.Holds words) (hroom : words.length < stackCapacity) :
    Reaches (Machine.cycle p) m (TestFails (Machine.cycle p) isCast (codeAddress (base + 12)) fun w m' =>
      Poised Instr m' (base + 12 + (failedTest isCast).length + 2) (w :: words) fp) := by
  have hback := hplaced.back.front
  cases isCast with
  | true =>
    refine .here (h.rests.throws hfits hwf hback ?_ Program.runIntrinsic_throwInvalidCast)
    rw [h.esp, stackPointer_sub object, stackPointer_cons]
    exact mapped_wordAddress hroom
  | false =>
    refine (h.rests.clear hfits (hback.fetch 0 _ rfl)).reaches fun m₁ h₁ => ?_
    obtain ⟨zero, h₁⟩ := h₁
    refine test_done hfits hplaced (h₁.testing (update_self ..) ?_ ?_) hholds hroom
    · rw [update_of_ne (by decide), h.esp]
    · rw [update_of_ne (by decide), h.ebp]

end Walk

/-! ## The template -/

section Template

variable {ctx : EmitContext} {i : Instruction} {e : Effect} {isCast : Bool} {u : TypeDescriptor}

theorem emit_typeTest (htest : TestsType ctx i isCast u) :
    (backend.emit ctx i e).code = walkBases ctx i u.symbol ++
      (failedTest isCast ++ [Instr.label (ctx.inside i "Done" 2), Instr.pushReg .eax]) := by
  have hemit : backend.emit ctx i e = .ofExcept (typeTest ctx i isCast) := by
    have hop := htest.operation
    show emit ctx i e = _
    unfold emit
    cases isCast <;> rw [hop] <;> rfl
  rw [hemit, typeTest, htest.resolved, ← List.append_assoc]
  rfl

/-- The template of a type test decides subtyping. -/
theorem decides_typeTest {tables : Table} {options : Options} {methods : List (CompiledMethod Instr)}
    {p : Program Instr} {linked : Store} (hp : LinkedProgram backend tables options methods p linked)
    (hstatics : StaticsFit tables options.pointerSize)
    (hoptions : ctx.options = options) (htables : ctx.tables = tables)
    (htest : TestsType ctx i isCast u) {base : Nat}
    (hplaced : Placed p base (backend.emit ctx i e).code) {object fp : UInt32} {words : List UInt32}
    {m : Machine} (hpoised : Poised Instr m base (object :: words) fp)
    (hkeeps : KeepsTypes tables linked.memory m.store.memory) :
    let Leaves := fun w m' =>
      Poised Instr m' (base + (backend.emit ctx i e).code.length) (w :: words) fp
    Decides (Machine.cycle p) p tables u.id m.store.memory object Leaves
      (TestFails (Machine.cycle p) isCast (codeAddress (base + 12)) Leaves) m := by
  have hu : u ∈ tables.types := htables ▸ htest.mem_types
  obtain ⟨target, hresolve, htarget⟩ := hp.resolve_type hu
  have hlayout : ctx.options.layout = {} := by rw [hoptions]; exact hp.layout
  have hfits := hp.wellFormed.fits
  obtain ⟨hpc, hesp, hebp, hholds⟩ := poised_iff.mp hpoised
  have hroom : words.length < stackCapacity := hholds.1
  have hobject : m.store.memory.read (m.reg .esp) 4 = .ok object := by
    rw [hesp, stackPointer_cons]
    exact hholds.read_top
  have hpopped : m.reg .esp + 4 = stackPointer words := by rw [hesp, stackPointer_cons_add]
  rw [emit_typeTest htest] at hplaced ⊢
  have hend : base + (walkBases ctx i u.symbol ++ (failedTest isCast ++
      [Instr.label (ctx.inside i "Done" 2), Instr.pushReg .eax])).length =
        base + 12 + (failedTest isCast).length + 2 := by
    simp only [List.length_append, walkBases, List.length_cons, List.length_nil]
    omega
  rw [hend]
  refine hp.decides hstatics hu htarget hkeeps (fun hnull => ?_) (fun type hne htype => ?_)
    (walks hfits hplaced hresolve hlayout hholds.2.2 hroom fun m' hm' =>
      test_failed hfits hplaced hp.wellFormed hm' hholds.2.2 hroom)
  · refine ((Rests.of_pc hpc).pop hfits (hplaced.fetch 0 _ rfl) hobject).reaches fun m₁ h₁ => ?_
    refine (h₁.test hfits (hplaced.fetch 1 _ rfl)).reaches fun m₂ h₂ => ?_
    refine (h₂.jcc_taken hfits (hplaced.fetch 2 _ rfl) ?_ (label_done hplaced)).reaches fun m₃ h₃ => ?_
    · intro flags hflag
      rw [Flags.holds, hflag, update_self, hnull]
      rfl
    refine test_done hfits hplaced (h₃.testing ?_ ?_ ?_) hholds.2.2 hroom
    · rw [update_self, hnull]
    · rw [update_of_ne (by decide), update_self, hpopped]
    · rw [update_of_ne (by decide), update_of_ne (by decide), hebp]
  · exact test_type hfits hplaced hlayout hpoised hne htype

end Template

end Stencil.X86
