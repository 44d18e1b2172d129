import Stencil.Proofs.Casts.Chain
import Stencil.Proofs.Mips.Moves
import Stencil.Proofs.Mips.Rests
import Stencil.Mips.Backend

/-!
# Type tests on MIPS32

The template pops the object, loads its type and follows the bases, with the descriptor that is asked
for in `$t5`. What the machine does with one descriptor is a case of `walks`.
-/

namespace Stencil.Mips

open AddressMap Stateful Function

/-! ## The walk -/

/-- The code of a type test up to what it does on failure. -/
def walkBases (ctx : EmitContext) (i : Instruction) (symbol : Symbol) : List Instr :=
  Instr.pop .t0 ++
  [.branch true .t0 .zero (ctx.inside i "Done" 2), .nop,
   .lw .t4 (Int32.ofNat ctx.options.layout.typePointer) .t0,
   .la .t5 symbol,
   .label (ctx.inside i "Scan" 0),
   .branch true .t4 .zero (ctx.inside i "Failed" 1), .nop,
   .branch true .t4 .t5 (ctx.inside i "Done" 2), .nop,
   .lw .t4 (Int32.ofNat ctx.options.layout.typeBase) .t4,
   .j (ctx.inside i "Scan" 0), .nop,
   .label (ctx.inside i "Failed" 1)]

def failedTest (isCast : Bool) : List Instr :=
  if isCast then throwHere .throwInvalidCast else [Instr.move .t0 .zero]

/-- The machine stands inside the test of an object, with the other words on the stack. -/
structure Testing (words : List UInt32) (fp : UInt32) (store : Store) (object : UInt32) (k : Nat)
    (m : Machine) : Prop where
  pc : m.pc = codeAddress k
  npc : m.npc = codeAddress (k + 1)
  zero : m.reg .zero = 0
  object : m.reg .t0 = object
  sp : m.reg .sp = stackPointer words
  fp : m.reg .fp = fp
  store : m.store = store

section Walk

variable {ctx : EmitContext} {i : Instruction} {p : Program Instr} {base : Nat} {symbol : Symbol}
  {isCast : Bool} {words : List UInt32} {fp : UInt32} {store : Store} {object target a b : UInt32}
  {m : Machine}

theorem Testing.rests {k : Nat} (h : Testing words fp store object k m) : Rests m k m.reg store :=
  ⟨h.pc, h.npc, fun _ => rfl, h.store⟩

theorem Rests.testing {k : Nat} {regs : Reg → UInt32} (h : Rests m k regs store)
    (hzero : regs .zero = 0) (hobject : regs .t0 = object) (hsp : regs .sp = stackPointer words)
    (hfp : regs .fp = fp) : Testing words fp store object k m :=
  ⟨h.pc, h.npc, (h.reg _).trans hzero, (h.reg _).trans hobject, (h.reg _).trans hsp,
    (h.reg _).trans hfp, h.store⟩

variable (hfits : p.code.size ≤ codeLimit)
  (hplaced : Placed p base (walkBases ctx i symbol ++ (failedTest isCast ++
    ([Instr.label (ctx.inside i "Done" 2)] ++ Instr.push .t0))))

include hplaced

theorem label_done :
    p.labels[ctx.inside i "Done" 2]? = some (base + 15 + (failedTest isCast).length) :=
  hplaced.back.back.labels 0 _ _ rfl rfl

include hfits

theorem test_done (h : Testing words fp store object (base + 15 + (failedTest isCast).length) m)
    (hholds : store.memory.Holds words) (hroom : words.length < stackCapacity) :
    Reaches (Machine.cycle p) m fun m' =>
      Poised Instr m' (base + 15 + (failedTest isCast).length + 3) (object :: words) fp := by
  have hdone := hplaced.back.back
  have hsp : m.reg .sp - 4 = wordAddress words.length := by
    rw [h.sp, stackPointer_sub object, stackPointer_cons]
  refine (h.rests.label hfits (hdone.fetch 0 _ rfl)).reaches fun m₁ h₁ => ?_
  refine h₁.push hfits hdone.back (by decide) ?_ ?_ fun m₂ h₂ => .here ?_
  · rw [h.sp]
    exact stackPointer_mod_four (Nat.le_of_lt hroom)
  · rw [hsp]
    exact mapped_wordAddress hroom
  rw [hsp, h.object] at h₂
  refine poised_iff.mpr ⟨h₂.pc, h₂.npc, ?_, ?_, ?_, ?_⟩
  · rw [h₂.reg, update_of_ne (by decide), h.zero]
  · rw [h₂.reg, update_self, stackPointer_cons]
  · rw [h₂.reg, update_of_ne (by decide), h.fp]
  · rw [h₂.store, Store.withWord, toNat_wordAddress hroom]
    exact hholds.put_word hroom

/-- What the template does with a descriptor is what a walk does. -/
theorem walks (hlayout : ctx.options.layout = {}) (hholds : store.memory.Holds words)
    (hroom : words.length < stackCapacity) {Failed : Machine → Prop}
    (hfailed : ∀ m, Testing words fp store object (base + 15) m → Reaches (Machine.cycle p) m Failed) :
    Walks (Machine.cycle p) store.memory target
      (fun a m => Testing words fp store object (base + 6) m ∧ m.reg .t4 = a ∧ m.reg .t5 = target)
      (fun m' => Poised Instr m' (base + 15 + (failedTest isCast).length + 3) (object :: words) fp)
      Failed where
  found := by
    rintro m ⟨h, ha, htarget⟩ hne
    refine (h.rests.label hfits (hplaced.fetch 6 _ rfl)).reaches fun m₁ h₁ => ?_
    refine h₁.branch_passed hfits (hplaced.fetch 7 _ rfl) (hplaced.fetch 8 _ rfl) ?_ fun m₂ h₂ => ?_
    · rw [ha, h.zero]
      exact beq_false_of_ne hne
    refine h₂.branch_taken hfits (hplaced.fetch 9 _ rfl) (hplaced.fetch 10 _ rfl) ?_
      (label_done hplaced) fun m₃ h₃ => ?_
    · rw [ha, htarget]
      exact beq_self_eq_true _
    exact test_done hfits hplaced (h₃.testing h.zero h.object h.sp h.fp) hholds hroom
  next := by
    rintro m a b ⟨h, ha, htarget⟩ hne hother haligned hread
    have hscan : p.labels[ctx.inside i "Scan" 0]? = some (base + 6) := hplaced.labels 6 _ _ rfl rfl
    refine (h.rests.label hfits (hplaced.fetch 6 _ rfl)).reaches fun m₁ h₁ => ?_
    refine h₁.branch_passed hfits (hplaced.fetch 7 _ rfl) (hplaced.fetch 8 _ rfl) ?_ fun m₂ h₂ => ?_
    · rw [ha, h.zero]
      exact beq_false_of_ne hne
    refine h₂.branch_passed hfits (hplaced.fetch 9 _ rfl) (hplaced.fetch 10 _ rfl) ?_ fun m₃ h₃ => ?_
    · rw [ha, htarget]
      exact beq_false_of_ne hother
    refine (h₃.lw hfits b (hplaced.fetch 11 _ rfl) (by decide) ?_ (aligned_add haligned (by decide)) hread).reaches
      fun m₄ h₄ => ?_
    · rw [hlayout, ha]
      rfl
    refine h₄.jump hfits (hplaced.fetch 12 _ rfl) (hplaced.fetch 13 _ rfl) hscan
      fun m₅ h₅ => .here ⟨h₅.testing ?_ ?_ ?_ ?_, ?_, ?_⟩
    · rw [update_of_ne (by decide), h.zero]
    · rw [update_of_ne (by decide), h.object]
    · rw [update_of_ne (by decide), h.sp]
    · rw [update_of_ne (by decide), h.fp]
    · rw [h₅.reg, update_self]
    · rw [h₅.reg, update_of_ne (by decide), htarget]
  missing := by
    rintro m ⟨h, ha, -⟩
    have hlabel : p.labels[ctx.inside i "Failed" 1]? = some (base + 14) :=
      hplaced.labels 14 _ _ rfl rfl
    refine (h.rests.label hfits (hplaced.fetch 6 _ rfl)).reaches fun m₁ h₁ => ?_
    refine h₁.branch_taken hfits (hplaced.fetch 7 _ rfl) (hplaced.fetch 8 _ rfl) ?_ hlabel
      fun m₂ h₂ => ?_
    · rw [ha, h.zero]
      rfl
    refine (h₂.label hfits (hplaced.fetch 14 _ rfl)).reaches fun m₃ h₃ => ?_
    exact hfailed m₃ (h₃.testing h.zero h.object h.sp h.fp)

/-- A test that failed leaves null, or raises an exception. -/
theorem test_failed (hwf : p.WellFormed) (h : Testing words fp store object (base + 15) m)
    (hholds : store.memory.Holds words) (hroom : words.length < stackCapacity) :
    Reaches (Machine.cycle p) m (TestFails (Machine.cycle p) isCast (codeAddress (base + 15)) fun w m' =>
      Poised Instr m' (base + 15 + (failedTest isCast).length + 3) (w :: words) fp) := by
  have hback := hplaced.back.front
  cases isCast with
  | true =>
    refine .here (h.rests.throws hfits hwf hback ?_ ?_ Program.runIntrinsic_throwInvalidCast)
    · rw [h.sp]
      exact stackPointer_mod_four (Nat.le_of_lt hroom)
    · rw [h.sp, stackPointer_sub object, stackPointer_cons]
      exact mapped_wordAddress hroom
  | false =>
    refine (h.rests.move hfits (hback.fetch 0 _ rfl) (by decide)).reaches fun m₁ h₁ => ?_
    refine test_done hfits hplaced (h₁.testing ?_ ?_ ?_ ?_) hholds hroom
    · rw [update_of_ne (by decide), h.zero]
    · rw [update_self, h.zero]
    · rw [update_of_ne (by decide), h.sp]
    · rw [update_of_ne (by decide), h.fp]

end Walk

/-! ## The template -/

section Template

variable {ctx : EmitContext} {i : Instruction} {e : Effect} {isCast : Bool} {u : TypeDescriptor}

theorem emit_typeTest (htest : TestsType ctx i isCast u) :
    (backend.emit ctx i e).code = walkBases ctx i u.symbol ++
      (failedTest isCast ++ ([Instr.label (ctx.inside i "Done" 2)] ++ Instr.push .t0)) := by
  have hemit : backend.emit ctx i e = .ofExcept (typeTest ctx i isCast) := by
    have hop := htest.operation
    show emit ctx i e = _
    unfold emit
    cases isCast <;> rw [hop] <;> rfl
  rw [hemit, typeTest, htest.resolved, ← List.append_assoc, ← List.append_assoc]
  rfl

/-- The template of a type test decides subtyping. -/
theorem decides_typeTest {tables : Table} {options : Options} {methods : List (CompiledMethod Instr)}
    {p : Program Instr} {linked : Store} (hp : LinkedProgram backend tables options methods p linked)
    (hstatics : StaticsFit tables options.pointerSize)
    (hoptions : ctx.options = options) (htables : ctx.tables = tables)
    (htest : TestsType ctx i isCast u) {base : Nat}
    (hplaced : Placed p base (backend.emit ctx i e).code) {object fp : UInt32} {words : List UInt32}
    {m : Machine} (hpoised : Poised Instr m base (object :: words) fp)
    (hobjectAligned : object.toNat % 4 = 0) (hkeeps : KeepsTypes tables linked.memory m.store.memory) :
    let Leaves := fun w m' =>
      Poised Instr m' (base + (backend.emit ctx i e).code.length) (w :: words) fp
    Decides (Machine.cycle p) p tables u.id m.store.memory object Leaves
      (TestFails (Machine.cycle p) isCast (codeAddress (base + 15)) Leaves) m := by
  have hu : u ∈ tables.types := htables ▸ htest.mem_types
  obtain ⟨target, hresolve, htarget⟩ := hp.resolve_type hu
  have hlayout : ctx.options.layout = {} := by rw [hoptions]; exact hp.layout
  have hfits := hp.wellFormed.fits
  obtain ⟨hpc, hnpc, hzero, hsp, hfp, hholds⟩ := poised_iff.mp hpoised
  have hroom : words.length < stackCapacity := hholds.1
  have hobject : m.store.memory.read (m.reg .sp) 4 = .ok object := by
    rw [hsp, stackPointer_cons]
    exact hholds.read_top
  have haligned : (m.reg .sp).toNat % 4 = 0 := by
    rw [hsp, stackPointer_cons]
    exact wordAddress_mod_four hroom
  have hpopped : m.reg .sp + 4 = stackPointer words := by rw [hsp, stackPointer_cons_add]
  have hrests : Rests m base m.reg m.store := ⟨hpc, hnpc, fun _ => rfl, rfl⟩
  rw [emit_typeTest htest] at hplaced ⊢
  have hend : base + (walkBases ctx i u.symbol ++ (failedTest isCast ++
      ([Instr.label (ctx.inside i "Done" 2)] ++ Instr.push .t0))).length =
        base + 15 + (failedTest isCast).length + 3 := by
    simp only [List.length_append, walkBases, Instr.pop, Instr.push, List.length_cons, List.length_nil]
    omega
  rw [hend]
  refine hp.decides hstatics hu htarget hkeeps (fun hnull => ?_) (fun type hne htype => ?_)
    (walks hfits hplaced hlayout hholds.2.2 hroom fun m' hm' =>
      test_failed hfits hplaced hp.wellFormed hm' hholds.2.2 hroom)
  · refine hrests.pop hfits hplaced.front.front (by decide) (by decide) haligned hobject
      fun m₁ h₁ => ?_
    refine h₁.branch_taken hfits (hplaced.fetch 2 _ rfl) (hplaced.fetch 3 _ rfl) ?_ (label_done hplaced)
      fun m₂ h₂ => ?_
    · rw [update_of_ne (by decide), update_self, update_of_ne (by decide), update_of_ne (by decide),
        hzero, hnull]
      rfl
    refine test_done hfits hplaced (h₂.testing ?_ ?_ ?_ ?_) hholds.2.2 hroom
    · rw [update_of_ne (by decide), update_of_ne (by decide), hzero]
    · rw [update_of_ne (by decide), update_self, hnull]
    · rw [update_self, hpopped]
    · rw [update_of_ne (by decide), update_of_ne (by decide), hfp]
  · refine hrests.pop hfits hplaced.front.front (by decide) (by decide) haligned hobject
      fun m₁ h₁ => ?_
    refine h₁.branch_passed hfits (hplaced.fetch 2 _ rfl) (hplaced.fetch 3 _ rfl) ?_ fun m₂ h₂ => ?_
    · rw [update_of_ne (by decide), update_self, update_of_ne (by decide), update_of_ne (by decide),
        hzero]
      exact beq_false_of_ne hne
    refine (h₂.lw hfits type (hplaced.fetch 4 _ rfl) (by decide) ?_ hobjectAligned htype).reaches fun m₃ h₃ => ?_
    · rw [hlayout, update_of_ne (by decide), update_self]
      exact add_zero_offset object
    refine (h₃.la hfits (hplaced.fetch 5 _ rfl) (by decide) hresolve).reaches
      fun m₄ h₄ => .here ⟨h₄.testing ?_ ?_ ?_ ?_, ?_, ?_⟩
    · rw [update_of_ne (by decide), update_of_ne (by decide), update_of_ne (by decide),
        update_of_ne (by decide), hzero]
    · rw [update_of_ne (by decide), update_of_ne (by decide), update_of_ne (by decide), update_self]
    · rw [update_of_ne (by decide), update_of_ne (by decide), update_self, hpopped]
    · rw [update_of_ne (by decide), update_of_ne (by decide), update_of_ne (by decide),
        update_of_ne (by decide), hfp]
    · rw [h₄.reg, update_of_ne (by decide), update_self]
    · rw [h₄.reg, update_self]

end Template

end Stencil.Mips
