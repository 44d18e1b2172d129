import Mathlib.Logic.Relation
import Stencil.Proofs.Errors.Lookups
import Stencil.Proofs.Objects.Allocation
import Stencil.Proofs.Ways.Basic

/-!
# Objects that are created

A constructor is called on an object that was allocated and on the arguments that were pushed before. They
move down two words, since the object is passed and stays on the stack too. `DeliversObjects` says so, and
that the constructor does not run on an allocation that failed.
-/

namespace Stencil

open AddressMap Stateful

/-! ## Runs that stay outside -/

section Avoids

variable {M : Type}

/-- The machine gets to one as asked, and none before it is `inside`. -/
inductive Avoids (cycle : EStateM Fault M Unit) (inside Q : M → Prop) : M → Prop
  | here {m : M} (h : Q m) : Avoids cycle inside Q m
  | step {m t : M} (hout : ¬inside m) (hcycle : cycle m = .ok () t) (hrest : Avoids cycle inside Q t) :
      Avoids cycle inside Q m

/-- The run ends in the fault, and no machine on it is `inside`. -/
def EndsOutside (cycle : EStateM Fault M Unit) (inside : M → Prop) (fault : Fault) (m : M) : Prop :=
  Avoids cycle inside (fun m' => ¬inside m' ∧ ∃ t, cycle m' = .error fault t) m

variable {cycle : EStateM Fault M Unit} {inside P Q : M → Prop} {fault : Fault} {m : M}

theorem Avoids.reaches (h : Avoids cycle inside Q m) : Reaches cycle m Q := by
  induction h with
  | here hQ => exact .here hQ
  | step _ hcycle _ ih => exact .step hcycle ih

theorem Avoids.trans (h : Avoids cycle inside P m) (h' : ∀ t, P t → Avoids cycle inside Q t) :
    Avoids cycle inside Q m := by
  induction h with
  | here hP => exact h' _ hP
  | step hout hcycle _ ih => exact .step hout hcycle ih

/-- Steps that stay outside lead up to such a run. -/
theorem Avoids.of_path {step : M → M → Prop} {t : M} (hpath : Relation.ReflTransGen step m t)
    (hstep : ∀ {a b}, step a b → ¬inside a ∧ cycle a = .ok () b) (h : Avoids cycle inside Q t) :
    Avoids cycle inside Q m := by
  induction hpath using Relation.ReflTransGen.head_induction_on with
  | refl => exact h
  | head hfirst _ ih =>
    obtain ⟨hout, hcycle⟩ := hstep hfirst
    exact .step hout hcycle ih

/-- None of the machines in front of the one that was asked for is inside. -/
theorem Avoids.never_before (h : Avoids cycle inside Q m) :
    ∃ n m', Cycles cycle n m m' ∧ Q m' ∧ ∀ j < n, ∀ u, Cycles cycle j m u → ¬inside u := by
  induction h with
  | here hQ => exact ⟨0, _, .zero, hQ, fun j hj => absurd hj (Nat.not_lt_zero j)⟩
  | step hout hcycle _ ih =>
    obtain ⟨n, m', hcycles, hQ, hbefore⟩ := ih
    refine ⟨n + 1, m', .succ hcycle hcycles, hQ, fun j hj u hu => ?_⟩
    cases hu with
    | zero => exact hout
    | succ hcycle' hrest =>
      cases hcycle.symm.trans hcycle'
      exact hbefore _ (Nat.lt_of_succ_lt_succ hj) u hrest

/-- Whatever such a run reaches is outside. -/
theorem EndsOutside.never (h : EndsOutside cycle inside fault m) {n : Nat} {m' : M}
    (hcycles : Cycles cycle n m m') : ¬inside m' := by
  unfold EndsOutside at h
  induction h generalizing n with
  | here hends =>
    obtain ⟨hout, t, hfault⟩ := hends
    cases hcycles with
    | zero => exact hout
    | succ hcycle => cases hfault.symm.trans hcycle
  | step hout hcycle _ ih =>
    cases hcycles with
    | zero => exact hout
    | succ hcycle' hrest =>
      cases hcycle.symm.trans hcycle'
      exact ih hrest

theorem EndsOutside.ends (h : EndsOutside cycle inside fault m) : Ends cycle fault m := by
  obtain ⟨n, m', hcycles, -, hfault⟩ := h.reaches
  exact ⟨n, m', hcycles, hfault⟩

theorem Avoids.instr {I R : Type} [Storing M] [Runner I R M] {p : Program I} {instr : I}
    {s s' : Snapshot R} {k : Nat} (hsteps : StepsWithin p Set.univ instr s s')
    (hinstr : p.code[k]? = some instr) (hat : Runner.At I m k) (hm : snap I m = s) (hout : ¬inside m)
    (hnext : ∀ m', Runner.At I m' (k + 1) → snap I m' = s' → Avoids (Runner.cycle p) inside Q m') :
    Avoids (Runner.cycle p) inside Q m := by
  obtain ⟨m', hacts, hat', hm'⟩ := hsteps k m hinstr hat hm
  exact .step hout hacts.ok (hnext m' hat' hm')

end Avoids

/-- A fragment that differs from the code at an index does not lie there. -/
theorem Placed.apart {I : Type} [TargetInstr I] {p : Program I} {base base' k j : Nat} {code code' : List I}
    {x y : I} (h : Placed p base code) (h' : Placed p base' code') (hx : code[k + j]? = some x)
    (hy : code'[j]? = some y) (hne : x ≠ y) : base + k ≠ base' := by
  rintro rfl
  have hat := h.fetch (k + j) x hx
  rw [← Nat.add_assoc] at hat
  exact hne (Option.some.inj (hat.symm.trans (h'.fetch j y hy)))

/-! ## Allocation above a stack -/

/-- The heap and a header at its end lie below so many words of the stack. -/
def HeapBelow {I : Type} (p : Program I) (s : Store) (count : Nat) : Prop :=
  s.heapEnd.toNat + p.layout.typePointer + 4 + 4 * count ≤ stackTop.toNat

/-- The allocator leaves the object in its return slot, and the words above it as they are. -/
theorem runIntrinsic_newObject_holds {I : Type} {p : Program I} {descriptor object : UInt32}
    {s s' : Store} {words : List UInt32} {memory : Memory} (h : p.newObject descriptor s = .ok object s')
    (hbelow : HeapBelow p s (words.length + 1)) (hroom : words.length + 1 < stackCapacity)
    (hholds : memory.Holds (descriptor :: words)) :
    ∃ t, (∀ site, p.runIntrinsic .newObject (wordAddress (words.length + 1)) site (s.withMemory memory) =
      .ok none t) ∧ t.memory.Holds (object :: descriptor :: words) := by
  have hstays : StaysBelow (stackTop.toNat - 4 * (words.length + 1)) (p.newObject descriptor) s :=
    p.staysBelow_newObject (by unfold HeapBelow at hbelow; omega)
  obtain ⟨memory', hobject, hbytes⟩ := hstays.answers h memory
  have hholds' : memory'.Holds (descriptor :: words) :=
    hholds.congr fun c hc => hbytes c (by rw [List.length_cons] at hc; omega)
  have hslot : wordAddress (words.length + 1) + 4 = wordAddress words.length :=
    stackPointer_cons_add 0 (descriptor :: words)
  have hread : (s.withMemory memory).memory.read (wordAddress (words.length + 1) + 4) 4 =
      .ok descriptor := by
    rw [hslot]
    exact hholds.read_top
  refine ⟨_, fun site => p.runIntrinsic_newObject hread hobject (mapped_wordAddress hroom), ?_⟩
  rw [Store.withWord, toNat_wordAddress hroom]
  exact hholds'.put_word hroom

/-! ## Arguments that move down -/

/-- A loop that was unrolled upwards, with an invariant of views. -/
theorem Exec.countUp {I R M : Type} [TargetInstr I] [LabelUse I] [Semantics I R M] (f : Nat → List I)
    (Inv : Nat → View R → Prop) {n : Nat} {v : View R}
    (hstep : ∀ k < n, ∀ v, Inv k v → ∃ v', Exec (f k) v .next v' ∧ Inv (k + 1) v') (h : Inv 0 v) :
    ∃ v', Exec ((List.range n).flatMap f) v .next v' ∧ Inv n v' := by
  induction n with
  | zero => exact ⟨v, .nil, h⟩
  | succ n ih =>
    obtain ⟨t, hfirst, ht⟩ := ih fun k hk => hstep k (by omega)
    obtain ⟨v', hlast, hv'⟩ := hstep n (by omega) t ht
    refine ⟨v', ?_, hv'⟩
    rw [List.range_succ, List.flatMap_append, List.flatMap_singleton]
    exact hfirst.append hlast

/-- The stack while the arguments move down over two words: the first `k` words are in their new place. -/
def lowering (slots args deep : List UInt32) (k : Nat) : List UInt32 :=
  args.take k ++ ((slots ++ args).drop k ++ deep)

section Lowering

variable {slots args : List UInt32} (deep : List UInt32)

theorem lowering_zero : lowering slots args deep 0 = slots ++ (args ++ deep) := by
  rw [lowering, List.take_zero, List.drop_zero, List.nil_append, List.append_assoc]

theorem lowering_read (hslots : slots.length = 2) {k : Nat} (hk : k < args.length) :
    ∃ front tail, lowering slots args deep k = front ++ args[k] :: tail ∧ front.length = k + 2 := by
  have hdrop : (slots ++ args).drop (k + 2) = args.drop k := by
    rw [Nat.add_comm, ← hslots, List.drop_length_add_append]
  refine ⟨args.take k ++ ((slots ++ args).drop k).take 2, args.drop (k + 1) ++ deep, ?_, ?_⟩
  · rw [lowering, List.append_assoc, ← List.cons_append, ← List.drop_eq_getElem_cons hk, ← hdrop,
      ← List.append_assoc (((slots ++ args).drop k).take 2), ← List.drop_drop, List.take_append_drop]
  · rw [List.length_append, List.length_take_of_le hk.le, List.length_take_of_le]
    rw [List.length_drop, List.length_append]
    omega

theorem lowering_write (hslots : slots.length = 2) {k : Nat} (hk : k < args.length) :
    ∃ old tail, lowering slots args deep k = args.take k ++ old :: tail ∧
      lowering slots args deep (k + 1) = args.take k ++ args[k] :: tail := by
  have hlt : k < (slots ++ args).length := by
    rw [List.length_append]
    omega
  refine ⟨(slots ++ args)[k], (slots ++ args).drop (k + 1) ++ deep, ?_, ?_⟩
  · rw [lowering, List.drop_eq_getElem_cons hlt, List.cons_append]
  · rw [lowering, List.take_succ_eq_append_getElem hk, List.append_assoc, List.singleton_append]

theorem lowering_length (hslots : slots.length = 2) :
    ∃ x y, lowering slots args deep args.length = args ++ x :: y :: deep := by
  obtain ⟨x, y, hxy⟩ : ∃ x y, (slots ++ args).drop args.length = [x, y] := by
    refine List.length_eq_two.mp ?_
    rw [List.length_drop, List.length_append]
    omega
  exact ⟨x, y, by rw [lowering, List.take_length, hxy]; rfl⟩

end Lowering

/-! ## The calling convention of constructors -/

/-- A constructor of a class, with an instruction that creates an object by it and a return of it that the
simulation has accepted. -/
structure SimulatedConstructor (env : SimEnv) (caller ctor : EmitContext) (create ret : Instruction)
    (t : TypeDescriptor) (e' : Effect) : Prop extends SimulatedMethod env caller ctor ret e' where
  creates : create.op.operation = .newObject
  resolved : env.tables.resolveMethod create = .ok ctor.method
  declaring : env.tables.typeFor create ctor.method.declaringType = .ok t
  isClass : t.isValueType = false
  notDelegate : t.isDelegate = false
  onReceiver : ctor.method.isStatic = false
  noResult : ctor.method.returnType = none

section Delivers

variable {I R M : Type} [TargetInstr I] [LabelUse I] [Semantics I R M]

/-- What the creation of an object does. If the allocation answers with an object, the constructor runs on
it and on the arguments that were pushed, and the object takes their place. If it answers null, the run ends
as one that is out of memory, without getting to the constructor. -/
def DeliversObjects (backend : Backend I) (store : M → Store) (pc : M → UInt32) (caller ctor : EmitContext)
    (create ret : Instruction) (t : TypeDescriptor) (e' : Effect) : Prop :=
  ∀ {e : Effect}, (backend.emit caller create e).failure = none →
  ∀ {p : Program I} {site entry exit stop : Nat} {descriptor : UInt32}, p.WellFormed →
    Placed p site (backend.emit caller create e).code →
    CalleePlaces backend p ctor ret e' entry exit stop → p.resolve t.symbol = .ok descriptor →
  ∀ {args : List (List UInt32)} {deep : List UInt32} {fp object : UInt32} {m : M} {s : Store},
    Poised I m site (pushedWords args ++ deep) fp → p.newObject descriptor (store m) = .ok object s →
    Fill (ctor.frame.args.map FrameSlot.item) ([object] :: args) →
    HeapBelow p (store m) ((pushedWords args ++ deep).length + 1) →
    ctor.frame.localSpan / 4 + ((pushedWords args ++ deep).length + 4) ≤ stackCapacity →
    (object ≠ 0 → CallRuns backend p ctor entry exit (site + (backend.emit caller create e).code.length)
      ([object] :: args) (object :: deep) (object :: deep) fp m) ∧
    (object = 0 → Ends (Semantics.cycle p) (.halt HaltReason.outOfMemory.code) m ∧
      ∀ {n : Nat} {m' : M}, Cycles (Semantics.cycle p) n m m' → pc m' ≠ codeAddress entry)

end Delivers

section Constructor

variable {env : SimEnv} {caller ctor : EmitContext} {create ret : Instruction} {t : TypeDescriptor}
  {e' : Effect} (h : SimulatedConstructor env caller ctor create ret t e')

include h

/-- The bytes that are counted for the parameters are those of the arguments. -/
theorem SimulatedConstructor.paramBytes {object : UInt32} {args : List (List UInt32)}
    (hfill : Fill (ctor.frame.args.map FrameSlot.item) ([object] :: args))
    (hroom : (pushedWords args).length ≤ stackCapacity) :
    caller.paramBytes create ctor.method.params = .ok (4 * (pushedWords args).length) := by
  obtain ⟨this, params, locals, hof, hthis, hshaped, -, -⟩ := ofMethod_ok h.framed
  rw [hof.args, map_item_argSlots] at hfill
  rw [h.onReceiver, if_neg Bool.false_ne_true] at hthis
  obtain ⟨receiver, rfl, -⟩ := List.map_eq_singleton_iff.mp hthis
  cases hfill with
  | cons _ hfill =>
    have hitems : ctor.method.params.mapM (fun id => (caller.tables.typeFor create id).map
        (TypeDescriptor.stackItem caller.options.pointerSize)) = .ok params := by
      rw [h.options, h.tables]
      refine answer_mapM.mpr (hshaped.imp fun id item ⟨type, htype, hitem⟩ => ?_)
      exact answer_map.mpr ⟨type, typeFor_ok.mpr htype, hitem⟩
    have hbytes : totalBytes params = 4 * (pushedWords args).length := Fill.totalBytes hfill
    have hcapacity : stackCapacity < 2 ^ 20 := by decide
    have hcount : countBytes params = 4 * (pushedWords args).length := by
      rw [← hbytes]
      exact countBytes_of_lt (by omega)
    rw [EmitContext.paramBytes, hitems, ← hcount]
    rfl

theorem SimulatedConstructor.returnBytes : ctor.frame.returnBytes = 0 := by
  obtain ⟨this, params, locals, -, -, -, -, hresult⟩ := ofMethod_ok h.framed
  rw [h.noResult] at hresult
  rw [returnBytes_eq, List.forall₂_nil_left_iff.mp hresult]
  rfl

end Constructor

end Stencil
