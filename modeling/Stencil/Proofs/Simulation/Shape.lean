import Mathlib.Data.List.Forall2
import Stencil.Simulation

/-!
# Simulation depends on shapes only

`simulate_alike`: on two operand stacks of the same shape, `simulate` gives the same error or
succeeds on both, leaves stacks of the same shape again, and pops and pushes items of the same
sizes. Merging at a join compares shapes only, and this is what makes that enough.

The proof relates two runs of each simulation step. `Sim.Agree r x y` says that `x` and `y`, started
from states that are `Alike`, end alike, with values related by `r`; every step of `Sim.operate`
agrees with itself.
-/

namespace Stencil

/-! ## Shapes -/

/-- Both items take the same room and both or neither are floats. -/
def StackItem.Alike (a b : StackItem) : Prop := a.size = b.size ∧ a.isFloat = b.isFloat

theorem StackItem.alike_iff {a b : StackItem} : a.Alike b ↔ a.sameShape b = true := by
  simp [StackItem.Alike, StackItem.sameShape]

theorem StackItem.Alike.refl (a : StackItem) : a.Alike a := ⟨rfl, rfl⟩

theorem StackItem.Alike.stored {a b : StackItem} (h : a.Alike b) : a.stored.Alike b.stored := h

/-- Item by item alike. -/
abbrev AlikeItems : List StackItem → List StackItem → Prop := List.Forall₂ StackItem.Alike

theorem AlikeItems.refl (items : List StackItem) : AlikeItems items items :=
  List.forall₂_same.mpr fun item _ => .refl item

theorem AlikeItems.symm {s t : List StackItem} (h : AlikeItems s t) : AlikeItems t s :=
  List.Forall₂.flip (h.imp fun _ _ hab => ⟨hab.1.symm, hab.2.symm⟩)

theorem AlikeItems.trans {s t u : List StackItem} (h : AlikeItems s t) (h' : AlikeItems t u) :
    AlikeItems s u := by
  induction h generalizing u with
  | nil => exact h'
  | cons hab _ ih =>
    cases h' with
    | cons hbc h' => exact .cons ⟨hab.1.trans hbc.1, hab.2.trans hbc.2⟩ (ih h')

theorem OperandStack.sameShape_iff {s t : OperandStack} : s.sameShape t = true ↔ AlikeItems s t := by
  induction s generalizing t with
  | nil => cases t <;> simp [OperandStack.sameShape]
  | cons a s ih =>
    cases t with
    | nil => simp [OperandStack.sameShape]
    | cons b t =>
      rw [OperandStack.sameShape, Bool.and_eq_true, ih, ← StackItem.alike_iff]
      exact List.forall₂_cons.symm

theorem AlikeItems.totalBytes_eq {s t : List StackItem} (h : AlikeItems s t) :
    totalBytes s = totalBytes t := by
  induction h with
  | nil => rfl
  | cons hab _ ih => rw [totalBytes, totalBytes, hab.1, ih]

theorem AlikeItems.height_eq {s t : OperandStack} (h : AlikeItems s t) : s.height = t.height :=
  congrArg (· % 2 ^ 32) h.totalBytes_eq

theorem AlikeItems.sizes_eq {s t : List StackItem} (h : AlikeItems s t) :
    s.map StackItem.size = t.map StackItem.size := by
  induction h with
  | nil => rfl
  | cons hab _ ih => rw [List.map_cons, List.map_cons, hab.1, ih]

/-! ## Two runs -/

/-- The stacks have the same shape, and so have the items popped and pushed so far. -/
structure SimState.Alike (s t : SimState) : Prop where
  stack : AlikeItems s.stack t.stack
  popped : AlikeItems s.effect.popped t.effect.popped
  pushed : AlikeItems s.effect.pushed t.effect.pushed

namespace Sim

variable {α β : Type} {r : α → α → Prop} {q : β → β → Prop}

/-- Both steps succeed with related values, or both fail with one error; the states end alike. -/
def Outcome (r : α → α → Prop) :
    EStateM.Result CompileError SimState α → EStateM.Result CompileError SimState α → Prop
  | .ok a s, .ok b t => r a b ∧ s.Alike t
  | .error e s, .error f t => e = f ∧ s.Alike t
  | _, _ => False

/-- From states that are alike, `x` and `y` have the same outcome up to shapes. -/
def Agree (r : α → α → Prop) (x y : Sim α) : Prop :=
  ∀ ⦃s t : SimState⦄, s.Alike t → Outcome r (x s) (y t)

theorem agree_pure {a b : α} (h : r a b) : Agree r (pure a : Sim α) (pure b) :=
  fun _ _ hst => ⟨h, hst⟩

theorem agree_throw (e : CompileError) : Agree r (throw e : Sim α) (throw e) :=
  fun _ _ hst => ⟨rfl, hst⟩

theorem Agree.bind {x y : Sim α} {f g : α → Sim β} (h : Agree r x y)
    (hfg : ∀ a b, r a b → Agree q (f a) (g b)) : Agree q (x >>= f) (y >>= g) := by
  intro s t hst
  have hxy := h hst
  show Outcome q (EStateM.bind x f s) (EStateM.bind y g t)
  unfold EStateM.bind
  cases hx : x s <;> cases hy : y t <;> simp only [hx, hy, Outcome] at hxy ⊢
  · exact hfg _ _ hxy.1 hxy.2
  · exact hxy

theorem Agree.discard {x y : Sim α} (h : Agree r x y) :
    Agree (fun _ _ => True) (Functor.discard x) (Functor.discard y) := by
  refine Agree.bind (q := fun _ _ => True) h fun a b _ => ?_
  exact agree_pure trivial

theorem agree_lift (x : Except CompileError α) (h : ∀ a, r a a) : Agree r (lift x) (lift x) := by
  cases x with
  | ok a => exact agree_pure (h a)
  | error e => exact agree_throw e

theorem agree_modify {f g : SimState → SimState} (h : ∀ s t, s.Alike t → (f s).Alike (g t)) :
    Agree (fun _ _ => True) (modify f : Sim Unit) (modify g) :=
  fun s t hst => ⟨trivial, h s t hst⟩

theorem agree_get : Agree SimState.Alike (get : Sim SimState) get :=
  fun _ _ hst => ⟨hst, hst⟩

theorem Agree.ite {p : Prop} [Decidable p] {x x' y y' : Sim α} (h : Agree r x y)
    (h' : Agree r x' y') : Agree r (if p then x else x') (if p then y else y') := by
  split
  · exact h
  · exact h'

theorem Agree.guard {p : Prop} [Decidable p] {e : CompileError} {k l : Unit → Sim α}
    (h : Agree r (k ()) (l ())) :
    Agree r (if p then throw e >>= k else k ()) (if p then throw e >>= l else l ()) :=
  Agree.ite ((agree_throw (r := fun _ _ => True) e).bind fun _ _ _ => h) h

/-! ## Pushing and popping -/

variable (env : SimEnv) (i : Instruction)

theorem agree_push {a b : StackItem} (h : a.Alike b) :
    Agree (fun _ _ => True) (push i a) (push i b) := by
  unfold push
  rw [h.2]
  refine Agree.ite (agree_throw _) (agree_modify fun s t hst => ⟨.cons h hst.stack, hst.popped, ?_⟩)
  exact List.rel_append hst.pushed (.cons h .nil)

theorem agree_push_refl (a : StackItem) : Agree (fun _ _ => True) (push i a) (push i a) :=
  agree_push i (.refl a)

theorem agree_popFor {s t : OperandStack} (h : AlikeItems s t) :
    Agree (fun x y => x.1.Alike y.1 ∧ AlikeItems x.2 y.2)
      (lift (s.popFor i.op i.position)) (lift (t.popFor i.op i.position)) := by
  cases h with
  | nil => exact agree_throw _
  | cons hab hrest => exact agree_pure ⟨hab, hrest⟩

theorem agree_pop : Agree StackItem.Alike (pop i) (pop i) := by
  refine agree_get.bind fun s t hst => (agree_popFor i hst.stack).bind ?_
  rintro ⟨a, s⟩ ⟨b, t⟩ ⟨hab, hrest⟩
  dsimp only at hab hrest ⊢
  refine Agree.bind (r := fun _ _ => True) (agree_modify ?_) fun _ _ _ => ?_
  · exact fun _ _ hst => ⟨hrest, hst.popped, hst.pushed⟩
  · rw [hab.2]
    refine Agree.guard (Agree.bind (r := fun _ _ => True) (agree_modify ?_) fun _ _ _ => ?_)
    · exact fun _ _ hst => ⟨hst.stack, List.rel_append hst.popped (.cons hab .nil), hst.pushed⟩
    · exact agree_pure hab

theorem agree_popInt : Agree StackItem.Alike (popInt i) (popInt i) := by
  refine (agree_pop i).bind fun a b hab => ?_
  rw [hab.1]
  exact Agree.guard (agree_pure hab)

theorem agree_popPair : Agree Eq (popPair i) (popPair i) := by
  refine (agree_popInt i).bind fun b b' hb => (agree_popInt i).bind fun a a' ha => ?_
  rw [ha.1, hb.1]
  exact Agree.guard (agree_pure rfl)

theorem agree_popSized (size : Nat) :
    Agree (fun _ _ => True) (popSized i size) (popSized i size) := by
  refine (agree_pop i).bind fun a b hab => ?_
  rw [hab.1]
  exact Agree.ite (agree_throw _) (agree_pure trivial)

theorem agree_popObject : Agree (fun _ _ => True) (popObject env i) (popObject env i) :=
  agree_popSized i env.pointerSize

/-- Two lists of the same length drive the same number of steps. -/
theorem agree_forM {γ : Type} {f g : γ → Sim Unit} {xs ys : List γ} {p : γ → γ → Prop}
    (h : List.Forall₂ p xs ys) (hfg : ∀ x y, p x y → Agree (fun _ _ => True) (f x) (g y)) :
    Agree (fun _ _ => True) (xs.forM f) (ys.forM g) := by
  induction h with
  | nil => exact agree_pure trivial
  | cons hxy _ ih => exact (hfg _ _ hxy).bind fun _ _ _ => ih

theorem agree_popAll : Agree (fun _ _ => True) (popAll i) (popAll i) :=
  agree_get.bind fun _ _ hst => agree_forM hst.stack fun _ _ _ => (agree_pop i).discard

/-! ## Look-ups -/

theorem agree_typeItem (id : TypeId) :
    Agree StackItem.Alike (typeItem env i id) (typeItem env i id) :=
  agree_lift _ .refl

theorem agree_valueItem (kind : ValueKind) :
    Agree StackItem.Alike (valueItem env i kind) (valueItem env i kind) := by
  cases kind
  case typed => exact agree_lift _ .refl
  all_goals exact agree_pure (.refl _)

theorem agree_popArguments (params : List TypeId) :
    Agree (fun _ _ => True) (popArguments env i params) (popArguments env i params) := by
  refine agree_forM (List.forall₂_same.mpr fun _ _ => rfl) fun id id' hid => ?_
  subst hid
  refine (agree_typeItem env i id).bind fun a b hab => ?_
  rw [hab.1]
  exact agree_popSized i b.size

/-- The end of a call: push what the method returns. -/
def pushReturned (m : MethodDescriptor) : Sim Unit :=
  match m.returnType with
  | some id => do push i (← typeItem env i id)
  | none => pure ()

theorem call_eq (m : MethodDescriptor) (onReceiver : Bool) :
    call env i m onReceiver = (do
      popArguments env i m.params
      if onReceiver then do
        popObject env i
        pushReturned env i m
      else
        pushReturned env i m) := by
  cases onReceiver <;> rfl

theorem agree_call (m : MethodDescriptor) (onReceiver : Bool) :
    Agree (fun _ _ => True) (call env i m onReceiver) (call env i m onReceiver) := by
  have hresult : Agree (fun _ _ => True) (pushReturned env i m) (pushReturned env i m) := by
    unfold pushReturned
    cases m.returnType with
    | none => exact agree_pure trivial
    | some id => exact (agree_typeItem env i id).bind fun _ _ hab => agree_push i hab
  rw [call_eq]
  refine (agree_popArguments env i m.params).bind fun _ _ _ => ?_
  exact Agree.ite ((agree_popObject env i).bind fun _ _ _ => hresult) hresult

theorem agree_argument : Agree Eq (argument env i) (argument env i) := by
  refine (agree_lift _ fun _ => rfl).bind fun index index' h => ?_
  subst h
  split
  · exact agree_pure rfl
  · exact agree_throw _

theorem agree_localSlot : Agree Eq (localSlot env i) (localSlot env i) := by
  refine (agree_lift _ fun _ => rfl).bind fun index index' h => ?_
  subst h
  split
  · exact agree_pure rfl
  · exact agree_throw _

theorem agree_instanceField : Agree StackItem.Alike (instanceField env i) (instanceField env i) := by
  refine (agree_lift _ fun _ => rfl).bind fun field field' h => ?_
  subst h
  exact Agree.guard (agree_typeItem env i _)

theorem agree_staticField : Agree StackItem.Alike (staticField env i) (staticField env i) := by
  refine (agree_lift _ fun _ => rfl).bind fun field field' h => ?_
  subst h
  exact Agree.guard (agree_typeItem env i _)

theorem agree_token : Agree (fun _ _ => True) (token env i) (token env i) := by
  unfold token
  refine Agree.ite ?_ (Agree.ite ?_ ?_)
  all_goals exact Agree.discard (r := Eq) (agree_lift _ fun _ => rfl)

theorem agree_newObject : Agree (fun _ _ => True) (newObject env i) (newObject env i) := by
  refine (agree_lift _ fun _ => rfl).bind fun ctor ctor' h => ?_
  subst h
  refine (agree_lift _ fun _ => rfl).bind fun declaring declaring' h => ?_
  subst h
  refine Agree.guard (Agree.ite ?_ ?_)
  · exact (agree_popObject env i).bind fun _ _ _ =>
      (agree_popObject env i).bind fun _ _ _ => agree_push_refl i _
  · exact (agree_popArguments env i _).bind fun _ _ _ => agree_push_refl i _

/-! ## Operations -/

theorem agree_dup : Agree (fun _ _ => True) (operate env i .dup) (operate env i .dup) := by
  refine agree_get.bind fun s t hst => ?_
  obtain ⟨stack, _⟩ := s
  obtain ⟨stack', _⟩ := t
  cases hst.stack with
  | nil => exact agree_throw _
  | cons hab _ => exact agree_push i hab.stored

theorem agree_ret : Agree (fun _ _ => True) (operate env i .ret) (operate env i .ret) := by
  have hempty : Agree (fun _ _ => True)
      (do
        let stack := (← get).stack
        if !stack.isEmpty then throw (i.stackShape (.leftAtReturn stack.height)))
      (do
        let stack := (← get).stack
        if !stack.isEmpty then throw (i.stackShape (.leftAtReturn stack.height)) : Sim Unit) := by
    refine agree_get.bind fun s t hst => ?_
    have hheight : s.stack.height = t.stack.height := hst.stack.height_eq
    have hnil : s.stack.isEmpty = t.stack.isEmpty := by
      rw [Bool.eq_iff_iff, List.isEmpty_iff_length_eq_zero, List.isEmpty_iff_length_eq_zero,
        hst.stack.length_eq]
    dsimp only
    rw [hheight, hnil]
    exact Agree.ite (agree_throw _) (agree_pure trivial)
  unfold operate
  dsimp only
  cases env.frame.returnItem with
  | none => exact hempty
  | some item => exact (agree_popSized i item.size).bind fun _ _ _ => hempty

/-- Every operation treats stacks of the same shape alike. -/
theorem agree_operate (op : Operation) :
    Agree (fun _ _ => True) (operate env i op) (operate env i op) := by
  have hlift {α : Type} (x : Except CompileError α) :
      Agree (fun _ _ => True) (Functor.discard (lift x)) (Functor.discard (lift x)) :=
    Agree.discard (agree_lift (r := Eq) x fun _ => rfl)
  have hobject := agree_popObject env i
  cases op with
  | nop | methodStart | methodEnd => exact agree_pure trivial
  | loadArg =>
    refine (agree_argument env i).bind fun slot slot' h => ?_
    exact h ▸ agree_push_refl i _
  | loadArgAddress => exact (agree_argument env i).discard.bind fun _ _ _ => agree_push_refl i _
  | storeArg =>
    refine (agree_argument env i).bind fun slot slot' h => ?_
    exact h ▸ agree_popSized i _
  | loadLocal =>
    refine (agree_localSlot env i).bind fun slot slot' h => ?_
    exact h ▸ agree_push_refl i _
  | loadLocalAddress =>
    exact (agree_localSlot env i).discard.bind fun _ _ _ => agree_push_refl i _
  | storeLocal =>
    refine (agree_localSlot env i).bind fun slot slot' h => ?_
    exact h ▸ agree_popSized i _
  | loadConst =>
    refine Agree.ite ?_ ?_
    all_goals exact (hlift _).bind fun _ _ _ => agree_push_refl i _
  | loadNull => exact agree_push_refl i _
  | loadString | loadFunction | sizeOf => exact (hlift _).bind fun _ _ _ => agree_push_refl i _
  | loadToken => exact (agree_token env i).bind fun _ _ _ => agree_push_refl i _
  | dup => exact agree_dup env i
  | pop => exact (agree_pop i).discard
  | branch condition =>
    unfold operate
    dsimp only
    split
    · exact agree_pure trivial
    · exact (agree_popInt i).discard
    · exact (agree_popPair i).discard
  | switch => exact agree_popSized i 4
  | leave => exact agree_popAll i
  | ret => exact agree_ret env i
  | binary op =>
    refine (agree_popPair i).bind fun size size' h => ?_
    exact h ▸ Agree.guard (agree_push_refl i _)
  | unary _ =>
    refine (agree_popInt i).bind fun a b hab => ?_
    rw [hab.1]
    exact agree_push_refl i _
  | shift _ =>
    refine (agree_popInt i).discard.bind fun _ _ _ => (agree_popInt i).bind fun a b hab => ?_
    rw [hab.1]
    exact agree_push_refl i _
  | compare _ => exact (agree_popPair i).discard.bind fun _ _ _ => agree_push_refl i _
  | convert target =>
    cases target with
    | none => exact agree_throw _
    | some target => exact (agree_popInt i).discard.bind fun _ _ _ => agree_push_refl i _
  | loadIndirect kind =>
    exact (agree_valueItem env i kind).bind fun _ _ hab => hobject.bind fun _ _ _ => agree_push i hab
  | storeIndirect kind =>
    refine (agree_valueItem env i kind).bind fun a b hab => ?_
    rw [hab.1]
    exact (agree_popSized i _).bind fun _ _ _ => hobject
  | loadField =>
    exact (agree_instanceField env i).bind fun _ _ hab => hobject.bind fun _ _ _ => agree_push i hab
  | loadFieldAddress =>
    exact (agree_instanceField env i).discard.bind fun _ _ _ => hobject.bind fun _ _ _ =>
      agree_push_refl i _
  | storeField =>
    refine (agree_instanceField env i).bind fun a b hab => ?_
    rw [hab.1]
    exact (agree_popSized i _).bind fun _ _ _ => hobject
  | loadStatic => exact (agree_staticField env i).bind fun _ _ hab => agree_push i hab
  | loadStaticAddress =>
    exact (agree_staticField env i).discard.bind fun _ _ _ => agree_push_refl i _
  | storeStatic =>
    refine (agree_staticField env i).bind fun a b hab => ?_
    rw [hab.1]
    exact agree_popSized i _
  | newArray =>
    exact (hlift _).bind fun _ _ _ => (agree_popSized i 4).bind fun _ _ _ => agree_push_refl i _
  | loadLength => exact hobject.bind fun _ _ _ => agree_push_refl i _
  | loadElement kind =>
    exact (agree_valueItem env i kind).bind fun _ _ hab => (agree_popSized i 4).bind fun _ _ _ =>
      hobject.bind fun _ _ _ => agree_push i hab
  | loadElementAddress =>
    exact (hlift _).bind fun _ _ _ => (agree_popSized i 4).bind fun _ _ _ =>
      hobject.bind fun _ _ _ => agree_push_refl i _
  | storeElement kind =>
    refine (agree_valueItem env i kind).bind fun a b hab => ?_
    rw [hab.1]
    exact (agree_popSized i _).bind fun _ _ _ => (agree_popSized i 4).bind fun _ _ _ => hobject
  | call =>
    refine (agree_lift (r := Eq) _ fun _ => rfl).bind fun m m' h => ?_
    exact h ▸ agree_call env i _ _
  | callIndirect =>
    refine (agree_lift (r := Eq) _ fun _ => rfl).bind fun m m' h => ?_
    exact h ▸ hobject.bind fun _ _ _ => agree_call env i _ _
  | callVirtual =>
    refine (agree_lift (r := Eq) _ fun _ => rfl).bind fun m m' h => ?_
    exact h ▸ Agree.guard (agree_call env i _ _)
  | newObject => exact agree_newObject env i
  | isInstance | castClass =>
    exact (hlift _).bind fun _ _ _ => hobject.bind fun _ _ _ => agree_push_refl i _
  | throw => exact hobject
  | initObject => exact (hlift _).bind fun _ _ _ => hobject

end Sim

/-! ## Whole instructions -/

/-- What simulations of one instruction on two stacks have in common: the same error, or effects of
the same sizes, and stacks of the same shape in either case. -/
def SameResult : EStateM.Result CompileError OperandStack Effect →
    EStateM.Result CompileError OperandStack Effect → Prop
  | .ok e s, .ok f t =>
    e.popped.map StackItem.size = f.popped.map StackItem.size ∧
      e.pushed.map StackItem.size = f.pushed.map StackItem.size ∧ AlikeItems s t
  | .error e s, .error f t => e = f ∧ AlikeItems s t
  | _, _ => False

theorem simulate_alike (env : SimEnv) (i : Instruction) {s t : OperandStack} (h : AlikeItems s t) :
    SameResult (simulate env i s) (simulate env i t) := by
  unfold simulate
  split
  · exact ⟨rfl, h⟩
  · have hrun := Sim.agree_operate env i i.op.operation
      (s := { stack := s }) (t := { stack := t }) ⟨h, .nil, .nil⟩
    cases hs : Sim.operate env i i.op.operation { stack := s } <;>
      cases ht : Sim.operate env i i.op.operation { stack := t } <;>
      simp only [hs, ht, Sim.Outcome] at hrun ⊢
    · obtain ⟨-, hrun⟩ := hrun
      exact ⟨hrun.popped.sizes_eq, hrun.pushed.sizes_eq, hrun.stack⟩
    · exact ⟨hrun.1, hrun.2.stack⟩

/-- A simulation that succeeds on one stack succeeds on every stack of the same shape. -/
theorem simulate_ok_of_alike {env : SimEnv} {i : Instruction} {s t s' : OperandStack} {e : Effect}
    (h : AlikeItems s t) (hs : simulate env i s = .ok e s') :
    ∃ f t', simulate env i t = .ok f t' ∧ AlikeItems s' t' ∧
      f.popped.map StackItem.size = e.popped.map StackItem.size ∧
      f.pushed.map StackItem.size = e.pushed.map StackItem.size := by
  have hsame := simulate_alike env i h
  rw [hs] at hsame
  cases ht : simulate env i t with
  | error f t' => simp [ht, SameResult] at hsame
  | ok f t' =>
    rw [ht] at hsame
    exact ⟨f, t', rfl, hsame.2.2, hsame.1.symm, hsame.2.1.symm⟩

/-! ## Stacks of the same shape -/

theorem OperandStack.sameShape_equivalence :
    Equivalence fun s t : OperandStack => s.sameShape t = true where
  refl s := sameShape_iff.mpr (.refl s)
  symm h := sameShape_iff.mpr (sameShape_iff.mp h).symm
  trans h h' := sameShape_iff.mpr ((sameShape_iff.mp h).trans (sameShape_iff.mp h'))

/-- Having the same shape is an equivalence, and no simulation tells two stacks of the same shape apart: it
fails on both with one error or succeeds on both with items of the same sizes, and in either case the stacks
that it leaves have the same shape again. -/
theorem simulate_respects_shape :
    (Equivalence fun s t : OperandStack => s.sameShape t = true) ∧
    ∀ (env : SimEnv) (i : Instruction) (s t : OperandStack), s.sameShape t = true →
      (∃ error s' t', simulate env i s = .error error s' ∧ simulate env i t = .error error t' ∧
        OperandStack.sameShape s' t' = true) ∨
      ∃ e f s' t', simulate env i s = .ok e s' ∧ simulate env i t = .ok f t' ∧
        OperandStack.sameShape s' t' = true ∧
        e.popped.map StackItem.size = f.popped.map StackItem.size ∧
        e.pushed.map StackItem.size = f.pushed.map StackItem.size := by
  refine ⟨OperandStack.sameShape_equivalence, fun env i s t hshape => ?_⟩
  have hsame := simulate_alike env i (OperandStack.sameShape_iff.mp hshape)
  cases hs : simulate env i s with
  | ok e s' =>
    rw [hs] at hsame
    cases ht : simulate env i t with
    | ok f t' =>
      rw [ht] at hsame
      obtain ⟨hpopped, hpushed, halike⟩ := hsame
      exact .inr ⟨e, f, s', t', rfl, rfl, OperandStack.sameShape_iff.mpr halike, hpopped, hpushed⟩
    | error error t' =>
      rw [ht] at hsame
      exact False.elim hsame
  | error error s' =>
    rw [hs] at hsame
    cases ht : simulate env i t with
    | ok f t' =>
      rw [ht] at hsame
      exact False.elim hsame
    | error error' t' =>
      rw [ht] at hsame
      obtain ⟨rfl, halike⟩ := hsame
      exact .inl ⟨error, s', t', rfl, rfl, OperandStack.sameShape_iff.mpr halike⟩

def blankEnv : SimEnv :=
  { tables := {}, pointerSize := 4
    frame := { args := [], locals := [], returnItem := none, argBytes := 0, localBytes := 0 } }

/-- A fresh object is copied like a number, and added to a double word both fail with one error. -/
theorem simulate_respects_shape_fresh :
    OperandStack.sameShape [.newObject 4, .int64] [.int32, .int64] = true ∧
    (∃ e f s t, simulate blankEnv (.placed 0 .dup []) [.newObject 4, .int64] = .ok e s ∧
      simulate blankEnv (.placed 0 .dup []) [.int32, .int64] = .ok f t ∧ OperandStack.sameShape s t = true ∧
      e.pushed.map StackItem.size = f.pushed.map StackItem.size) ∧
    ∃ error s t, simulate blankEnv (.placed 1 .add []) [.newObject 4, .int64] = .error error s ∧
      simulate blankEnv (.placed 1 .add []) [.int32, .int64] = .error error t ∧
      OperandStack.sameShape s t = true := by
  have hshape : OperandStack.sameShape [.newObject 4, .int64] [.int32, .int64] = true := rfl
  have hrespects := simulate_respects_shape.2 blankEnv
  refine ⟨hshape, ?_, ?_⟩
  · obtain ⟨_, _, _, hfails, -⟩ | ⟨e, f, s, t, hs, ht, hafter, -, hpushed⟩ :=
      hrespects (.placed 0 .dup []) _ _ hshape
    · cases hfails
    · exact ⟨e, f, s, t, hs, ht, hafter, hpushed⟩
  · obtain h | ⟨_, _, _, _, hsucceeds, -⟩ := hrespects (.placed 1 .add []) _ _ hshape
    · exact h
    · cases hsucceeds

end Stencil
