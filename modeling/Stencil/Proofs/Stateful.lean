import Mathlib.Data.List.Forall2

/-!
# Runs of stateful programs

The walk, the simulation and both machines are programs of `EStateM`. A run that succeeds is taken
apart by `bind_eq_ok` and put together by `bind_of_ok`, so that no other proof opens the monad.
Look-ups and templates are programs of `Except`; `answer_bind`, `answer_map` and `answer_mapM` take
them apart.
-/

namespace Stencil.Stateful

variable {ε σ α β γ : Type}

theorem answer_bind {x : Except ε α} {f : α → Except ε β} {b : β} :
    (x >>= f) = .ok b ↔ ∃ a, x = .ok a ∧ f a = .ok b := by
  cases x <;> simp [bind, Except.bind]

theorem answer_map {x : Except ε α} {f : α → β} {b : β} :
    x.map f = .ok b ↔ ∃ a, x = .ok a ∧ f a = b := by
  cases x <;> simp [Except.map]

theorem exists_of_isOk {x : Except ε α} (h : x.isOk = true) : ∃ a, x = .ok a := by
  cases x with
  | error e => cases h
  | ok a => exact ⟨a, rfl⟩

theorem answer_mapM {f : α → Except ε β} {as : List α} {bs : List β} :
    as.mapM f = .ok bs ↔ List.Forall₂ (fun a b => f a = .ok b) as bs := by
  induction as generalizing bs with
  | nil =>
    rw [List.mapM_nil, List.forall₂_nil_left_iff]
    exact ⟨fun h => (Except.ok.inj h).symm, fun h => by rw [h]; rfl⟩
  | cons a as ih =>
    rw [List.mapM_cons, answer_bind]
    constructor
    · rintro ⟨b, hb, h⟩
      obtain ⟨rest, hrest, h⟩ := answer_bind.mp h
      obtain rfl := Except.ok.inj h
      exact .cons hb (ih.mp hrest)
    · intro h
      cases h with
      | cons hb hrest => exact ⟨_, hb, answer_bind.mpr ⟨_, ih.mpr hrest, rfl⟩⟩

theorem mem_of_answer_mapM {f : α → Except ε β} {as : List α} {bs : List β} (h : as.mapM f = .ok bs) :
    (∀ b ∈ bs, ∃ a ∈ as, f a = .ok b) ∧ ∀ a ∈ as, ∃ b ∈ bs, f a = .ok b := by
  have hall := answer_mapM.mp h
  clear h
  induction hall with
  | nil => simp
  | cons hab _ ih =>
    refine ⟨List.forall_mem_cons.mpr ⟨⟨_, List.mem_cons_self, hab⟩, fun b hb => ?_⟩,
      List.forall_mem_cons.mpr ⟨⟨_, List.mem_cons_self, hab⟩, fun a ha => ?_⟩⟩
    · obtain ⟨a, ha, hab⟩ := ih.1 b hb
      exact ⟨a, List.mem_cons_of_mem _ ha, hab⟩
    · obtain ⟨b, hb, hab⟩ := ih.2 a ha
      exact ⟨b, List.mem_cons_of_mem _ hb, hab⟩

@[simp] theorem pure_apply (a : α) (s : σ) : (pure a : EStateM ε σ α) s = .ok a s := rfl

@[simp] theorem throw_apply (e : ε) (s : σ) : (throw e : EStateM ε σ α) s = .error e s := rfl

@[simp] theorem get_apply (s : σ) : (get : EStateM ε σ σ) s = .ok s s := rfl

@[simp] theorem estate_get_apply (s : σ) : (EStateM.get : EStateM ε σ σ) s = .ok s s := rfl

@[simp] theorem set_apply (t s : σ) : (set t : EStateM ε σ PUnit) s = .ok ⟨⟩ t := rfl

@[simp] theorem modify_apply (f : σ → σ) (s : σ) :
    (modify f : EStateM ε σ PUnit) s = .ok ⟨⟩ (f s) := rfl

theorem bind_apply (x : EStateM ε σ α) (f : α → EStateM ε σ β) (s : σ) :
    (x >>= f) s = match x s with
      | .ok a t => f a t
      | .error e t => .error e t := rfl

theorem bind_of_ok {x : EStateM ε σ α} {f : α → EStateM ε σ β} {s t : σ} {a : α}
    (h : x s = .ok a t) : (x >>= f) s = f a t := by
  rw [bind_apply, h]

theorem bind_of_error {x : EStateM ε σ α} {f : α → EStateM ε σ β} {s t : σ} {e : ε}
    (h : x s = .error e t) : (x >>= f) s = .error e t := by
  rw [bind_apply, h]

theorem bind_eq_ok {x : EStateM ε σ α} {f : α → EStateM ε σ β} {s s' : σ} {b : β} :
    (x >>= f) s = .ok b s' ↔ ∃ a t, x s = .ok a t ∧ f a t = .ok b s' := by
  rw [bind_apply]
  cases x s <;> simp

theorem bind_eq_error {x : EStateM ε σ α} {f : α → EStateM ε σ β} {s s' : σ} {e : ε} :
    (x >>= f) s = .error e s' ↔
      x s = .error e s' ∨ ∃ a t, x s = .ok a t ∧ f a t = .error e s' := by
  rw [bind_apply]
  cases x s <;> simp

theorem forM_cons_eq_ok {f : α → EStateM ε σ PUnit} {a : α} {as : List α} {s s' : σ} :
    (a :: as).forM f s = .ok ⟨⟩ s' ↔ ∃ t, f a s = .ok ⟨⟩ t ∧ as.forM f t = .ok ⟨⟩ s' := by
  show (f a >>= fun _ => as.forM f) s = _ ↔ _
  rw [bind_eq_ok]
  exact ⟨fun ⟨_, t, h⟩ => ⟨t, h⟩, fun ⟨t, h⟩ => ⟨⟨⟩, t, h⟩⟩

theorem mapM_cons_eq_ok {f : α → EStateM ε σ β} {a : α} {as : List α} {bs : List β} {s s' : σ} :
    (a :: as).mapM f s = .ok bs s' ↔
      ∃ b t rest, f a s = .ok b t ∧ as.mapM f t = .ok rest s' ∧ bs = b :: rest := by
  rw [List.mapM_cons, bind_eq_ok]
  constructor
  · rintro ⟨b, t, hb, h⟩
    obtain ⟨rest, t', hrest, hpure⟩ := bind_eq_ok.mp h
    simp only [pure_apply, EStateM.Result.ok.injEq] at hpure
    exact ⟨b, t, rest, hb, hpure.2 ▸ hrest, hpure.1.symm⟩
  · rintro ⟨b, t, rest, hb, hrest, rfl⟩
    exact ⟨b, t, hb, bind_of_ok hrest⟩

theorem mapM_append_eq_ok {f : α → EStateM ε σ β} {as as' : List α} {cs : List β} {s s' : σ} :
    (as ++ as').mapM f s = .ok cs s' ↔
      ∃ bs t bs', as.mapM f s = .ok bs t ∧ as'.mapM f t = .ok bs' s' ∧ cs = bs ++ bs' := by
  induction as generalizing s cs with
  | nil => simp
  | cons a as ih =>
    rw [List.cons_append, mapM_cons_eq_ok]
    constructor
    · rintro ⟨b, t, rest, hb, hrest, rfl⟩
      obtain ⟨bs, t', bs', hbs, hbs', rfl⟩ := ih.mp hrest
      exact ⟨b :: bs, t', bs', mapM_cons_eq_ok.mpr ⟨b, t, bs, hb, hbs, rfl⟩, hbs', rfl⟩
    · rintro ⟨cs, t', bs', hcs, hbs', rfl⟩
      obtain ⟨b, t, bs, hb, hbs, rfl⟩ := mapM_cons_eq_ok.mp hcs
      exact ⟨b, t, bs ++ bs', hb, ih.mpr ⟨bs, t', bs', hbs, hbs', rfl⟩, rfl⟩

/-- A list that fails fails at one of its members, once all before it succeeded. -/
theorem mapM_eq_error {f : α → EStateM ε σ β} {as : List α} {s s' : σ} {e : ε} :
    as.mapM f s = .error e s' ↔
      ∃ before a after bs t, as = before ++ a :: after ∧ before.mapM f s = .ok bs t ∧
        f a t = .error e s' := by
  induction as generalizing s with
  | nil => simp
  | cons a as ih =>
    rw [List.mapM_cons, bind_eq_error]
    constructor
    · rintro (ha | ⟨b, t, hb, h⟩)
      · exact ⟨[], a, as, [], s, rfl, rfl, ha⟩
      · rcases bind_eq_error.mp h with hrest | ⟨bs, u, -, hpure⟩
        · obtain ⟨before, a', after, bs, u, rfl, hbefore, ha'⟩ := ih.mp hrest
          exact ⟨a :: before, a', after, b :: bs, u, rfl,
            mapM_cons_eq_ok.mpr ⟨b, t, bs, hb, hbefore, rfl⟩, ha'⟩
        · cases hpure
    · rintro ⟨before, a', after, bs, t, has, hbefore, ha'⟩
      cases before with
      | nil =>
        obtain ⟨rfl, rfl⟩ := List.cons.inj has
        obtain ⟨-, rfl⟩ : [] = bs ∧ s = t := by simpa using hbefore
        exact .inl ha'
      | cons head before =>
        obtain ⟨rfl, rfl⟩ := List.cons.inj has
        obtain ⟨b, u, rest, hb, hrest, -⟩ := mapM_cons_eq_ok.mp hbefore
        refine .inr ⟨b, u, hb, bind_eq_error.mpr (.inl ?_)⟩
        exact ih.mpr ⟨before, a', after, rest, t, rfl, hrest, ha'⟩

theorem mapM_eq_ok_length {f : α → EStateM ε σ β} {as : List α} {bs : List β} {s s' : σ}
    (h : as.mapM f s = .ok bs s') : bs.length = as.length := by
  induction as generalizing s bs with
  | nil =>
    obtain ⟨rfl, rfl⟩ : [] = bs ∧ s = s' := by simpa using h
    rfl
  | cons a as ih =>
    obtain ⟨b, t, rest, -, hrest, rfl⟩ := mapM_cons_eq_ok.mp h
    simp [ih hrest]

end Stencil.Stateful

namespace Stencil

open Stateful

/-! ## States that programs leave behind

A program of `EStateM` leaves a state behind whether it succeeds or fails (`stateAfter`). `Keeps` says that
a part of the state is then as before, `Preserves` that an invariant of the state holds again and that the
value, if there is one, is as asked. Both are put together along the program. -/

variable {ε σ α β γ : Type}

/-- The state in which a program ends, with a value or a failure. -/
def stateAfter (x : EStateM ε σ α) (s : σ) : σ :=
  match x s with
  | .ok _ t => t
  | .error _ t => t

section StateAfter

variable {x : EStateM ε σ α} {f : α → EStateM ε σ β} {s t : σ}

theorem stateAfter_of_ok {a : α} (h : x s = .ok a t) : stateAfter x s = t := by
  rw [stateAfter, h]

theorem stateAfter_of_error {e : ε} (h : x s = .error e t) : stateAfter x s = t := by
  rw [stateAfter, h]

theorem stateAfter_bind_of_ok {a : α} (h : x s = .ok a t) : stateAfter (x >>= f) s = stateAfter (f a) t := by
  rw [stateAfter, bind_of_ok h]
  rfl

theorem stateAfter_bind_of_error {e : ε} (h : x s = .error e t) : stateAfter (x >>= f) s = t :=
  stateAfter_of_error (bind_of_error h)

end StateAfter

/-! ### Parts that stay -/

/-- The program leaves this part of the state as it is, also where it fails. -/
def Keeps (part : σ → γ) (x : EStateM ε σ α) : Prop := ∀ s, part (stateAfter x s) = part s

namespace Keeps

variable {part : σ → γ} {x y : EStateM ε σ α}

theorem of_ok (h : Keeps part x) {a : α} {s t : σ} (hx : x s = .ok a t) : part t = part s := by
  rw [← h s, stateAfter_of_ok hx]

theorem map {δ : Type} (h : Keeps part x) (g : γ → δ) : Keeps (fun s => g (part s)) x := fun s =>
  congrArg g (h s)

theorem pure (a : α) : Keeps part (pure a : EStateM ε σ α) := fun _ => rfl

theorem throw (e : ε) : Keeps part (throw e : EStateM ε σ α) := fun _ => rfl

theorem get : Keeps part (get : EStateM ε σ σ) := fun _ => rfl

theorem modify {f : σ → σ} (h : ∀ s, part (f s) = part s) : Keeps part (modify f : EStateM ε σ PUnit) := h

theorem bind {f : α → EStateM ε σ β} (hx : Keeps part x) (hf : ∀ a, Keeps part (f a)) :
    Keeps part (x >>= f) := by
  intro s
  cases h : x s with
  | ok a t => rw [stateAfter_bind_of_ok h, hf a t, hx.of_ok h]
  | error e t => rw [stateAfter_bind_of_error h, ← hx s, stateAfter_of_error h]

theorem ite {p : Prop} [Decidable p] (hx : Keeps part x) (hy : Keeps part y) : Keeps part (if p then x else y) := by
  split
  · exact hx
  · exact hy

theorem forM {f : α → EStateM ε σ PUnit} (hf : ∀ a, Keeps part (f a)) (as : List α) :
    Keeps part (as.forM f) := by
  induction as with
  | nil => exact .pure _
  | cons a as ih => exact .bind (hf a) fun _ => ih

theorem mapM {f : α → EStateM ε σ β} (hf : ∀ a, Keeps part (f a)) (as : List α) : Keeps part (as.mapM f) := by
  induction as with
  | nil => exact .pure _
  | cons a as ih =>
    rw [List.mapM_cons]
    exact .bind (hf a) fun _ => .bind ih fun _ => .pure _

end Keeps

/-! ### Invariants -/

/-- From a state with the invariant the program ends in one, also where it fails, and the value it may
have is as asked. -/
def Preserves (Inv : σ → Prop) (Q : α → Prop) (x : EStateM ε σ α) : Prop :=
  ∀ s, Inv s → Inv (stateAfter x s) ∧ ∀ a t, x s = .ok a t → Q a

/-- Nothing is asked of the value. -/
abbrev Maintains (Inv : σ → Prop) (x : EStateM ε σ α) : Prop := Preserves Inv (fun _ => True) x

namespace Preserves

variable {Inv : σ → Prop} {Q : α → Prop} {R : β → Prop} {x y : EStateM ε σ α}

theorem pure {a : α} (h : Q a) : Preserves Inv Q (pure a : EStateM ε σ α) := by
  intro s hs
  refine ⟨hs, fun b t hb => ?_⟩
  obtain ⟨rfl, -⟩ := EStateM.Result.ok.inj hb
  exact h

theorem throw (e : ε) : Preserves Inv Q (throw e : EStateM ε σ α) := by
  intro s hs
  exact ⟨hs, fun b t hb => nomatch hb⟩

theorem get : Preserves Inv Inv (get : EStateM ε σ σ) := by
  intro s hs
  refine ⟨hs, fun b t hb => ?_⟩
  obtain ⟨rfl, -⟩ := EStateM.Result.ok.inj hb
  exact hs

theorem modify {f : σ → σ} (h : ∀ s, Inv s → Inv (f s)) :
    Maintains Inv (modify f : EStateM ε σ PUnit) := by
  intro s hs
  exact ⟨h s hs, fun _ _ _ => trivial⟩

theorem set {s : σ} (h : Inv s) : Maintains Inv (set s : EStateM ε σ PUnit) := by
  intro _ _
  exact ⟨h, fun _ _ _ => trivial⟩

theorem bind {f : α → EStateM ε σ β} (hx : Preserves Inv Q x) (hf : ∀ a, Q a → Preserves Inv R (f a)) :
    Preserves Inv R (x >>= f) := by
  intro s hs
  obtain ⟨hinv, hvalue⟩ := hx s hs
  cases h : x s with
  | ok a t =>
    rw [stateAfter_of_ok h] at hinv
    obtain ⟨hinv', hvalue'⟩ := hf a (hvalue a t h) t hinv
    rw [stateAfter_bind_of_ok h, bind_of_ok h]
    exact ⟨hinv', hvalue'⟩
  | error e t =>
    rw [stateAfter_of_error h] at hinv
    rw [stateAfter_bind_of_error h, bind_of_error h]
    exact ⟨hinv, fun b u hb => nomatch hb⟩

theorem discard (h : Preserves Inv Q x) : Maintains Inv (Functor.discard x) :=
  h.bind fun _ _ => .pure trivial

theorem ite {p : Prop} [Decidable p] (hx : p → Preserves Inv Q x) (hy : ¬p → Preserves Inv Q y) :
    Preserves Inv Q (if p then x else y) := by
  by_cases h : p
  · rw [if_pos h]
    exact hx h
  · rw [if_neg h]
    exact hy h

theorem check {p : Prop} [Decidable p] {e : ε} (hx : ¬p → Preserves Inv Q x) :
    Preserves Inv Q (if p then (MonadExcept.throw e : EStateM ε σ PUnit) >>= fun _ => x else x) := by
  apply ite
  · intro _ s hs
    exact ⟨hs, fun b t hb => nomatch hb⟩
  · exact hx

theorem forM {f : α → EStateM ε σ PUnit} (hf : ∀ a, Maintains Inv (f a)) (as : List α) :
    Maintains Inv (as.forM f) := by
  induction as with
  | nil => exact .pure trivial
  | cons a as ih => exact .bind (hf a) fun _ _ => ih

theorem inv (h : Preserves Inv Q x) {s : σ} (hs : Inv s) : Inv (stateAfter x s) := (h s hs).1

end Preserves

end Stencil
