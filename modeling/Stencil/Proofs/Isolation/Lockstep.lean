import Stencil.Machine.Fault
import Stencil.Proofs.Stateful
import Mathlib.Logic.Relation

/-!
# Two runs of one piece of code

A run goes on as long as control stands inside the code: it leaves, it faults, or it stays forever.
Two runs whose machines are related, step by step, end alike (`Lockstep.endAlike`).
-/

open Relation (ReflTransGen)

namespace Stencil

open Stateful

/-! ## Answers of two runs -/

section Couples

variable {M α β : Type}

/-- The same fault, or the same value with machines that `R` relates. -/
inductive Alike (R : M → M → Prop) : EStateM.Result Fault M α → EStateM.Result Fault M α → Prop
  | ok {a : α} {m₁ m₂ : M} (h : R m₁ m₂) : Alike R (.ok a m₁) (.ok a m₂)
  | error {fault : Fault} {m₁ m₂ : M} : Alike R (.error fault m₁) (.error fault m₂)

/-- From machines that `R` relates, two runs of `x` answer alike and `S` relates their machines. -/
def Couples (R S : M → M → Prop) (x : EStateM Fault M α) : Prop :=
  ∀ m₁ m₂, R m₁ m₂ → Alike S (x m₁) (x m₂)

namespace Couples

variable {R S T : M → M → Prop}

theorem pure (a : α) : Couples R R (pure a : EStateM Fault M α) := fun _ _ h => .ok h

theorem throw (fault : Fault) : Couples R S (throw fault : EStateM Fault M α) :=
  fun _ _ _ => .error

theorem bind {x : EStateM Fault M α} {f : α → EStateM Fault M β} (hx : Couples R S x)
    (hf : ∀ a, Couples S T (f a)) : Couples R T (x >>= f) := by
  intro m₁ m₂ h
  have halike := hx m₁ m₂ h
  rw [bind_apply, bind_apply]
  generalize x m₁ = first, x m₂ = second at halike
  cases halike with
  | ok hS => exact hf _ _ _ hS
  | error => exact .error

theorem mono {R' S' : M → M → Prop} {x : EStateM Fault M α} (hx : Couples R S x)
    (hR : ∀ m₁ m₂, R' m₁ m₂ → R m₁ m₂) (hS : ∀ m₁ m₂, S m₁ m₂ → S' m₁ m₂) : Couples R' S' x := by
  intro m₁ m₂ h
  have halike := hx m₁ m₂ (hR m₁ m₂ h)
  generalize x m₁ = first, x m₂ = second at halike
  cases halike with
  | ok h' => exact .ok (hS _ _ h')
  | error => exact .error

theorem ite {c : Prop} [Decidable c] {x y : EStateM Fault M α} (hx : Couples R S x)
    (hy : Couples R S y) : Couples R S (if c then x else y) := by
  split
  · exact hx
  · exact hy

end Couples

end Couples

/-! ## Runs inside a piece of code -/

section Runs

variable {M : Type} (cycle : EStateM Fault M Unit) (Inside : M → Prop)

def InsideStep (m m' : M) : Prop := Inside m ∧ cycle m = .ok () m'

/-- The run leaves with the machine that is given second. -/
inductive Leaves : M → M → Prop
  | here {m : M} (houtside : ¬Inside m) : Leaves m m
  | step {m m' m'' : M} (hstep : InsideStep cycle Inside m m') (hrest : Leaves m' m'') :
      Leaves m m''

/-- The run ends in the fault. -/
inductive Faults (fault : Fault) : M → Prop
  | here {m m' : M} (hinside : Inside m) (hcycle : cycle m = .error fault m') : Faults fault m
  | step {m m' : M} (hstep : InsideStep cycle Inside m m') (hrest : Faults fault m') :
      Faults fault m

/-- The run never ends. -/
def Stays (m : M) : Prop :=
  ∀ m', ReflTransGen (InsideStep cycle Inside) m m' → ∃ m'', InsideStep cycle Inside m' m''

/-- Both runs end in the same fault, both never end, or both leave with machines that are `Same`. -/
def EndAlike (Same : M → M → Prop) (m₁ m₂ : M) : Prop :=
  (∃ fault, Faults cycle Inside fault m₁ ∧ Faults cycle Inside fault m₂) ∨
    Stays cycle Inside m₁ ∧ Stays cycle Inside m₂ ∨
    ∃ m₁' m₂', Leaves cycle Inside m₁ m₁' ∧ Leaves cycle Inside m₂ m₂' ∧ Same m₁' m₂'

/-- `R` relates the machines of two runs along the way and lets them leave with `Same` ones. -/
structure Lockstep (R Same : M → M → Prop) : Prop where
  inside : ∀ {m₁ m₂}, R m₁ m₂ → (Inside m₁ ↔ Inside m₂)
  step : ∀ {m₁ m₂}, R m₁ m₂ → Inside m₁ → Alike R (cycle m₁) (cycle m₂)
  same : ∀ {m₁ m₂}, R m₁ m₂ → ¬Inside m₁ → Same m₁ m₂

/-- Every run ends in one of three ways. -/
theorem faults_or_stays_or_leaves (m : M) :
    (∃ fault, Faults cycle Inside fault m) ∨ Stays cycle Inside m ∨
      ∃ m', Leaves cycle Inside m m' := by
  by_cases hstays : Stays cycle Inside m
  · exact .inr (.inl hstays)
  · unfold Stays at hstays
    push Not at hstays
    obtain ⟨last, hpath, hlast⟩ := hstays
    -- the run gets to `last`, where it leaves or faults
    have hend : (∃ fault, Faults cycle Inside fault last) ∨ ∃ m', Leaves cycle Inside last m' := by
      by_cases hinside : Inside last
      · cases hcycle : cycle last with
        | ok _ next => exact absurd ⟨hinside, hcycle⟩ (hlast next)
        | error fault next => exact .inl ⟨fault, .here hinside hcycle⟩
      · exact .inr ⟨last, .here hinside⟩
    have hback : (∃ fault, Faults cycle Inside fault m) ∨ ∃ m', Leaves cycle Inside m m' := by
      induction hpath using ReflTransGen.head_induction_on with
      | refl => exact hend
      | head hstep _ ih =>
        rcases ih with ⟨fault, hfaults⟩ | ⟨m', hleaves⟩
        · exact .inl ⟨fault, .step hstep hfaults⟩
        · exact .inr ⟨m', .step hstep hleaves⟩
    rcases hback with hfaults | hleaves
    · exact .inl hfaults
    · exact .inr (.inr hleaves)

namespace Lockstep

variable {cycle Inside} {R Same : M → M → Prop} (h : Lockstep cycle Inside R Same)

include h

theorem step_right {m₁ m₂ m₁' : M} (hR : R m₁ m₂) (hstep : InsideStep cycle Inside m₁ m₁') :
    ∃ m₂', InsideStep cycle Inside m₂ m₂' ∧ R m₁' m₂' := by
  obtain ⟨hinside, hcycle⟩ := hstep
  have halike := h.step hR hinside
  rw [hcycle] at halike
  generalize hcycle₂ : cycle m₂ = answer at halike
  cases halike with
  | ok hR' => exact ⟨_, ⟨(h.inside hR).mp hinside, hcycle₂⟩, hR'⟩

theorem step_left {m₁ m₂ m₂' : M} (hR : R m₁ m₂) (hstep : InsideStep cycle Inside m₂ m₂') :
    ∃ m₁', InsideStep cycle Inside m₁ m₁' ∧ R m₁' m₂' := by
  obtain ⟨hinside, hcycle⟩ := hstep
  have hinside₁ := (h.inside hR).mpr hinside
  have halike := h.step hR hinside₁
  rw [hcycle] at halike
  generalize hcycle₁ : cycle m₁ = answer at halike
  cases halike with
  | ok hR' => exact ⟨_, ⟨hinside₁, hcycle₁⟩, hR'⟩

theorem faults {fault : Fault} {m₁ m₂ : M} (hR : R m₁ m₂)
    (hfaults : Faults cycle Inside fault m₁) : Faults cycle Inside fault m₂ := by
  induction hfaults generalizing m₂ with
  | here hinside hcycle =>
    have halike := h.step hR hinside
    rw [hcycle] at halike
    generalize hcycle₂ : cycle m₂ = answer at halike
    cases halike with
    | error => exact .here ((h.inside hR).mp hinside) hcycle₂
  | step hstep _ ih =>
    obtain ⟨m₂', hstep₂, hR'⟩ := h.step_right hR hstep
    exact .step hstep₂ (ih hR')

theorem leaves {m₁ m₂ m₁' : M} (hR : R m₁ m₂) (hleaves : Leaves cycle Inside m₁ m₁') :
    ∃ m₂', Leaves cycle Inside m₂ m₂' ∧ Same m₁' m₂' := by
  induction hleaves generalizing m₂ with
  | here houtside =>
    exact ⟨m₂, .here fun hinside => houtside ((h.inside hR).mpr hinside), h.same hR houtside⟩
  | step hstep _ ih =>
    obtain ⟨m₂', hstep₂, hR'⟩ := h.step_right hR hstep
    obtain ⟨m₂'', hleaves, hsame⟩ := ih hR'
    exact ⟨m₂'', .step hstep₂ hleaves, hsame⟩

theorem stays {m₁ m₂ : M} (hR : R m₁ m₂) (hstays : Stays cycle Inside m₁) :
    Stays cycle Inside m₂ := by
  intro m₂' hpath
  have hfollows : ∃ m₁', ReflTransGen (InsideStep cycle Inside) m₁ m₁' ∧ R m₁' m₂' := by
    induction hpath with
    | refl => exact ⟨m₁, .refl, hR⟩
    | tail _ hstep ih =>
      obtain ⟨m₁', hpath₁, hR'⟩ := ih
      obtain ⟨m₁'', hstep₁, hR''⟩ := h.step_left hR' hstep
      exact ⟨m₁'', hpath₁.tail hstep₁, hR''⟩
  obtain ⟨m₁', hpath₁, hR'⟩ := hfollows
  obtain ⟨m₁'', hstep₁⟩ := hstays m₁' hpath₁
  obtain ⟨m₂'', hstep₂, -⟩ := h.step_right hR' hstep₁
  exact ⟨m₂'', hstep₂⟩

/-- Runs in lockstep end alike. -/
theorem endAlike {m₁ m₂ : M} (hR : R m₁ m₂) : EndAlike cycle Inside Same m₁ m₂ := by
  rcases faults_or_stays_or_leaves cycle Inside m₁ with
    ⟨fault, hfaults⟩ | hstays | ⟨m₁', hleaves⟩
  · exact .inl ⟨fault, hfaults, h.faults hR hfaults⟩
  · exact .inr (.inl ⟨hstays, h.stays hR hstays⟩)
  · obtain ⟨m₂', hleaves₂, hsame⟩ := h.leaves hR hleaves
    exact .inr (.inr ⟨m₁', m₂', hleaves, hleaves₂, hsame⟩)

end Lockstep

end Runs

end Stencil
