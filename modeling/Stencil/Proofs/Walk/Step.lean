import Stencil.Proofs.Simulation.Shape
import Stencil.Proofs.Stateful
import Stencil.Walk

/-!
# What one step of the walk does

`Walk.enter_ok`, `Walk.record_ok` and `Walk.step_ok` say everything a successful step can have done
to the walk. The rest of the theory reaches the walk through them.

A stack is known at a position (`Walk.Known`) once a branch or the walk itself arrived there with a
stack of the same shape. Steps over other positions keep what is known.
-/

namespace Stencil.Walk

open Stateful

/-- Some arrival at `position` is recorded, and its stack has the shape of `stack`. -/
def Known (w : Walk) (position : Nat) (stack : OperandStack) : Prop :=
  ∃ e, (w.entries[position]? <|> w.pending[position]?) = some e ∧ AlikeItems e stack

/-- What entering `i` does to the maps of the walk: a real instruction moves its position from the
pending ones to the entries, and the stack has the shape that branches arrived with. -/
structure Entered (i : Instruction) (w u : Walk) : Prop where
  reachable : u.unreachable = false
  targets : u.targets = w.targets
  stack : w.unreachable = false → u.stack = w.stack
  source : u.stack = w.stack ∨ u.stack = [] ∨ w.pending[i.position]? = some u.stack
  restarts : w.unreachable = true →
    u.stack = [] ∨ i.op.isPseudo = false ∧ w.pending[i.position]? = some u.stack
  pseudo : i.op.isPseudo = true → u.entries = w.entries ∧ u.pending = w.pending
  entries : i.op.isPseudo = false → u.entries = w.entries.insert i.position u.stack
  pending : i.op.isPseudo = false → u.pending = w.pending.erase i.position
  arrived : i.op.isPseudo = false → ∀ e, w.pending[i.position]? = some e → AlikeItems e u.stack

theorem enter_ok {i : Instruction} {w u : Walk} (h : enter i w = .ok () u) : Entered i w u := by
  simp only [enter, bind_apply, get_apply] at h
  split at h
  case isTrue hp =>
    split at h
    all_goals
      simp only [set_apply, pure_apply, EStateM.Result.ok.injEq, true_and] at h
      subst h
      constructor <;> simp_all
  case isFalse hp =>
    split at h
    case isTrue hu =>
      simp only [set_apply, EStateM.Result.ok.injEq, true_and] at h
      subst h
      refine ⟨rfl, rfl, by simp [hu], ?_, fun _ => ?_, by simp [hp], fun _ => rfl, fun _ => rfl,
        fun _ e he => ?_⟩
      · dsimp only
        cases w.pending[i.position]? with
        | none => exact .inr (.inl rfl)
        | some e => exact .inr (.inr rfl)
      · dsimp only
        cases w.pending[i.position]? with
        | none => exact .inl rfl
        | some e => exact .inr ⟨Bool.eq_false_iff.mpr hp, rfl⟩
      · dsimp only
        rw [he]
        exact .refl e
    case isFalse hu =>
      have hmerge : ∀ e, w.pending[i.position]? = some e → AlikeItems e w.stack := by
        intro e he
        rw [he] at h
        simp only at h
        split at h
        · simp [bind_apply] at h
        · exact OperandStack.sameShape_iff.mp (by simp_all)
      have hset : u = { w with
          pending := w.pending.erase i.position
          entries := w.entries.insert i.position w.stack } := by
        cases he : w.pending[i.position]? with
        | none => simp_all
        | some e =>
          have hshape := OperandStack.sameShape_iff.mpr (hmerge e he)
          simp_all
      subst hset
      exact ⟨by simpa using hu, rfl, fun _ => rfl, .inl rfl, fun h => absurd h hu, by simp [hp], fun _ => rfl,
        fun _ => rfl, fun _ => hmerge⟩

/-- What recording a branch to `target` does: the position is one of the body's, and from now on
the present stack is known there. -/
structure Recorded (env : WalkEnv) (target : Int) (w u : Walk) : Prop where
  nonneg : 0 ≤ target
  position : target.toNat ∈ env.positions
  stack : u.stack = w.stack
  entries : u.entries = w.entries
  reachable : u.unreachable = w.unreachable
  targets : u.targets = w.targets.insert target.toNat
  pending : ∀ (p : Nat) stack, u.pending[p]? = some stack →
    w.pending[p]? = some stack ∨ target.toNat = p ∧ stack = w.stack
  known : u.Known target.toNat w.stack
  kept : ∀ position stack, w.Known position stack → u.Known position stack

theorem record_ok {env : WalkEnv} {i : Instruction} {target : Int} {w u : Walk}
    (h : record env i target w = .ok () u) : Recorded env target w u := by
  unfold record at h
  split at h
  · simp [bind_apply] at h
  · rename_i hpos
    simp only [bind_apply, modify_apply, get_apply] at h
    have hposition : 0 ≤ target ∧ target.toNat ∈ env.positions := by
      rw [not_or, Int.not_lt] at hpos
      exact ⟨hpos.1, Std.TreeSet.mem_iff_contains.mpr (by simpa using hpos.2)⟩
    cases hknown : w.entries[target.toNat]? <|> w.pending[target.toNat]? with
    | some e =>
      simp only [hknown] at h
      split at h
      · simp at h
      · rename_i hshape
        simp only [pure_apply, EStateM.Result.ok.injEq, true_and] at h
        subst h
        refine ⟨hposition.1, hposition.2, rfl, rfl, rfl, rfl, fun _ _ h => .inl h, ⟨e, hknown, ?_⟩,
          fun _ _ h => h⟩
        exact OperandStack.sameShape_iff.mp (by simpa using hshape)
    | none =>
      simp only [hknown, set_apply, EStateM.Result.ok.injEq, true_and] at h
      subst h
      have hnone : w.entries[target.toNat]? = none ∧ w.pending[target.toNat]? = none := by
        cases he : w.entries[target.toNat]? <;> simp_all
      refine ⟨hposition.1, hposition.2, rfl, rfl, rfl, rfl, fun p stack hp => ?_,
        ⟨w.stack, ?_, .refl _⟩, ?_⟩
      · rw [Std.TreeMap.getElem?_insert] at hp
        split at hp
        · rename_i heq
          exact .inr ⟨Nat.compare_eq_eq.mp heq, (Option.some.inj hp).symm⟩
        · exact .inl hp
      · simp [hnone.1]
      · rintro position stack ⟨e, he, halike⟩
        refine ⟨e, ?_, halike⟩
        -- nothing was known at the target, so another position is meant
        have hne : target.toNat ≠ position := by
          rintro rfl
          rw [hknown] at he
          cases he
        simpa [Std.TreeMap.getElem?_insert, hne] using he

/-- What recording several branches of one instruction does. -/
structure RecordedAll (env : WalkEnv) (targets : List Int) (w u : Walk) : Prop where
  nonneg : ∀ t ∈ targets, 0 ≤ t
  position : ∀ t ∈ targets, t.toNat ∈ env.positions
  stack : u.stack = w.stack
  entries : u.entries = w.entries
  reachable : u.unreachable = w.unreachable
  marked : ∀ p, p ∈ u.targets ↔ p ∈ w.targets ∨ ∃ t ∈ targets, t.toNat = p
  pending : ∀ (p : Nat) stack, u.pending[p]? = some stack →
    w.pending[p]? = some stack ∨ (∃ t ∈ targets, t.toNat = p) ∧ stack = w.stack
  known : ∀ t ∈ targets, u.Known t.toNat w.stack
  kept : ∀ position stack, w.Known position stack → u.Known position stack

theorem forM_record_ok {env : WalkEnv} {i : Instruction} {targets : List Int} {w u : Walk}
    (h : targets.forM (record env i) w = .ok () u) : RecordedAll env targets w u := by
  induction targets generalizing w with
  | nil =>
    obtain rfl : w = u := by simpa using h
    refine ⟨by simp, by simp, rfl, rfl, rfl, by simp, fun _ _ h => .inl h, by simp, fun _ _ h => h⟩
  | cons t targets ih =>
    obtain ⟨v, hv, hu⟩ := forM_cons_eq_ok.mp h
    have hfirst := record_ok hv
    have hrest := ih hu
    refine ⟨?_, ?_, hrest.stack.trans hfirst.stack, hrest.entries.trans hfirst.entries,
      hrest.reachable.trans hfirst.reachable, fun p => ?_, fun p stack hp => ?_, ?_,
      fun _ _ hk => hrest.kept _ _ (hfirst.kept _ _ hk)⟩
    · simpa using ⟨hfirst.nonneg, hrest.nonneg⟩
    · simpa using ⟨hfirst.position, hrest.position⟩
    · rw [hrest.marked, hfirst.targets, Std.TreeSet.mem_insert]
      simp [or_assoc, or_left_comm]
    · rcases hrest.pending p stack hp with hp | ⟨⟨t', ht', htp⟩, hstack⟩
      · rcases hfirst.pending p stack hp with hp | ⟨htp, hstack⟩
        · exact .inl hp
        · exact .inr ⟨⟨t, List.mem_cons_self, htp⟩, hstack⟩
      · exact .inr ⟨⟨t', List.mem_cons_of_mem _ ht', htp⟩, hstack.trans hfirst.stack⟩
    · rw [List.forall_mem_cons]
      exact ⟨hrest.kept _ _ hfirst.known, fun t ht => hfirst.stack ▸ hrest.known t ht⟩

/-- What a step over `i` does: the walk enters `i` in the state `u`, simulates it on the stack it
entered with, records the branches with the stack that is left, and notes whether control falls
through. -/
structure Stepped (env : WalkEnv) (i : Instruction) (targets : List Int) (step : WalkStep)
    (w u w' : Walk) : Prop where
  enter : enter i w = .ok () u
  height : step.entryHeight = u.stack.height
  simulate : simulate env.toSimEnv i u.stack = .ok step.effect w'.stack
  decoded : i.targets = .ok targets
  recorded : RecordedAll env targets { u with stack := w'.stack } { w' with unreachable := false }
  unreachable : w'.unreachable = i.op.endsFlow

theorem step_ok {env : WalkEnv} {i : Instruction} {step : WalkStep} {w w' : Walk}
    (h : Walk.step env i w = .ok step w') : ∃ targets u, Stepped env i targets step w u w' := by
  unfold Walk.step at h
  obtain ⟨⟨⟩, u, henter, h⟩ := bind_eq_ok.mp h
  obtain ⟨_, _, hget, h⟩ := bind_eq_ok.mp h
  simp only [get_apply, EStateM.Result.ok.injEq] at hget
  obtain ⟨rfl, rfl⟩ := hget
  obtain ⟨effect, v, hsim, h⟩ := bind_eq_ok.mp h
  have hv : simulate env.toSimEnv i u.stack = .ok effect v.stack ∧ v = { u with stack := v.stack } := by
    unfold simulateHere at hsim
    split at hsim
    · rename_i hs
      simp only [EStateM.Result.ok.injEq] at hsim
      obtain ⟨rfl, rfl⟩ := hsim
      exact ⟨hs, rfl⟩
    · cases hsim
  cases htargets : i.targets with
  | error e => simp [htargets, bind_apply] at h
  | ok targets =>
    simp only [htargets] at h
    obtain ⟨⟨⟩, x, hrecord, h⟩ := bind_eq_ok.mp h
    have hrec := forM_record_ok hrecord
    have hreach : x.unreachable = false := by
      rw [hrec.reachable, hv.2]
      exact (enter_ok henter).reachable
    have hrec' : RecordedAll env targets { u with stack := x.stack } { x with unreachable := false } := by
      have hx : { x with unreachable := false } = x := by rw [← hreach]
      have hu : { u with stack := x.stack } = v := by rw [hrec.stack, ← hv.2]
      rw [hx, hu]
      exact hrec
    have hsim' : simulate env.toSimEnv i u.stack = .ok effect x.stack := by rw [hv.1, hrec.stack]
    refine ⟨targets, u, ?_⟩
    split at h
    · rename_i hflow
      simp only [bind_apply, modify_apply, pure_apply, EStateM.Result.ok.injEq] at h
      obtain ⟨rfl, rfl⟩ := h
      exact ⟨henter, rfl, hsim', htargets, hrec', hflow.symm⟩
    · rename_i hflow
      simp only [pure_apply, EStateM.Result.ok.injEq] at h
      obtain ⟨rfl, rfl⟩ := h
      exact ⟨henter, rfl, hsim', htargets, hrec', by rw [hreach]; simpa using hflow⟩

end Stencil.Walk
