import Stencil.Proofs.Walk.Step

/-!
# Whole walks

A walk that accepts a body visits every instruction once, in order (`Walk.visit_of_getElem?`). When
the positions of the body are distinct, an entry that was made stays (`Walk.run_entries`) and what is
known at a position stays known (`Walk.run_known`), so that the entries of the finished walk have the
shape of every stack that a branch recorded.
-/

namespace Stencil

/-- Positions of the instructions that take room in a body. -/
def realPositions (instructions : List Instruction) : List Nat :=
  (instructions.filter (!·.op.isPseudo)).map Instruction.position

theorem realPositions_cons_pseudo {i : Instruction} (h : i.op.isPseudo = true)
    (rest : List Instruction) : realPositions (i :: rest) = realPositions rest := by
  simp [realPositions, h]

theorem realPositions_cons_real {i : Instruction} (h : i.op.isPseudo = false)
    (rest : List Instruction) :
    realPositions (i :: rest) = i.position :: realPositions rest := by
  simp [realPositions, h]

theorem realPositions_append (front back : List Instruction) :
    realPositions (front ++ back) = realPositions front ++ realPositions back := by
  simp [realPositions]

/-- Some branch, leave or switch among the instructions goes to `position`. -/
def BranchesTo (instructions : List Instruction) (position : Nat) : Prop :=
  ∃ i ∈ instructions, ∃ targets, i.targets = .ok targets ∧ (position : Int) ∈ targets

theorem branchesTo_cons {i : Instruction} {rest : List Instruction} {p : Nat} :
    BranchesTo (i :: rest) p ↔
      (∃ targets, i.targets = .ok targets ∧ (p : Int) ∈ targets) ∨ BranchesTo rest p := by
  simp [BranchesTo]

namespace Walk

open Stateful

variable {env : WalkEnv} {i : Instruction} {targets : List Int} {step : WalkStep} {w u w' : Walk}

/-! ## What a step keeps -/

theorem Stepped.entered (h : Stepped env i targets step w u w') : Entered i w u :=
  enter_ok h.enter

theorem Stepped.entries_eq (h : Stepped env i targets step w u w') : w'.entries = u.entries :=
  h.recorded.entries

theorem Stepped.mem_targets (h : Stepped env i targets step w u w') (p : Nat) :
    p ∈ w'.targets ↔ p ∈ w.targets ∨ ∃ t ∈ targets, t.toNat = p := by
  rw [← h.entered.targets]
  exact h.recorded.marked p

/-- A step makes no entry but that of its own instruction. -/
theorem Stepped.entries_of_ne (h : Stepped env i targets step w u w') {p : Nat}
    (hp : i.op.isPseudo = false → p ≠ i.position) : w'.entries[p]? = w.entries[p]? := by
  rw [h.entries_eq]
  cases hpseudo : i.op.isPseudo with
  | true => rw [(h.entered.pseudo hpseudo).1]
  | false =>
    have hne : i.position ≠ p := (hp hpseudo).symm
    rw [h.entered.entries hpseudo, Std.TreeMap.getElem?_insert]
    simp [hne]

/-- Entering an instruction that has no entry yet keeps what is known. -/
theorem Entered.known (h : Entered i w u)
    (hfresh : i.op.isPseudo = false → w.entries[i.position]? = none) {p : Nat}
    {stack : OperandStack} (hknown : w.Known p stack) : u.Known p stack := by
  obtain ⟨e, he, halike⟩ := hknown
  cases hpseudo : i.op.isPseudo with
  | true =>
    obtain ⟨hentries, hpending⟩ := h.pseudo hpseudo
    exact ⟨e, by rw [hentries, hpending, he], halike⟩
  | false =>
    by_cases hp : i.position = p
    · subst hp
      -- the only arrival so far is a pending one, and the entry has its shape
      have hpending : w.pending[i.position]? = some e := by
        simpa [hfresh hpseudo] using he
      refine ⟨u.stack, ?_, (h.arrived hpseudo e hpending).symm.trans halike⟩
      simp [h.entries hpseudo]
    · refine ⟨e, ?_, halike⟩
      rw [h.entries hpseudo, h.pending hpseudo, Std.TreeMap.getElem?_insert,
        Std.TreeMap.getElem?_erase]
      simpa [hp] using he

theorem Stepped.known (h : Stepped env i targets step w u w')
    (hfresh : i.op.isPseudo = false → w.entries[i.position]? = none) {p : Nat}
    {stack : OperandStack} (hknown : w.Known p stack) : w'.Known p stack := by
  have hu : Known { u with stack := w'.stack } p stack := h.entered.known hfresh hknown
  exact h.recorded.kept p stack hu

/-- After a step its branches have arrived with the stack that it left. -/
theorem Stepped.known_target (h : Stepped env i targets step w u w') {t : Int}
    (ht : t ∈ targets) : w'.Known t.toNat w'.stack :=
  h.recorded.known t ht

/-! ## What a run keeps -/

/-- No instruction of `rest` has an entry, and no two of them share a position. -/
structure Fresh (w : Walk) (rest : List Instruction) : Prop where
  nodup : (realPositions rest).Nodup
  entries : ∀ p ∈ realPositions rest, w.entries[p]? = none

theorem Fresh.head {rest : List Instruction} (h : Fresh w (i :: rest))
    (hpseudo : i.op.isPseudo = false) : w.entries[i.position]? = none :=
  h.entries _ (by simp [realPositions_cons_real hpseudo])

theorem Stepped.fresh (h : Stepped env i targets step w u w') {rest : List Instruction}
    (hfresh : Fresh w (i :: rest)) : Fresh w' rest := by
  cases hpseudo : i.op.isPseudo with
  | true =>
    obtain ⟨hnodup, hentries⟩ := hfresh
    rw [realPositions_cons_pseudo hpseudo] at hnodup hentries
    refine ⟨hnodup, fun p hp => ?_⟩
    rw [h.entries_of_ne (by simp [hpseudo])]
    exact hentries p hp
  | false =>
    obtain ⟨hnodup, hentries⟩ := hfresh
    rw [realPositions_cons_real hpseudo] at hnodup hentries
    obtain ⟨hnotMem, hnodup⟩ := List.nodup_cons.mp hnodup
    refine ⟨hnodup, fun p hp => ?_⟩
    have hne : p ≠ i.position := by
      rintro rfl
      exact hnotMem hp
    rw [h.entries_of_ne fun _ => hne]
    exact hentries p (List.mem_cons_of_mem _ hp)

section Run

variable {rest : List Instruction} {steps : List WalkStep}

theorem run_fresh {back : List Instruction} (h : rest.mapM (Walk.step env) w = .ok steps w')
    (hfresh : Fresh w (rest ++ back)) : Fresh w' back := by
  induction rest generalizing w steps with
  | nil =>
    obtain ⟨-, rfl⟩ : [] = steps ∧ w = w' := by simpa using h
    exact hfresh
  | cons i rest ih =>
    obtain ⟨_, v, _, hv, hrest, -⟩ := mapM_cons_eq_ok.mp h
    obtain ⟨_, _, hstep⟩ := step_ok hv
    exact ih hrest (hstep.fresh hfresh)

theorem run_known (h : rest.mapM (Walk.step env) w = .ok steps w') (hfresh : Fresh w rest) {p : Nat}
    {stack : OperandStack} (hknown : w.Known p stack) : w'.Known p stack := by
  induction rest generalizing w steps with
  | nil =>
    obtain ⟨-, rfl⟩ : [] = steps ∧ w = w' := by simpa using h
    exact hknown
  | cons i rest ih =>
    obtain ⟨_, v, _, hv, hrest, -⟩ := mapM_cons_eq_ok.mp h
    obtain ⟨_, _, hstep⟩ := step_ok hv
    exact ih hrest (hstep.fresh hfresh) (hstep.known hfresh.head hknown)

/-- An entry at a position that does not come again stays as it is. -/
theorem run_entries (h : rest.mapM (Walk.step env) w = .ok steps w') {p : Nat}
    (hp : p ∉ realPositions rest) : w'.entries[p]? = w.entries[p]? := by
  induction rest generalizing w steps with
  | nil =>
    obtain ⟨-, rfl⟩ : [] = steps ∧ w = w' := by simpa using h
    rfl
  | cons i rest ih =>
    obtain ⟨_, v, _, hv, hrest, -⟩ := mapM_cons_eq_ok.mp h
    obtain ⟨_, _, hstep⟩ := step_ok hv
    have hne : i.op.isPseudo = false → p ≠ i.position := by
      rintro hpseudo rfl
      simp [realPositions_cons_real hpseudo] at hp
    have hrestPositions : p ∉ realPositions rest := by
      intro hmem
      cases hpseudo : i.op.isPseudo with
      | true => exact hp (by rwa [realPositions_cons_pseudo hpseudo])
      | false => exact hp (by simp [realPositions_cons_real hpseudo, hmem])
    rw [ih hrest hrestPositions, hstep.entries_of_ne hne]

/-- The targets of a walk are where the instructions it passed over go. -/
theorem run_targets (h : rest.mapM (Walk.step env) w = .ok steps w') (p : Nat) :
    p ∈ w'.targets ↔ p ∈ w.targets ∨ BranchesTo rest p := by
  induction rest generalizing w steps with
  | nil =>
    obtain ⟨-, rfl⟩ : [] = steps ∧ w = w' := by simpa using h
    simp [BranchesTo]
  | cons i rest ih =>
    obtain ⟨_, v, _, hv, hrest, -⟩ := mapM_cons_eq_ok.mp h
    obtain ⟨targets, u, hstep⟩ := step_ok hv
    have hhead : (∃ t ∈ targets, t.toNat = p) ↔
        ∃ targets, i.targets = .ok targets ∧ (p : Int) ∈ targets := by
      rw [hstep.decoded]
      constructor
      · rintro ⟨t, ht, rfl⟩
        exact ⟨targets, rfl, by rwa [Int.toNat_of_nonneg (hstep.recorded.nonneg t ht)]⟩
      · rintro ⟨_, heq, hp⟩
        obtain rfl := Except.ok.inj heq
        exact ⟨p, hp, Int.toNat_natCast p⟩
    rw [ih hrest, hstep.mem_targets, hhead, branchesTo_cons, or_assoc]

/-- Every branch goes to a position that the walk may go to. -/
theorem run_positions (h : rest.mapM (Walk.step env) w = .ok steps w') {i : Instruction}
    (hi : i ∈ rest) {targets : List Int} (htargets : i.targets = .ok targets) :
    ∀ t ∈ targets, 0 ≤ t ∧ t.toNat ∈ env.positions := by
  induction rest generalizing w steps with
  | nil => cases hi
  | cons j rest ih =>
    obtain ⟨_, v, _, hv, hrest, -⟩ := mapM_cons_eq_ok.mp h
    rcases List.mem_cons.mp hi with rfl | hi
    · obtain ⟨targets', u, hstep⟩ := step_ok hv
      rw [hstep.decoded] at htargets
      obtain rfl := Except.ok.inj htargets
      exact fun t ht => ⟨hstep.recorded.nonneg t ht, hstep.recorded.position t ht⟩
    · exact ih hrest hi

end Run

/-! ## Visits -/

/-- The walk over `instructions` that ends in `final` steps over the `k`-th one, from `w` over the
entry `u` to `w'`. -/
structure Visit (env : WalkEnv) (instructions : List Instruction) (steps : List WalkStep)
    (final : Walk) (k : Nat) (i : Instruction) (targets : List Int) (step : WalkStep)
    (w u w' : Walk) : Prop where
  before : (instructions.take k).mapM (Walk.step env) {} = .ok (steps.take k) w
  reported : steps[k]? = some step
  taken : Walk.step env i w = .ok step w'
  stepped : Stepped env i targets step w u w'
  after : (instructions.drop (k + 1)).mapM (Walk.step env) w' = .ok (steps.drop (k + 1)) final

theorem visit_of_getElem? {instructions : List Instruction} {steps : List WalkStep} {final : Walk}
    (h : instructions.mapM (Walk.step env) {} = .ok steps final) {k : Nat}
    (hi : instructions[k]? = some i) :
    ∃ targets step w u w', Visit env instructions steps final k i targets step w u w' := by
  obtain ⟨hk, rfl⟩ := List.getElem?_eq_some_iff.mp hi
  have hsplit : instructions = instructions.take k ++ instructions[k] :: instructions.drop (k + 1) := by
    rw [List.getElem_cons_drop, List.take_append_drop]
  rw [hsplit] at h
  obtain ⟨front, w, tail, hfront, htail, rfl⟩ := mapM_append_eq_ok.mp h
  obtain ⟨step, w', back, hstep, hback, rfl⟩ := mapM_cons_eq_ok.mp htail
  obtain ⟨targets, u, hstepped⟩ := step_ok hstep
  have hlength : front.length = k := by
    rw [mapM_eq_ok_length hfront, List.length_take]
    omega
  subst hlength
  refine ⟨targets, step, w, u, w', ?_, by simp, hstep, hstepped, ?_⟩
  · simpa using hfront
  · simpa using hback

/-- The walk goes on to the next instruction from where it left this one. -/
theorem Visit.eq_of_next {instructions : List Instruction} {steps : List WalkStep} {final : Walk}
    {k : Nat} {i i' : Instruction} {targets targets' : List Int} {step step' : WalkStep}
    {w u w' v v' v'' : Walk} (hi : instructions[k]? = some i)
    (h : Visit env instructions steps final k i targets step w u w')
    (h' : Visit env instructions steps final (k + 1) i' targets' step' v v' v'') : v = w' := by
  have hrun : (instructions.take k ++ [i]).mapM (Walk.step env) {} =
      .ok (steps.take k ++ [step]) w' :=
    mapM_append_eq_ok.mpr ⟨_, w, [step], h.before,
      mapM_cons_eq_ok.mpr ⟨step, w', [], h.taken, rfl, rfl⟩, rfl⟩
  have hbefore := h'.before
  rw [List.take_add_one, hi, Option.toList_some, hrun] at hbefore
  exact (EStateM.Result.ok.inj hbefore).2.symm

end Walk

end Stencil
