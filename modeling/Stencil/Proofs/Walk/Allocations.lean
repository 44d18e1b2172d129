import Stencil.Proofs.Simulation.Fresh
import Stencil.Proofs.Walk.Soundness

/-!
# Allocations on the ways through a body

The walk enters every instruction with the stack of one way that leads there, the way over the instruction
before it or over the first branch to it (`Walk.Visit.carried`). So where the stack of the walk has an item
that is flagged as fresh, an allocation on that way has pushed it, and nothing has touched it since
(`Carried.delivered`). Where ways meet, stacks are compared by their shapes alone, and another way may lead
there with something else.
-/

namespace Stencil

open Stateful

/-! ## Ways -/

section Ways

variable (env : SimEnv) (instructions : List Instruction)

/-- Some way that begins with the empty stack arrives at index `k` with this one. -/
inductive Carried : Nat → OperandStack → Prop
  | start {k : Nat} : Carried k []
  | step {k k' : Nat} {i : Instruction} {stack stack' : OperandStack} {e : Effect} (h : Carried k stack)
      (hi : instructions[k]? = some i) (hsimulate : simulate env i stack = .ok e stack')
      (hedge : FlowEdge instructions k k') : Carried k' stack'

/-- On some way to index `k` an allocation has pushed the item on `below`, and from there on only what lies
above was popped. -/
inductive Delivered (item : StackItem) (below : OperandStack) : Nat → OperandStack → Prop
  | allocated {k k' : Nat} {i : Instruction} {stack : OperandStack} {e : Effect}
      (h : Carried env instructions k stack) (hi : instructions[k]? = some i)
      (hop : i.op.operation.allocates = true) (hsimulate : simulate env i stack = .ok e (item :: below))
      (hpushed : e.pushed = [item]) (hedge : FlowEdge instructions k k') : Delivered item below k' []
  | step {k k' : Nat} {i : Instruction} {above above' : OperandStack} {e : Effect}
      (h : Delivered item below k above) (hi : instructions[k]? = some i)
      (hsimulate : simulate env i (above ++ item :: below) = .ok e (above' ++ item :: below))
      (huntouched : e.popped.length ≤ above.length) (hedge : FlowEdge instructions k k') :
      Delivered item below k' above'

variable {env instructions}

theorem Exchange.pushed_of_allocates {i : Instruction} {stack stack' : OperandStack} {e : Effect}
    (h : Exchange env i stack e stack') (hop : i.op.operation.allocates = true) : ∃ item, e.pushed = [item] := by
  have hsizes := h.sizes
  have hone : ∀ {popped : List Nat} {n : Nat}, e.Sizes popped [n] → ∃ item, e.pushed = [item] := fun h =>
    List.length_eq_one_iff.mp (by rw [← List.length_map (f := StackItem.size), h.pushed, List.length_singleton])
  generalize i.op.operation = op at hop hsizes
  cases op with
  | newArray => exact hone hsizes
  | newObject =>
    obtain ⟨ctor, declaring, -, -, hsizes⟩ := hsizes
    split at hsizes
    · exact hone hsizes
    · obtain ⟨items, -, hsizes⟩ := hsizes
      exact hone hsizes
  | _ => cases hop

/-- A fresh item that a way carries was delivered on it. -/
theorem Carried.delivered {k : Nat} {stack : OperandStack} (h : Carried env instructions k stack)
    {above below : OperandStack} {item : StackItem} (hstack : stack = above ++ item :: below)
    (hfresh : item.isNew = true) : Delivered env instructions item below k above := by
  induction h generalizing above with
  | start => cases above <;> cases hstack
  | @step k k' i before after e hcarried hi hsimulate hedge ih =>
    have hexchange := simulate_exchange hsimulate
    obtain ⟨rest, hbefore, hafter⟩ := hexchange.below
    rw [hafter] at hstack
    -- the item lay below everything that was pushed
    have hlay : ∀ kept, above = e.pushed.reverse ++ kept → rest = kept ++ item :: below →
        Delivered env instructions item below k' above := by
      rintro kept rfl hrest
      have hbefore' : before = (e.popped ++ kept) ++ item :: below := by
        rw [hbefore, hrest, List.append_assoc]
      rw [hbefore', hafter, hstack] at hsimulate
      exact .step (ih hbefore') hi hsimulate (by rw [List.length_append]; omega) hedge
    rcases List.append_eq_append_iff.mp hstack with ⟨kept, habove, hrest⟩ | ⟨new, hpushed, hrest⟩
    · exact hlay kept habove hrest
    cases new with
    | nil => exact hlay [] (by rw [hpushed, List.append_nil, List.append_nil]) hrest.symm
    | cons top new =>
      obtain ⟨rfl, hbelow⟩ := List.cons.inj hrest
      have hmem : item ∈ e.pushed := by
        rw [← List.mem_reverse, hpushed]
        exact List.mem_append_right _ List.mem_cons_self
      have hop : i.op.operation.allocates = true := by
        by_contra hnot
        cases hfresh.symm.trans (simulate_settled (Bool.eq_false_iff.mpr hnot) hsimulate item hmem)
      obtain ⟨pushed, hone⟩ := hexchange.pushed_of_allocates hop
      rw [hone, List.mem_singleton] at hmem
      subst hmem
      rw [hone] at hpushed
      obtain ⟨rfl, hnew⟩ : above = [] ∧ new = [] := by
        cases above with
        | nil => exact ⟨rfl, (List.cons.inj hpushed).2.symm⟩
        | cons _ above => cases above <;> simp at hpushed
      subst hnew
      obtain rfl : below = rest := hbelow
      rw [hafter, hone] at hsimulate
      exact .allocated hcarried hi hop hsimulate hone hedge

end Ways

/-! ## The way of the walk -/

namespace Walk

variable {env : WalkEnv} {instructions : List Instruction} {k : Nat} {i : Instruction} {targets : List Int}
  {step : WalkStep} {w u w' : Walk}

/-- Ways carry the present stack to index `k`, and those that wait to where they wait. -/
structure OnWays (env : WalkEnv) (instructions : List Instruction) (k : Nat) (w : Walk) : Prop where
  stack : w.unreachable = false → Carried env.toSimEnv instructions k w.stack
  pending : ∀ (k' : Nat) i' (stack : OperandStack), instructions[k']? = some i' → i'.op.isPseudo = false →
    w.pending[i'.position]? = some stack → Carried env.toSimEnv instructions k' stack

theorem Entered.onWays (h : Entered i w u) (hi : instructions[k]? = some i) (hw : w.OnWays env instructions k) :
    u.OnWays env instructions k where
  stack _ := by
    cases hunreachable : w.unreachable with
    | false =>
      rw [h.stack hunreachable]
      exact hw.stack hunreachable
    | true =>
      rcases h.restarts hunreachable with hstack | ⟨hreal, hstack⟩
      · rw [hstack]
        exact .start
      · exact hw.pending k i _ hi hreal hstack
  pending k' i' stack hi' hreal hstack := by
    refine hw.pending k' i' stack hi' hreal ?_
    cases hpseudo : i.op.isPseudo with
    | true => rwa [(h.pseudo hpseudo).2] at hstack
    | false =>
      rw [h.pending hpseudo, Std.TreeMap.getElem?_erase] at hstack
      split at hstack
      · cases hstack
      · exact hstack

theorem Stepped.onWays (h : Stepped env i targets step w u w') (hi : instructions[k]? = some i)
    (hw : w.OnWays env instructions k) : w'.OnWays env instructions (k + 1) := by
  have hu := h.entered.onWays hi hw
  have hcarried := hu.stack h.entered.reachable
  refine ⟨fun hreachable => .step hcarried hi h.simulate (.next hi (h.unreachable ▸ hreachable)), ?_⟩
  intro k' i' stack hi' hreal hstack
  rcases h.recorded.pending _ _ hstack with hwaited | ⟨⟨t, ht, hposition⟩, rfl⟩
  · exact hu.pending k' i' stack hi' hreal hwaited
  · have hmem : (i'.position : Int) ∈ targets := by
      rw [← hposition, Int.toNat_of_nonneg (h.recorded.nonneg t ht)]
      exact ht
    exact .step hcarried hi h.simulate (.jump hi h.decoded hi' hreal hmem)

theorem run_onWays (front : List Instruction) {rest back : List Instruction} {steps : List WalkStep}
    (hsplit : instructions = front ++ (rest ++ back)) (h : rest.mapM (Walk.step env) w = .ok steps w')
    (hw : w.OnWays env instructions front.length) : w'.OnWays env instructions (front.length + rest.length) := by
  induction rest generalizing front w steps with
  | nil =>
    obtain ⟨-, rfl⟩ : [] = steps ∧ w = w' := by simpa using h
    exact hw
  | cons i rest ih =>
    obtain ⟨_, v, _, hv, hrest, -⟩ := mapM_cons_eq_ok.mp h
    obtain ⟨_, _, hstep⟩ := step_ok hv
    have hi : instructions[front.length]? = some i := by
      rw [hsplit, List.cons_append, List.getElem?_append_right (Nat.le_refl _), Nat.sub_self]
      rfl
    have hv' := ih (front ++ [i]) (by rw [hsplit, List.append_assoc]; rfl) hrest
      (by rw [List.length_append]; exact hstep.onWays hi hw)
    rw [List.length_append, List.length_singleton] at hv'
    rwa [List.length_cons, Nat.add_comm rest.length 1, ← Nat.add_assoc]

/-- Some way carries the stack of the walk to every instruction. -/
theorem Visit.carried {steps : List WalkStep} {final : Walk}
    (h : Visit env instructions steps final k i targets step w u w') (hi : instructions[k]? = some i) :
    Carried env.toSimEnv instructions k u.stack := by
  have hstart : ({} : Walk).OnWays env instructions ([] : List Instruction).length :=
    ⟨fun _ => .start, fun _ _ _ _ _ hstack => by simp at hstack⟩
  have hw := run_onWays [] (List.take_append_drop k instructions).symm h.before hstart
  have hk : k ≤ instructions.length := Nat.le_of_lt (List.getElem?_eq_some_iff.mp hi).1
  rw [List.length_nil, Nat.zero_add, List.length_take_of_le hk] at hw
  exact (h.stepped.entered.onWays hi hw).stack h.stepped.entered.reachable

end Walk

end Stencil
