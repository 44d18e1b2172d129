import Stencil.Proofs.Simulation.Fresh
import Stencil.Proofs.Walk.Run

/-!
# The walk is sound for every path

The walk visits each instruction once, in program order. Execution may take any path of fall-through
and branch edges. On every such path the simulation succeeds, and at each instruction it has a stack
of the same shape as the walk had there, so the heights and sizes that the walk reports are those of
every execution.
-/

namespace Stencil

/-- Control may go from the `k`-th instruction to the `k'`-th one. -/
inductive FlowEdge (instructions : List Instruction) : Nat → Nat → Prop
  | next {k : Nat} {i : Instruction} (hi : instructions[k]? = some i)
      (hflow : i.op.endsFlow = false) : FlowEdge instructions k (k + 1)
  | jump {k k' : Nat} {i i' : Instruction} {targets : List Int}
      (hi : instructions[k]? = some i) (htargets : i.targets = .ok targets)
      (hi' : instructions[k']? = some i') (hreal : i'.op.isPseudo = false)
      (hmem : (i'.position : Int) ∈ targets) : FlowEdge instructions k k'

/-- A path from the first instruction that has passed over `visited` and arrives at index `k`. -/
inductive FlowPath (instructions : List Instruction) : List Instruction → Nat → Prop
  | start : FlowPath instructions [] 0
  | step {visited : List Instruction} {k k' : Nat} {i : Instruction}
      (hpath : FlowPath instructions visited k) (hi : instructions[k]? = some i)
      (hedge : FlowEdge instructions k k') : FlowPath instructions (visited ++ [i]) k'

/-- The stack after simulating `visited` one after another. -/
def simulatePath (env : SimEnv) :
    OperandStack → List Instruction → Except CompileError OperandStack
  | stack, [] => .ok stack
  | stack, i :: rest =>
    match simulate env i stack with
    | .ok _ stack => simulatePath env stack rest
    | .error e _ => .error e

/-- The stack that the walk over `instructions` has once it entered the `k`-th one. -/
def Walk.stackAt? (env : WalkEnv) (instructions : List Instruction) (k : Nat) :
    Option OperandStack :=
  match instructions[k]?, (instructions.take k).mapM (Walk.step env) {} with
  | some i, .ok _ w =>
    match Walk.enter i w with
    | .ok _ u => some u.stack
    | .error _ _ => none
  | _, _ => none

theorem simulatePath_concat {env : SimEnv} {stack after stack' : OperandStack}
    {visited : List Instruction} {i : Instruction} {effect : Effect}
    (h : simulatePath env stack visited = .ok after)
    (hi : simulate env i after = .ok effect stack') :
    simulatePath env stack (visited ++ [i]) = .ok stack' := by
  induction visited generalizing stack with
  | nil =>
    obtain rfl : stack = after := by simpa [simulatePath] using h
    simp [simulatePath, hi]
  | cons j visited ih =>
    simp only [simulatePath, List.cons_append] at h ⊢
    cases hj : simulate env j stack with
    | error e t => simp [hj] at h
    | ok e t =>
      rw [hj] at h
      exact ih h

namespace Walk

variable {env : WalkEnv} {instructions : List Instruction} {steps : List WalkStep} {final : Walk}

section Visit

variable {k : Nat} {i : Instruction} {targets : List Int} {step : WalkStep} {w u w' : Walk}

theorem Visit.stackAt? (hi : instructions[k]? = some i)
    (h : Visit env instructions steps final k i targets step w u w') :
    stackAt? env instructions k = some u.stack := by
  simp only [Walk.stackAt?, hi, h.before, h.stepped.enter]

theorem realPositions_split (hi : instructions[k]? = some i) (hreal : i.op.isPseudo = false) :
    realPositions instructions = realPositions (instructions.take k) ++
      i.position :: realPositions (instructions.drop (k + 1)) := by
  obtain ⟨hk, rfl⟩ := List.getElem?_eq_some_iff.mp hi
  rw [← realPositions_cons_real hreal, ← realPositions_append, List.getElem_cons_drop,
    List.take_append_drop]

/-- The finished walk has the entry that the visit of `i` made. -/
theorem Visit.final_entry (h : Visit env instructions steps final k i targets step w u w')
    (hi : instructions[k]? = some i) (hreal : i.op.isPseudo = false)
    (hnodup : (realPositions instructions).Nodup) :
    final.entries[i.position]? = some u.stack := by
  have hlast : i.position ∉ realPositions (instructions.drop (k + 1)) := by
    rw [realPositions_split hi hreal] at hnodup
    exact (List.nodup_cons.mp (List.nodup_append.mp hnodup).2.1).1
  rw [run_entries h.after hlast, h.stepped.entries_eq, h.stepped.entered.entries hreal]
  simp

/-- What is known after the visit of `i` is still known when the walk is finished. -/
theorem Visit.final_known (h : Visit env instructions steps final k i targets step w u w')
    (hi : instructions[k]? = some i) (hnodup : (realPositions instructions).Nodup) {p : Nat}
    {stack : OperandStack} (hknown : w'.Known p stack) : final.Known p stack := by
  have hsplit : instructions.take k ++ i :: instructions.drop (k + 1) = instructions := by
    obtain ⟨hk, rfl⟩ := List.getElem?_eq_some_iff.mp hi
    rw [List.getElem_cons_drop, List.take_append_drop]
  have hstart : Fresh {} (instructions.take k ++ i :: instructions.drop (k + 1)) := by
    rw [hsplit]
    exact ⟨hnodup, by simp⟩
  have hfresh : Fresh w (i :: instructions.drop (k + 1)) := run_fresh h.before hstart
  exact run_known h.after (h.stepped.fresh hfresh) hknown

end Visit

/-- The stack that the walk enters the other end of an edge with has the shape of the one that it
left this end with. -/
theorem edge_alike (hwalk : instructions.mapM (Walk.step env) {} = .ok steps final)
    (hnodup : (realPositions instructions).Nodup) {k k' : Nat} (hedge : FlowEdge instructions k k')
    {i : Instruction} (hi : instructions[k]? = some i) {targets : List Int} {step : WalkStep}
    {w u w' : Walk} (hvisit : Visit env instructions steps final k i targets step w u w')
    {entry : OperandStack} (hentry : stackAt? env instructions k' = some entry) :
    AlikeItems entry w'.stack := by
  obtain ⟨i', hi'⟩ : ∃ i', instructions[k']? = some i' := by
    cases h : instructions[k']? with
    | none => simp [stackAt?, h] at hentry
    | some i' => exact ⟨i', rfl⟩
  obtain ⟨targets', step', v, v', v'', hvisit'⟩ := visit_of_getElem? hwalk hi'
  obtain rfl : v'.stack = entry := by
    have hat := hvisit'.stackAt? hi'
    rw [hentry] at hat
    exact (Option.some.inj hat).symm
  cases hedge with
  | next hj hflow =>
    obtain rfl := Option.some.inj (hi.symm.trans hj)
    -- the walk itself goes on from `i` to the next instruction
    have hnext : v = w' := hvisit.eq_of_next hi hvisit'
    have hreach : v.unreachable = false := by rw [hnext, hvisit.stepped.unreachable, hflow]
    rw [hvisit'.stepped.entered.stack hreach, hnext]
    exact .refl _
  | jump hj htargets hi'' hreal hmem =>
    obtain rfl := Option.some.inj (hi.symm.trans hj)
    obtain rfl := Option.some.inj (hi'.symm.trans hi'')
    rw [hvisit.stepped.decoded] at htargets
    obtain rfl := Except.ok.inj htargets
    have hknown := hvisit.final_known hi hnodup (hvisit.stepped.known_target hmem)
    obtain ⟨e, he, halike⟩ := hknown
    rw [Int.toNat_natCast, hvisit'.final_entry hi' hreal hnodup] at he
    obtain rfl : v'.stack = e := by simpa using he
    exact halike

end Walk

/-- The simulation of a path arrives at index `k` with `stack`, as the walk did. -/
def Arrives (env : WalkEnv) (instructions : List Instruction) (k : Nat) (stack : OperandStack) :
    Prop :=
  ∀ entry, Walk.stackAt? env instructions k = some entry → AlikeItems entry stack

theorem arrives_start (env : WalkEnv) (instructions : List Instruction) :
    Arrives env instructions 0 [] := by
  intro entry hentry
  cases instructions with
  | nil => simp [Walk.stackAt?] at hentry
  | cons i rest =>
    simp only [Walk.stackAt?, List.getElem?_cons_zero, List.take_zero, List.mapM_nil,
      Stateful.pure_apply] at hentry
    cases henter : Walk.enter i {} with
    | error e u => simp [henter] at hentry
    | ok _ u =>
      obtain rfl : u.stack = entry := by simpa [henter] using hentry
      rw [(Walk.enter_ok henter).stack rfl]
      exact .nil

section Path

variable {env : WalkEnv} {instructions : List Instruction} {steps : List WalkStep} {final : Walk}

/-- One edge further, the simulation succeeds and arrives as the walk did. -/
theorem arrives_step (hwalk : instructions.mapM (Walk.step env) {} = .ok steps final)
    (hnodup : (realPositions instructions).Nodup) {k k' : Nat} {i : Instruction}
    {stack : OperandStack} (harrives : Arrives env instructions k stack)
    (hi : instructions[k]? = some i) (hedge : FlowEdge instructions k k') :
    ∃ effect stack', simulate env.toSimEnv i stack = .ok effect stack' ∧
      Arrives env instructions k' stack' := by
  obtain ⟨targets, step, w, u, w', hvisit⟩ := Walk.visit_of_getElem? hwalk hi
  have halike : AlikeItems u.stack stack := harrives _ (hvisit.stackAt? hi)
  obtain ⟨effect, stack', hsim, hafter, -, -⟩ :=
    simulate_ok_of_alike halike hvisit.stepped.simulate
  refine ⟨effect, stack', hsim, fun entry hentry => ?_⟩
  exact (Walk.edge_alike hwalk hnodup hedge hi hvisit hentry).trans hafter

theorem arrives_path (hwalk : instructions.mapM (Walk.step env) {} = .ok steps final)
    (hnodup : (realPositions instructions).Nodup) {visited : List Instruction} {k : Nat}
    (hpath : FlowPath instructions visited k) :
    ∃ stack, simulatePath env.toSimEnv [] visited = .ok stack ∧
      Arrives env instructions k stack := by
  induction hpath with
  | start => exact ⟨[], rfl, arrives_start env instructions⟩
  | step hpath hi hedge ih =>
    obtain ⟨stack, hsim, harrives⟩ := ih
    obtain ⟨effect, stack', hstep, harrives'⟩ := arrives_step hwalk hnodup harrives hi hedge
    exact ⟨stack', simulatePath_concat hsim hstep, harrives'⟩

end Path

/-- On every path through a body that the walk accepts, the simulation succeeds. At each instruction
it arrives with a stack of the shape and height that the walk had there, and it pops and pushes items
of the sizes that the walk reports. -/
theorem walk_sound_on_paths {env : SimEnv} {instructions : List Instruction}
    {steps : List WalkStep} {targets : Std.TreeSet Nat}
    (hnodup : (realPositions instructions).Nodup)
    (hwalk : walk env instructions = .ok (steps, targets)) {visited : List Instruction} {k : Nat}
    (hpath : FlowPath instructions visited k) :
    ∃ stack, simulatePath env [] visited = .ok stack ∧
      ∀ i, instructions[k]? = some i →
        ∃ entry step effect stack',
          Walk.stackAt? (env.forWalk instructions) instructions k = some entry ∧
          steps[k]? = some step ∧
          entry.sameShape stack = true ∧
          stack.height = step.entryHeight ∧
          simulate env i stack = .ok effect stack' ∧
          effect.popped.map StackItem.size = step.effect.popped.map StackItem.size ∧
          effect.pushed.map StackItem.size = step.effect.pushed.map StackItem.size := by
  obtain ⟨final, hrun⟩ : ∃ final,
      instructions.mapM (Walk.step (env.forWalk instructions)) {} = .ok steps final := by
    unfold walk at hwalk
    split at hwalk
    · rename_i steps' final hrun
      simp only [Except.ok.injEq, Prod.mk.injEq] at hwalk
      exact ⟨final, hwalk.1 ▸ hrun⟩
    · cases hwalk
  obtain ⟨stack, hsim, harrives⟩ := arrives_path hrun hnodup hpath
  refine ⟨stack, hsim, fun i hi => ?_⟩
  obtain ⟨targets', step, w, u, w', hvisit⟩ := Walk.visit_of_getElem? hrun hi
  have hentry := hvisit.stackAt? hi
  have halike : AlikeItems u.stack stack := harrives _ hentry
  obtain ⟨effect, stack', hstep, -, hpopped, hpushed⟩ :=
    simulate_ok_of_alike halike hvisit.stepped.simulate
  refine ⟨u.stack, step, effect, stack', hentry, hvisit.reported,
    OperandStack.sameShape_iff.mpr halike, ?_, hstep, hpopped, hpushed⟩
  rw [hvisit.stepped.height]
  exact halike.height_eq.symm

/-- A loop: the constant at position zero is pushed again while it is not zero. -/
def loopBody : List Instruction :=
  [.placed 0 .ldcI41 [], .placed 1 .brtrueS [0xFD], .placed 3 .ret []]

/-- The environment of a method without arguments, locals and result. -/
def bareEnv : SimEnv :=
  { tables := {}, pointerSize := 4
    frame := { args := [], locals := [], returnItem := none, argBytes := 0, localBytes := 0 } }

/-- Once round the loop and back at its head. -/
theorem walk_sound_on_paths_loop :
    (realPositions loopBody).Nodup ∧ FlowPath loopBody (loopBody.take 2) 0 ∧
      ∃ steps targets, walk bareEnv loopBody = .ok (steps, targets) ∧
        ∃ stack, simulatePath bareEnv [] (loopBody.take 2) = .ok stack ∧
          ∀ i, loopBody[0]? = some i → ∃ step, steps[0]? = some step ∧
            stack.height = step.entryHeight := by
  have hnodup : (realPositions loopBody).Nodup := by decide
  have hpath : FlowPath loopBody (loopBody.take 2) 0 :=
    .step (.step .start rfl (.next rfl rfl)) rfl (.jump rfl rfl rfl rfl (by decide))
  obtain ⟨⟨steps, targets⟩, hwalk⟩ : ∃ r, walk bareEnv loopBody = .ok r := ⟨_, rfl⟩
  obtain ⟨stack, hsim, hstack⟩ := walk_sound_on_paths hnodup hwalk hpath
  refine ⟨hnodup, hpath, steps, targets, hwalk, stack, hsim, fun i hi => ?_⟩
  obtain ⟨_, step, _, _, -, hstep, -, hheight, -⟩ := hstack i hi
  exact ⟨step, hstep, hheight⟩

open Stateful

/-! ## Items that a walk meets

What the simulation of every instruction keeps true of all items on the stack is true of all items that
the walk meets (`Walk.Visit.only`), since the walk enters an instruction with a stack that some other one
left. Only the instructions that allocate push fresh allocations (`simulate_settled`), so a walk over others
meets none. -/

/-- The instruction puts items of the kind only on a stack of such items. -/
def KeepsKind (env : SimEnv) (kind : StackItem → Prop) (i : Instruction) : Prop :=
  ∀ {stack stack' : OperandStack} {e : Effect}, simulate env i stack = .ok e stack' →
    stack.Only kind → stack'.Only kind

namespace Walk

variable {env : WalkEnv} {kind : StackItem → Prop} {i : Instruction} {targets : List Int}
  {step : WalkStep} {w u w' : Walk}

/-- The present stack and those that wait at later positions have items of the kind only. -/
structure Only (w : Walk) (kind : StackItem → Prop) : Prop where
  stack : w.stack.Only kind
  pending : ∀ (p : Nat) (stack : OperandStack), w.pending[p]? = some stack → stack.Only kind

theorem Entered.only (h : Entered i w u) (hw : w.Only kind) : u.Only kind where
  stack := by
    rcases h.source with hstack | hstack | hstack
    · rw [hstack]
      exact hw.stack
    · rw [hstack]
      exact fun item hitem => absurd hitem List.not_mem_nil
    · exact hw.pending _ _ hstack
  pending p stack hp := by
    cases hpseudo : i.op.isPseudo with
    | true =>
      rw [(h.pseudo hpseudo).2] at hp
      exact hw.pending p stack hp
    | false =>
      rw [h.pending hpseudo, Std.TreeMap.getElem?_erase] at hp
      split at hp
      · cases hp
      · exact hw.pending p stack hp

theorem Stepped.only (h : Stepped env i targets step w u w') (hkeeps : KeepsKind env.toSimEnv kind i)
    (hw : w.Only kind) : w'.Only kind := by
  have hu := h.entered.only hw
  have hstack : w'.stack.Only kind := hkeeps h.simulate hu.stack
  refine ⟨hstack, fun p stack hp => ?_⟩
  rcases h.recorded.pending p stack hp with hpending | ⟨-, hsame⟩
  · exact hu.pending p stack hpending
  · rw [hsame]
    exact hstack

theorem run_only {rest : List Instruction} {steps : List WalkStep}
    (h : rest.mapM (Walk.step env) w = .ok steps w')
    (hkeeps : ∀ i ∈ rest, KeepsKind env.toSimEnv kind i) (hw : w.Only kind) : w'.Only kind := by
  induction rest generalizing w steps with
  | nil =>
    obtain ⟨-, rfl⟩ : [] = steps ∧ w = w' := by simpa using h
    exact hw
  | cons i rest ih =>
    obtain ⟨_, v, _, hv, hrest, -⟩ := mapM_cons_eq_ok.mp h
    obtain ⟨_, _, hstep⟩ := step_ok hv
    rw [List.forall_mem_cons] at hkeeps
    exact ih hrest hkeeps.2 (hstep.only hkeeps.1 hw)

/-- The walk enters every instruction with items of the kind only. -/
theorem Visit.only {instructions : List Instruction} {steps : List WalkStep} {final : Walk} {k : Nat}
    (h : Visit env instructions steps final k i targets step w u w')
    (hkeeps : ∀ i ∈ instructions, KeepsKind env.toSimEnv kind i) : u.stack.Only kind := by
  have hstart : ({} : Walk).Only kind := ⟨fun item hitem => absurd hitem List.not_mem_nil, by simp⟩
  have hw := run_only h.before (fun i hi => hkeeps i (List.mem_of_mem_take hi)) hstart
  exact (h.stepped.entered.only hw).stack

end Walk

/-! ### Fresh allocations -/

theorem keepsKind_settled {env : SimEnv} {i : Instruction} (hop : i.op.operation.allocates = false) :
    KeepsKind env StackItem.Settled i := by
  intro stack stack' e h hstack item hitem
  obtain ⟨rest, rfl, rfl⟩ := (simulate_exchange h).below
  rcases List.mem_append.mp hitem with hitem | hitem
  · exact simulate_settled hop h item (List.mem_reverse.mp hitem)
  · exact hstack item (List.mem_append_right _ hitem)

end Stencil
