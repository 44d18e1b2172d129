import Stencil.Proofs.Labels.Closure
import Stencil.Proofs.Running.Steps

/-!
# Runs of a compiled method

The templates of a method lie one after another, each behind the label of its position if a branch goes
there. So a machine that is about to run the template of an instruction gets to that of the next one
(`inside_step`), and by induction from there to the return (`returns_of_run`).
-/

namespace Stencil

open AddressMap Compile Link Meaning Stateful

/-! ## Positions of a body -/

section Positions

variable {start j j' : Nat} {instructions : List Instruction} {i i' : Instruction}

theorem Contiguous.index_eq (h : Contiguous start instructions) (hi : instructions[j]? = some i)
    (hi' : instructions[j']? = some i') (hposition : i'.position = i.position) : j' = j := by
  obtain ⟨hj, rfl⟩ := List.getElem?_eq_some_iff.mp hi
  obtain ⟨hj', rfl⟩ := List.getElem?_eq_some_iff.mp hi'
  have hincrease := List.pairwise_iff_getElem.mp h.pairwise
  rcases Nat.lt_trichotomy j' j with hlt | heq | hgt
  · exact absurd hposition (Nat.ne_of_lt (hincrease j' j hj' hj hlt))
  · exact heq
  · exact absurd hposition (Nat.ne_of_gt (hincrease j j' hj hj' hgt))

theorem Contiguous.takes_room (h : Contiguous start instructions) (hi : i ∈ instructions) :
    i.position < i.nextPosition := by
  induction instructions generalizing start with
  | nil => cases hi
  | cons head rest ih =>
    obtain ⟨-, hlt, hrest⟩ := h
    rcases List.mem_cons.mp hi with rfl | hi
    · exact hlt
    · exact ih hrest hi

/-- The instruction at the following position is the next one. -/
theorem Contiguous.next_eq (h : Contiguous start instructions) (hi : instructions[j]? = some i)
    (hi' : instructions[j']? = some i') (hposition : i'.position = i.nextPosition) : j' = j + 1 := by
  induction instructions generalizing start j j' with
  | nil => cases hi
  | cons head rest ih =>
    obtain ⟨hstart, hlt, hrest⟩ := h
    cases j with
    | zero =>
      obtain rfl := Option.some.inj hi
      cases j' with
      | zero =>
        obtain rfl := Option.some.inj hi'
        omega
      | succ k =>
        -- only the first of the rest has this position
        cases rest with
        | nil => cases hi'
        | cons first rest =>
          have hfirst : (first :: rest)[0]? = some first := rfl
          rw [hrest.index_eq hfirst hi' (hposition.trans hrest.1.symm)]
    | succ j =>
      have hafter := hrest.start_le (List.mem_of_getElem? hi)
      cases j' with
      | zero =>
        obtain rfl := Option.some.inj hi'
        have hroom := hrest.takes_room (List.mem_of_getElem? hi)
        omega
      | succ k => rw [ih hrest hi hi']

end Positions

/-! ## Where the templates lie -/

section Places

variable {I : Type} [TargetInstr I]

theorem Compile.Selected.part {backend : Backend I} {ctx : EmitContext} {start : Nat}
    {instructions : List Instruction} {steps : List WalkStep} {parts : List (Span × List I)}
    (h : Selected backend ctx start instructions steps parts) {k : Nat} {i : Instruction}
    (hi : instructions[k]? = some i) :
    ∃ step span, steps[k]? = some step ∧ (backend.emit ctx i step.effect).failure = none ∧
      parts[k]? = some (span, labelled ctx i (backend.emit ctx i step.effect).code) := by
  induction h generalizing k with
  | nil => cases hi
  | @cons start j step _ _ _ code hfailure hcode _ ih =>
    cases k with
    | zero =>
      obtain rfl := Option.some.inj hi
      exact ⟨step, _, rfl, hfailure, by rw [← hcode]; rfl⟩
    | succ k => exact ih hi

/-- The program consists of the code of one method, whose labels are bound once. -/
structure Hosts (p : Program I) (m : CompiledMethod I) : Prop where
  fits : p.code.size ≤ codeLimit
  code : p.code = m.code.toArray
  labels : p.labels = Std.HashMap.ofList (labelsFrom 0 m.code)
  once : (boundLabels m.code).Nodup

variable {backend : Backend I} {tables : Table} {options : Options} {body : MethodBody}
  {m : CompiledMethod I}

def Compilation.base (c : Compilation backend tables options body m) (k : Nat) : Nat :=
  ((c.parts.take k).flatMap Prod.snd).length

/-- The part of an instruction: its label if it has one, then its template. -/
theorem Compilation.placed (c : Compilation backend tables options body m) {p : Program I} (hp : Hosts p m)
    {k : Nat} {i : Instruction} (hi : c.marked[k]? = some i) :
    ∃ step, c.steps[k]? = some step ∧ (backend.emit c.ctx i step.effect).failure = none ∧
      Placed p (c.base k) (labelled c.ctx i (backend.emit c.ctx i step.effect).code) ∧
      c.base (k + 1) = c.base k + (labelled c.ctx i (backend.emit c.ctx i step.effect).code).length := by
  obtain ⟨step, span, hstep, hfailure, hpart⟩ := c.selected.part hi
  obtain ⟨hk, hget⟩ := List.getElem?_eq_some_iff.mp hpart
  refine ⟨step, hstep, hfailure, ?_, ?_⟩
  · refine .of_layout m.code hp.code hp.labels hp.once ((c.parts.take k).flatMap Prod.snd) _
      ((c.parts.drop (k + 1)).flatMap Prod.snd) ?_
    have hsplit : c.parts = c.parts.take k ++ c.parts[k] :: c.parts.drop (k + 1) := by
      rw [List.getElem_cons_drop, List.take_append_drop]
    calc m.code = (c.parts.take k ++ c.parts[k] :: c.parts.drop (k + 1)).flatMap Prod.snd := by
          rw [c.code_eq, ← hsplit]
      _ = _ := by rw [List.flatMap_append, List.flatMap_cons, hget, List.append_assoc]
  · rw [base, base, List.take_succ_eq_append_getElem hk, List.flatMap_append, List.length_append,
      List.flatMap_singleton, hget]

variable (c : Compilation backend tables options body m)

include c in
theorem Compilation.pointerSize_eq : options.pointerSize = 4 := by
  have hvalid := c.valid
  unfold Options.validate at hvalid
  split at hvalid
  · cases hvalid
  · rename_i hsize
    exact not_not.mp hsize

variable (hbody : PlainBody body.instructions)

include hbody

theorem Compilation.marked_eq : c.marked = .pseudo 0 .methodStart ::
    (body.instructions.map (Stencil.marked c.targets) ++ [markedEnd body.instructions]) :=
  markLabels_bracket hbody.real

/-- The brackets shift an instruction of the body by one. -/
theorem Compilation.marked_succ {j : Nat} {i : Instruction} (hi : body.instructions[j]? = some i) :
    c.marked[j + 1]? = some (Stencil.marked c.targets i) := by
  rw [c.marked_eq hbody, List.getElem?_cons_succ, List.getElem?_append_left, List.getElem?_map, hi]
  · rfl
  · rw [List.length_map]
    exact (List.getElem?_eq_some_iff.mp hi).1

theorem Compilation.marked_end : c.marked[body.instructions.length + 1]? = some (markedEnd body.instructions) := by
  rw [c.marked_eq hbody, List.getElem?_cons_succ, List.getElem?_append_right, List.length_map,
    Nat.sub_self]
  · rfl
  · rw [List.length_map]

theorem Compilation.nodup_positions : (realPositions c.marked).Nodup := by
  have hmarked : realPositions (body.instructions.map (Stencil.marked c.targets)) =
      body.instructions.map Instruction.position := by
    unfold realPositions
    rw [List.filter_eq_self.mpr, List.map_map]
    · rfl
    · intro i hi
      obtain ⟨j, hj, rfl⟩ := List.mem_map.mp hi
      have hreal := hbody.real j hj
      simp [Stencil.marked, hreal]
  rw [c.marked_eq hbody, realPositions_cons_pseudo rfl, realPositions_append, hmarked,
    realPositions_cons_pseudo rfl]
  show (body.instructions.map Instruction.position ++ []).Nodup
  rw [List.append_nil, List.Nodup, List.pairwise_map]
  exact hbody.contiguous.pairwise.imp Nat.ne_of_lt

/-- A position that a branch goes to has its label, and behind the label lies the template. -/
theorem Compilation.label_at {p : Program I} (hp : Hosts p m) {j : Nat} {i : Instruction}
    (hi : body.instructions[j]? = some i) (hbranch : BranchesTo body.instructions i.position) [LabelUse I] :
    p.labels[c.ctx.labelAt i.position]? = some (c.base (j + 1)) := by
  have hrequired : (Stencil.marked c.targets i).labelRequired = true :=
    Std.TreeSet.mem_iff_contains.mp (((walk_targets c.walked).1 _).mpr hbranch)
  obtain ⟨step, -, -, hplaced, -⟩ := c.placed hp (c.marked_succ hbody hi)
  rw [labelled, if_pos hrequired] at hplaced
  exact hplaced.labels 0 _ _ rfl (LabelUse.asLabel?_label _)

/-- The walk meets no fresh allocation. -/
theorem Compilation.settled
    (hfragment : ∀ i ∈ body.instructions, inFragment i.op.operation = true) {k : Nat} {stack : OperandStack}
    {i : Instruction} (hi : c.marked[k]? = some i)
    (hstack : Walk.stackAt? (c.env.forWalk c.marked) c.marked k = some stack) :
    stack.Only StackItem.Settled := by
  obtain ⟨targets, step, w, u, w', hvisit⟩ := Walk.visit_of_getElem? c.rewalked hi
  obtain rfl := Option.some.inj (hstack.symm.trans (hvisit.stackAt? hi))
  refine hvisit.only fun i' hi' => keepsKind_settled ?_
  rw [markLabels_bracket hbody.real] at hi'
  rcases List.mem_cons.mp hi' with rfl | hi'
  · rfl
  rcases List.mem_append.mp hi' with hi' | hi'
  · obtain ⟨i₀, hi₀, rfl⟩ := List.mem_map.mp hi'
    have hop := hfragment i₀ hi₀
    show i₀.op.operation.allocates = false
    generalize i₀.op.operation = op at hop ⊢
    cases op <;> first | rfl | cases hop
  · obtain rfl := List.mem_singleton.mp hi'
    rfl

end Places

/-! ## Returns -/

theorem Meaning.height_le_deepest (rule : CountRule) (body : List Instruction) (steps : Nat) (s : State) :
    s.height ≤ deepest rule body steps s := by
  cases steps with
  | zero => exact Nat.le_refl _
  | succ steps =>
    rw [deepest]
    split
    · exact Nat.le_max_left ..
    · exact Nat.le_refl _

theorem Meaning.exists_of_run {rule : CountRule} {body : List Instruction} {steps : Nat} {s : State}
    {v : Value} (h : run rule body steps s = some v) : ∃ i ∈ body, i.position = s.position := by
  cases steps with
  | zero => cases h
  | succ steps =>
    rw [run] at h
    cases hfound : body.find? (·.position == s.position) with
    | none =>
      rw [hfound] at h
      cases h
    | some i => exact ⟨i, List.mem_of_find?_eq_some hfound, by simpa using List.find?_some hfound⟩

theorem Suits.argSpan_eq {frame : Frame} {stack : OperandStack} {s : State} (h : Suits frame stack s) :
    4 * (pushedWords s.args).length = frame.argSpan := h.args.totalBytes.symm

theorem Suits.length_words {frame : Frame} {stack stack' : OperandStack} {s s' : State}
    (h : Suits frame stack s) (h' : Suits frame stack' s') (a : Activation) :
    (a.words s').length + s.height = (a.words s).length + s'.height := by
  have hargs := h.args.totalBytes
  have hargs' := h'.args.totalBytes
  have hlocals := h.locals.totalBytes
  have hlocals' := h'.locals.totalBytes
  simp only [Activation.words, Activation.above, frameWords, State.height, List.length_cons,
    List.length_append]
  omega

/-- Only a return ends the execution. -/
theorem Meaning.returns_of_step {rule : CountRule} {i : Instruction} {s : State} {v : Value}
    (h : step rule i s = some (.returns v)) :
    i.op.operation = .ret ∧ (s.stack = [] ∧ v = [] ∨ s.stack = [v]) := by
  have hgoto : ∀ target stack, s.goto target stack ≠ some (.returns v) := by
    intro target stack h
    unfold State.goto at h
    split at h <;> cases h
  have hbranch : ∀ taken stack, s.branch i taken stack ≠ some (.returns v) := by
    intro taken stack h
    obtain ⟨target, -, h⟩ := Option.bind_eq_some_iff.mp h
    split at h
    · exact hgoto _ _ h
    · cases h
  unfold step at h
  split at h
  case h_21 hop =>
    refine ⟨hop, ?_⟩
    split at h
    · exact .inl ⟨‹_›, (Outcome.returns.inj (Option.some.inj h)).symm⟩
    · rw [← Outcome.returns.inj (Option.some.inj h)]
      exact .inr ‹_›
    · cases h
  all_goals
    -- the other operations go on to some instruction
    exfalso
    try split at h
    all_goals
      try simp only [State.next, Option.bind_eq_bind, Option.bind_eq_some_iff] at h
      grind

/-- A return leaves nothing on the operand stack. -/
theorem empty_of_ret {env : SimEnv} {i : Instruction} {stack stack' : OperandStack} {e : Effect}
    (hop : i.op.operation = .ret) (h : simulate env i stack = .ok e stack') : stack' = [] := by
  unfold simulate at h
  rw [hop] at h
  split at h
  · cases h
  split at h
  · rename_i s hrun
    obtain ⟨-, rfl⟩ := EStateM.Result.ok.inj h
    have hcheck : ∀ {t : SimState}, (do
        let stack := (← get).stack
        if !stack.isEmpty then
          throw (i.stackShape (.leftAtReturn stack.height)) : Sim Unit) t = .ok () s → s.stack = [] := by
      intro t hcheck
      obtain ⟨_, _, hget, hcheck⟩ := bind_eq_ok.mp hcheck
      cases hget
      split at hcheck
      · cases hcheck
      · rename_i hempty
        obtain ⟨-, rfl⟩ := EStateM.Result.ok.inj hcheck
        simpa using hempty
    simp only [Sim.operate] at hrun
    cases hreturn : env.frame.returnItem with
    | none =>
      rw [hreturn] at hrun
      exact hcheck hrun
    | some item =>
      rw [hreturn] at hrun
      obtain ⟨_, t, -, hrun⟩ := bind_eq_ok.mp hrun
      exact hcheck hrun
  · cases h

/-! ## From one template to the next -/

section Run

variable {I R M : Type} [TargetInstr I] [LabelUse I] [Semantics I R M]

/-- A machine passes over the label before a template. -/
theorem Poised.labelled {p : Program I} {ctx : EmitContext} {i : Instruction} {template : List I} {mach : M}
    {base : Nat} {words : List UInt32} {fp : UInt32} (hfits : p.code.size ≤ codeLimit)
    (hplaced : Placed p base (labelled ctx i template)) (h : Poised I mach base words fp) :
    ∃ start, Placed p start template ∧ start + template.length = base + (labelled ctx i template).length ∧
      Reaches (Semantics.cycle p) mach fun m' => Poised I m' start words fp := by
  have hturns : Turns (if i.labelRequired then [TargetInstr.label (ctx.labelAt i.position)] else [] : List I)
      words fp .next words fp := by
    intro v hv
    split
    · exact ⟨v, .of_steps (Semantics.steps_label _ v), hv⟩
    · exact ⟨v, .nil, hv⟩
  refine ⟨_, hplaced.back, ?_, h.turns hturns hfits hplaced.front⟩
  rw [Compile.labelled, List.length_append, Nat.add_assoc]

/-- A target on which methods of the fragment run. -/
structure RunsMethods (backend : Backend I) : Prop extends RunsFragment backend where
  labels : backend.LabelsTemplates
  /-- From a return the machine gets back to the caller, with the result in place of the return slot. -/
  returns : ∀ {p : Program I} {ctx : EmitContext} {i i' : Instruction} {e e' : Effect} {mach : M}
    {exit stop k : Nat} {value own slot rest : List UInt32} {saved : UInt32},
    p.code.size ≤ codeLimit → i.op.operation = .ret → i'.op.operation = .methodEnd →
    (backend.emit ctx i e).failure = none → Placed p exit (backend.emit ctx i e).code →
    Placed p stop (TargetInstr.label ctx.endLabel :: (backend.emit ctx i' e').code) →
    e.poppedBytes = 4 * value.length → ctx.frame.returnBytes = 4 * value.length →
    slot.length = value.length →
    Poised I mach exit (value ++ (own ++ saved :: codeAddress k :: (slot ++ rest)))
      (stackPointer (saved :: codeAddress k :: (slot ++ rest))) →
    Reaches (Semantics.cycle p) mach fun m' => Poised I m' k (value ++ rest) saved

variable {backend : Backend I} {tables : Table} {options : Options} {body : MethodBody}
  {m : CompiledMethod I}

/-- The machine is about to run the template of an instruction, with the values of the state. -/
structure Inside (c : Compilation backend tables options body m) (a : Activation) (j : Nat) (s : State)
    (mach : M) : Prop where
  index : ∃ i, body.instructions[j]? = some i ∧ i.position = s.position
  suits : ∃ stack, Walk.stackAt? (c.env.forWalk c.marked) c.marked (j + 1) = some stack ∧
    Suits c.frame stack s
  poised : Poised I mach (c.base (j + 1)) (a.words s) (a.pointer s)

theorem Inside.held {c : Compilation backend tables options body m} {a : Activation} {j : Nat} {s : State}
    {mach : M} (h : Inside c a j s mach) : s.stack.flatten.length ≤ stackCapacity := by
  have hheld := h.poised.holds.length_le
  rw [Activation.words, List.length_append] at hheld
  omega

section Step

variable {c : Compilation backend tables options body m} {p : Program I} {a : Activation} {j : Nat}
  {s s' : State} {mach : M} {i : Instruction}
  (hruns : RunsMethods backend) (hbody : PlainBody body.instructions) (hp : Hosts p m)
  (hslot : 4 * a.slot.length = c.frame.returnBytes) (h : Inside c a j s mach)
  (hi : body.instructions[j]? = some i)

include hruns hbody hp hslot h hi

/-- From the template of one instruction to that of the next. -/
theorem inside_step (hfragment : ∀ i ∈ body.instructions, inFragment i.op.operation = true)
    (hstep : Meaning.step .saturating i s = some (.goes s'))
    (hroom : s'.height + (a.words s).length ≤ stackCapacity + s.height)
    (hnext : ∃ i' ∈ body.instructions, i'.position = s'.position) :
    Reaches (Semantics.cycle p) mach fun m' => ∃ j', Inside c a j' s' m' := by
  obtain ⟨stack, hstack, hsuits⟩ := h.suits
  obtain ⟨targets, step, w, u, w', hvisit⟩ := Walk.visit_of_getElem? c.rewalked (c.marked_succ hbody hi)
  obtain rfl := Option.some.inj (hstack.symm.trans (hvisit.stackAt? (c.marked_succ hbody hi)))
  obtain ⟨step', hstep', hemitted, hplaced, hend⟩ := c.placed hp (c.marked_succ hbody hi)
  obtain rfl := Option.some.inj (hvisit.reported.symm.trans hstep')
  obtain ⟨this, params, locals, hof, -, -, -, -⟩ := ofMethod_ok c.framed
  have hmirrors : Mirrors backend c.ctx (Stencil.marked c.targets i) step.effect a w'.stack s s' :=
    mirrors_of_step hruns.toRunsFragment hvisit.stepped.simulate hsuits hof hslot hemitted c.pointerSize_eq
      h.held (c.settled hbody hfragment (c.marked_succ hbody hi) hstack) hroom hstep
  obtain ⟨x, hleads, hpasses⟩ := hmirrors.passes
  obtain ⟨i', hmem, hposition⟩ := hnext
  obtain ⟨j', hi'⟩ := List.mem_iff_getElem?.mp hmem
  have hmarked := c.marked_succ hbody hi
  have hmarked' := c.marked_succ hbody hi'
  -- where the exit leads, and that control flows there
  obtain ⟨hedge, hlabel, hto⟩ : FlowEdge c.marked (j + 1) (j' + 1) ∧
      (∀ l, x = .goto l → ∃ k, p.labels[l]? = some k) ∧
      ∀ k, x.LeadsTo p (c.base (j + 1 + 1)) k → k = c.base (j' + 1) := by
    generalize s'.position = position at hleads hposition
    cases hleads with
    | next hflow =>
      obtain rfl := hbody.contiguous.next_eq hi hi' hposition
      refine ⟨.next hmarked hflow, fun l hl => ?_, fun k hk => hk⟩
      cases hl
    | jump htargets htarget =>
      subst hposition
      have hat := c.label_at hbody hp hi' ⟨i, List.mem_of_getElem? hi, _, htargets, htarget⟩
      refine ⟨.jump hmarked htargets hmarked' (hbody.real i' hmem) htarget, fun l hl => ?_, fun k hk => ?_⟩
      · rw [← Exit.goto.inj hl]
        exact ⟨_, hat⟩
      · exact Option.some.inj (hk.symm.trans hat)
  obtain ⟨targets', step', v, v', v'', hvisit'⟩ := Walk.visit_of_getElem? c.rewalked hmarked'
  have hstack' := hvisit'.stackAt? hmarked'
  have halike := Walk.edge_alike c.rewalked (c.nodup_positions hbody) hedge hmarked hvisit hstack'
  obtain ⟨start, hstart, hlength, hreach⟩ := h.poised.labelled hp.fits hplaced
  refine hreach.trans fun t ht => ?_
  refine (hpasses.reaches hp.fits hstart hlabel ht).mono fun m' ⟨k, hk, hm'⟩ => ⟨j', ⟨i', hi', hposition⟩,
    ⟨v'.stack, hstack', halike.fill hmirrors.suits.stack, hmirrors.suits.args, hmirrors.suits.locals⟩, ?_⟩
  rw [hlength, ← hend] at hk
  rw [hto k hk, ← hsuits.pointer_eq hmirrors.suits a] at hm'
  exact hm'

theorem inside_return {v : Value} (hstep : Meaning.step .saturating i s = some (.returns v)) {k : Nat}
    (hback : a.back = codeAddress k) :
    4 * v.length = c.frame.returnBytes ∧ Reaches (Semantics.cycle p) mach fun m' =>
      Poised I m' k (v ++ (pushedWords s.args ++ a.deep)) a.saved := by
  obtain ⟨hop, hvalue⟩ := Meaning.returns_of_step hstep
  have hmarked := c.marked_succ hbody hi
  have hop' : (Stencil.marked c.targets i).op.operation = .ret := hop
  obtain ⟨stack, hstack, hsuits⟩ := h.suits
  obtain ⟨targets, step, w, u, w', hvisit⟩ := Walk.visit_of_getElem? c.rewalked hmarked
  obtain rfl := Option.some.inj (hstack.symm.trans (hvisit.stackAt? hmarked))
  obtain ⟨step', hstep', hemitted, hplaced, -⟩ := c.placed hp hmarked
  obtain rfl := Option.some.inj (hvisit.reported.symm.trans hstep')
  -- all that is on the operand stack is the value
  have hsim := hvisit.stepped.simulate
  have hflat : s.stack.flatten = v := by
    rcases hvalue with ⟨hempty, rfl⟩ | hsingle
    · rw [hempty]
      rfl
    · rw [hsingle, List.flatten_singleton]
  have hpopped : u.stack = step.effect.popped := by
    obtain ⟨rest, hbelow, hafter⟩ := (simulate_exchange hsim).below
    have hrest : rest = [] := by
      rw [empty_of_ret hop' hsim] at hafter
      exact (List.append_eq_nil_iff.mp hafter.symm).2
    rw [hbelow, hrest, List.append_nil]
  have hbytes : step.effect.poppedBytes = 4 * v.length := by
    rw [Effect.poppedBytes, ← hpopped, hsuits.countBytes_eq h.held, hflat]
  have hreturn : c.frame.returnBytes < 2 ^ 32 := returnBytes_lt c.framed (by rw [c.pointerSize_eq]; decide)
  have hframe : c.frame.returnBytes = 4 * v.length := (ret_effect hop' hreturn hsim).symm.trans hbytes
  obtain ⟨start, hstart, -, hreach⟩ := h.poised.labelled hp.fits hplaced
  obtain ⟨last, -, -, hlast, -⟩ := c.placed hp (c.marked_end hbody)
  have hlabel : (markedEnd body.instructions).labelRequired = true := by
    refine List.any_eq_true.mpr ⟨i, List.mem_of_getElem? hi, decide_eq_true (op_eq_ret_of_operation hop)⟩
  rw [Compile.labelled, if_pos hlabel, List.singleton_append] at hlast
  refine ⟨hframe.symm, hreach.trans fun t ht => ?_⟩
  rw [Activation.words, Activation.pointer, Activation.above, hflat, frameWords, hback] at ht
  exact hruns.returns hp.fits hop' rfl hemitted hstart hlast hbytes hframe (by omega) ht

end Step

theorem Inside.find? {c : Compilation backend tables options body m} {a : Activation} {j : Nat} {s : State}
    {mach : M} (h : Inside c a j s mach) (hbody : PlainBody body.instructions) {i : Instruction}
    (hi : body.instructions.find? (·.position == s.position) = some i) : body.instructions[j]? = some i := by
  obtain ⟨i₀, hi₀, hposition₀⟩ := h.index
  obtain ⟨j', hi'⟩ := List.mem_iff_getElem?.mp (List.mem_of_find?_eq_some hi)
  have hposition : i.position = s.position := by simpa using List.find?_some hi
  rwa [← hbody.contiguous.index_eq hi₀ hi' (hposition.trans hposition₀.symm)]

/-- An execution that returns a value is a run that gets back to the caller with it. -/
theorem returns_of_run {c : Compilation backend tables options body m} {p : Program I} {a : Activation}
    (hruns : RunsMethods backend) (hbody : PlainBody body.instructions)
    (hfragment : ∀ i ∈ body.instructions, inFragment i.op.operation = true) (hp : Hosts p m)
    (hslot : 4 * a.slot.length = c.frame.returnBytes) {k : Nat} (hback : a.back = codeAddress k)
    {steps j : Nat} {s : State} {v : Value} {mach : M}
    (hrun : Meaning.run .saturating body.instructions steps s = some v)
    (hroom : deepest .saturating body.instructions steps s + (a.words s).length ≤ stackCapacity + s.height)
    (h : Inside c a j s mach) :
    4 * v.length = c.frame.returnBytes ∧ Reaches (Semantics.cycle p) mach fun m' => ∃ args : List UInt32,
      4 * args.length = c.frame.argSpan ∧ Poised I m' k (v ++ (args ++ a.deep)) a.saved := by
  induction steps generalizing s j mach with
  | zero => cases hrun
  | succ steps ih =>
    rw [Meaning.run] at hrun
    rw [deepest] at hroom
    cases houtcome : (body.instructions.find? (·.position == s.position)).bind (step .saturating · s) with
    | none =>
      rw [houtcome] at hrun
      cases hrun
    | some outcome =>
      rw [houtcome] at hrun hroom
      obtain ⟨i, hfound, hstep⟩ := Option.bind_eq_some_iff.mp houtcome
      have hi := h.find? hbody hfound
      cases outcome with
      | returns v' =>
        obtain rfl : v' = v := Option.some.inj hrun
        obtain ⟨hlength, hreach⟩ := inside_return hruns hbody hp hslot h hi hstep hback
        obtain ⟨stack, -, hsuits⟩ := h.suits
        exact ⟨hlength, hreach.mono fun m' hm' => ⟨_, hsuits.argSpan_eq, hm'⟩⟩
      | goes s' =>
        have hnext := Meaning.exists_of_run hrun
        have hdeep := height_le_deepest .saturating body.instructions steps s'
        obtain ⟨n, t, hcycles, j', hinside⟩ := inside_step hruns hbody hp hslot h hi hfragment hstep
          (by dsimp only at hroom; omega) hnext
        obtain ⟨stack, -, hsuits⟩ := h.suits
        obtain ⟨stack', -, hsuits'⟩ := hinside.suits
        have hwords := hsuits.length_words hsuits' a
        obtain ⟨hlength, hreach⟩ := ih hrun (by dsimp only at hroom; omega) hinside
        exact ⟨hlength, Reaches.trans ⟨n, t, hcycles, rfl⟩ fun t' ht' => ht' ▸ hreach⟩

end Run

end Stencil
