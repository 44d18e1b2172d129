import Stencil.Proofs.Compile
import Stencil.Proofs.Errors.Templates

/-!
# What a compilation fails for

Options, method, frame and walk are checked before any code is emitted, and what they refuse is
refused on both targets alike (`compileMethod_of_refused`). A body that passes them can fail in its
templates only (`compileMethod_error`).
-/

namespace Stencil

open Stateful Compile

/-! ## The second walk -/

theorem mapM_step_markLabels (env : WalkEnv) (targets : Std.TreeSet Nat)
    (instructions : List Instruction) :
    (markLabels targets instructions).mapM (Walk.step env) = instructions.mapM (Walk.step env) := by
  unfold markLabels
  rw [List.mapM_map]
  rfl

theorem forWalk_markLabels (env : SimEnv) (targets : Std.TreeSet Nat)
    (instructions : List Instruction) :
    env.forWalk (markLabels targets instructions) = env.forWalk instructions := by
  unfold SimEnv.forWalk markLabels
  simp [List.filter_map, Function.comp_def]

theorem mem_markLabels {targets : Std.TreeSet Nat} {instructions : List Instruction} {i : Instruction}
    (h : i ∈ markLabels targets instructions) :
    ∃ j ∈ instructions, ∃ labelRequired, i = { j with labelRequired } := by
  obtain ⟨j, hj, rfl⟩ := List.mem_map.mp h
  exact ⟨j, hj, _, rfl⟩

theorem markLabels_mem (targets : Std.TreeSet Nat) {instructions : List Instruction} {i : Instruction}
    (h : i ∈ instructions) :
    ∃ labelRequired, { i with labelRequired } ∈ markLabels targets instructions :=
  ⟨_, List.mem_map.mpr ⟨i, h, rfl⟩⟩

/-! ## Emission -/

section Select

variable {I : Type} [TargetInstr I] {backend : Backend I} {ctx : EmitContext} {env : WalkEnv}

theorem emitOne_error {i : Instruction} {effect : Effect} {e : CompileError} :
    emitOne backend ctx i effect = .error e ↔ (backend.emit ctx i effect).failure = some e := by
  unfold emitOne
  dsimp only
  split <;> rename_i hfailure <;> simp [hfailure]

/-- Where the walk succeeds, emission fails with the template of some instruction. -/
theorem select_error {instructions : List Instruction} {w w' : Walk} {start : Nat}
    {steps : List WalkStep} {e : CompileError}
    (hwalk : instructions.mapM (Walk.step env) w = .ok steps w')
    (h : select backend ctx env w start instructions = .error e) :
    ∃ i ∈ instructions, ∃ step u u', Walk.step env i u = .ok step u' ∧
      (backend.emit ctx i step.effect).failure = some e := by
  induction instructions generalizing w start steps with
  | nil => cases h
  | cons i instructions ih =>
    obtain ⟨step, u, rest, hstep, hrest, -⟩ := mapM_cons_eq_ok.mp hwalk
    unfold select at h
    rw [hstep] at h
    dsimp only at h
    cases hemit : emitOne backend ctx i step.effect with
    | error e' =>
      rw [hemit] at h
      obtain rfl := Except.error.inj h
      exact ⟨i, List.mem_cons_self, step, w, u, hstep, emitOne_error.mp hemit⟩
    | ok code =>
      rw [hemit] at h
      cases htail : select backend ctx env u (start + code.length) instructions with
      | error e' =>
        have herror : (Except.error e' : Except CompileError (List (Span × List I))) = .error e := by
          rw [← h]
          show _ = (select backend ctx env u (start + code.length) instructions >>= _)
          rw [htail]
          rfl
        obtain rfl := Except.error.inj herror
        obtain ⟨j, hj, hfailure⟩ := ih hrest htail
        exact ⟨j, List.mem_cons_of_mem _ hj, hfailure⟩
      | ok tail =>
        have hok : (select backend ctx env u (start + code.length) instructions >>= fun tail =>
          pure (({ position := i.position, op := i.op, entryHeight := step.entryHeight,
                   effect := step.effect, start, stop := start + code.length : Span }, code) :: tail)) =
            .error e := h
        rw [htail] at hok
        cases hok

/-- An instruction whose template fails whatever its effect ends the emission. -/
theorem select_fails {instructions : List Instruction} {w : Walk} {start : Nat} {i : Instruction}
    (hi : i ∈ instructions) (hfails : ∀ effect, (backend.emit ctx i effect).failure ≠ none) :
    ∃ e, select backend ctx env w start instructions = .error e := by
  cases hselect : select backend ctx env w start instructions with
  | error e => exact ⟨e, rfl⟩
  | ok parts =>
    exfalso
    obtain ⟨steps, w', -, hselected⟩ := select_ok hselect
    clear hselect
    induction hselected with
    | nil => cases hi
    | cons hfailure _ _ ih =>
      rcases List.mem_cons.mp hi with rfl | hi
      · exact absurd hfailure (hfails _)
      · exact ih hi

end Select

/-! ## The checks before emission -/

/-- The walk fails with `e` at the first instruction, in program order, where it fails. -/
def FailsFirst (env : WalkEnv) (instructions : List Instruction) (e : CompileError) : Prop :=
  ∃ before i after steps w w', instructions = before ++ i :: after ∧
    before.mapM (Walk.step env) {} = .ok steps w ∧ Walk.step env i w = .error e w'

theorem walk_error {env : SimEnv} {instructions : List Instruction} {e : CompileError} :
    walk env instructions = .error e ↔
      FailsFirst (env.forWalk instructions) instructions e := by
  unfold walk FailsFirst
  constructor
  · intro h
    split at h
    · cases h
    · rename_i w' hrun
      obtain rfl := Except.error.inj h
      obtain ⟨before, i, after, steps, w, hsplit, hbefore, hstep⟩ := mapM_eq_error.mp hrun
      exact ⟨before, i, after, steps, w, w', hsplit, hbefore, hstep⟩
  · rintro ⟨before, i, after, steps, w, w', hsplit, hbefore, hstep⟩
    rw [mapM_eq_error.mpr ⟨before, i, after, steps, w, hsplit, hbefore, hstep⟩]

section Checks

variable (tables : Table) (options : Options) (body : MethodBody)

/-- A check before emission refuses the body: of the options, the method, the frame or the walk. -/
inductive Refused : CompileError → Prop
  | options {e : CompileError} (h : options.validate = .error e) : Refused e
  | method (hvalid : options.validate = .ok ()) (h : tables.method? body.method = none) :
      Refused ((Instruction.pseudo 0 .methodStart).unresolved .method)
  | frame {method : MethodDescriptor} {e : CompileError} (hvalid : options.validate = .ok ())
      (hmethod : tables.method? body.method = some method)
      (h : Frame.ofMethod tables options.pointerSize method = .error e) : Refused e
  | simulation {method : MethodDescriptor} {frame : Frame} {e : CompileError}
      (hvalid : options.validate = .ok ()) (hmethod : tables.method? body.method = some method)
      (hframe : Frame.ofMethod tables options.pointerSize method = .ok frame)
      (h : FailsFirst ((simEnv tables options frame).forWalk (bracket body.instructions))
        (bracket body.instructions) e) : Refused e

def Accepted : Prop :=
  options.validate = .ok () ∧ ∃ method frame steps targets,
    tables.method? body.method = some method ∧
    Frame.ofMethod tables options.pointerSize method = .ok frame ∧
    walk (simEnv tables options frame) (bracket body.instructions) = .ok (steps, targets)

variable {tables options body}

theorem refused_or_accepted : (∃ e, Refused tables options body e) ∨ Accepted tables options body := by
  cases hvalid : options.validate with
  | error e => exact .inl ⟨e, .options hvalid⟩
  | ok u =>
    cases hmethod : tables.method? body.method with
    | none => exact .inl ⟨_, .method hvalid hmethod⟩
    | some method =>
      cases hframe : Frame.ofMethod tables options.pointerSize method with
      | error e => exact .inl ⟨e, .frame hvalid hmethod hframe⟩
      | ok frame =>
        cases hwalk : walk (simEnv tables options frame) (bracket body.instructions) with
        | error e => exact .inl ⟨e, .simulation hvalid hmethod hframe (walk_error.mp hwalk)⟩
        | ok found =>
          exact .inr ⟨hvalid, method, frame, found.1, found.2, hmethod, hframe, hwalk⟩

variable {I : Type} [TargetInstr I] {backend : Backend I}

/-- Every target refuses what a check refuses, with the error of that check. -/
theorem compileMethod_of_refused {e : CompileError} (h : Refused tables options body e) :
    compileMethod backend tables options body = .error e := by
  unfold compileMethod
  cases h with
  | options h =>
    rw [h]
    rfl
  | method hvalid h =>
    rw [hvalid, h]
    rfl
  | frame hvalid hmethod h =>
    rw [hvalid, hmethod]
    show (Frame.ofMethod tables options.pointerSize _ >>= _) = _
    rw [h]
    rfl
  | simulation hvalid hmethod hframe h =>
    rw [hvalid, hmethod]
    show (Frame.ofMethod tables options.pointerSize _ >>= _) = _
    rw [hframe]
    show ((walk (simEnv tables options _) (bracket body.instructions) >>= _) >>= _) = _
    rw [walk_error.mpr h]
    rfl

/-- An accepted body is compiled by emitting the marked instructions along a walk that succeeds. -/
theorem compileMethod_of_accepted (backend : Backend I) (h : Accepted tables options body) :
    ∃ method frame targets steps w,
      (bracket body.instructions).mapM (Walk.step
        ((simEnv tables options frame).forWalk (bracket body.instructions))) {} = .ok steps w ∧
      ∀ e, compileMethod backend tables options body = .error e ↔
        select backend (emitContext backend tables options body.instructions method frame)
          ((simEnv tables options frame).forWalk (bracket body.instructions)) {} 0
          (markLabels targets (bracket body.instructions)) = .error e := by
  obtain ⟨hvalid, method, frame, steps, targets, hmethod, hframe, hwalk⟩ := h
  have hrun : ∃ w, (bracket body.instructions).mapM (Walk.step
      ((simEnv tables options frame).forWalk (bracket body.instructions))) {} = .ok steps w := by
    unfold walk at hwalk
    split at hwalk
    · rename_i steps' w hrun
      obtain ⟨rfl, -⟩ := Prod.mk.inj (Except.ok.inj hwalk)
      exact ⟨w, hrun⟩
    · cases hwalk
  obtain ⟨w, hrun⟩ := hrun
  refine ⟨method, frame, targets, steps, w, hrun, fun e => ?_⟩
  unfold compileMethod
  rw [hvalid, hmethod]
  show (Frame.ofMethod tables options.pointerSize method >>= _) = _ ↔ _
  rw [hframe]
  show ((walk (simEnv tables options frame) (bracket body.instructions) >>= _) >>= _) = _ ↔ _
  rw [hwalk]
  show (select backend (emitContext backend tables options body.instructions method frame)
    ((simEnv tables options frame).forWalk (markLabels targets (bracket body.instructions))) {} 0
    (markLabels targets (bracket body.instructions)) >>= _) = _ ↔ _
  rw [forWalk_markLabels]
  cases select backend (emitContext backend tables options body.instructions method frame)
    ((simEnv tables options frame).forWalk (bracket body.instructions)) {} 0
    (markLabels targets (bracket body.instructions)) with
  | error e' =>
    exact ⟨fun h => congrArg Except.error (Except.error.inj h),
      fun h => congrArg Except.error (Except.error.inj h)⟩
  | ok parts =>
    constructor
    · intro h
      cases h
    · intro h
      cases h

def PositionsFit (instructions : List Instruction) : Prop :=
  ∀ i ∈ instructions, i.position < 0x100000000

/-- Where a step of the walk succeeds, the targets of its instruction are positions. -/
theorem targetsFit_of_step {env : SimEnv} (hfit : PositionsFit body.instructions) {i : Instruction}
    {step : WalkStep} {w w' : Walk}
    (h : Walk.step (env.forWalk (bracket body.instructions)) i w = .ok step w') : TargetsFit i := by
  obtain ⟨targets, u, hstepped⟩ := Walk.step_ok h
  refine ⟨targets, hstepped.decoded, fun t ht => ?_⟩
  have hnonneg := hstepped.recorded.nonneg t ht
  have hposition : t.toNat ∈ (realPositions (bracket body.instructions)) := by
    have hmem := hstepped.recorded.position t ht
    rw [SimEnv.forWalk, Std.TreeSet.mem_ofList] at hmem
    simpa [realPositions] using hmem
  obtain ⟨j, hj, hjt⟩ := List.mem_map.mp hposition
  obtain ⟨hj, hreal⟩ := List.mem_filter.mp hj
  have hbody : j ∈ body.instructions := by
    simp only [bracket, List.mem_append, List.mem_singleton] at hj
    rcases hj with (rfl | hj) | rfl
    · simp [Instruction.pseudo, Opcode.isPseudo] at hreal
    · exact hj
    · simp [Instruction.pseudo, Opcode.isPseudo] at hreal
  have hlt := hfit j hbody
  omega

/-- An accepted body fails with an error that some template of its instructions fails with. -/
theorem compileMethod_error (hfit : PositionsFit body.instructions)
    (haccepted : Accepted tables options body) {P : Instruction → CompileError → Prop}
    (hmark : ∀ i labelRequired e, P { i with labelRequired } e → P i e)
    (hemit : ∀ {ctx : EmitContext} {i : Instruction} {effect : Effect}, ctx.tables = tables →
      Answered ctx i effect i.op.operation → Template.Errs (P i) (backend.emit ctx i effect))
    {e : CompileError} (h : compileMethod backend tables options body = .error e) :
    ∃ i ∈ bracket body.instructions, P i e := by
  obtain ⟨method, frame, targets, steps, w, hrun, herror⟩ :=
    compileMethod_of_accepted backend haccepted
  rw [← mapM_step_markLabels _ targets] at hrun
  obtain ⟨i, hi, step, u, u', hstep, hfailure⟩ := select_error hrun ((herror e).mp h)
  obtain ⟨_, _, hstepped⟩ := Walk.step_ok hstep
  have hanswered : Answered (emitContext backend tables options body.instructions method frame) i
      step.effect i.op.operation :=
    answered_of_simulate (targetsFit_of_step hfit hstep) hstepped.simulate
  obtain ⟨j, hj, labelRequired, rfl⟩ := mem_markLabels hi
  exact ⟨j, hj, hmark j labelRequired e (hemit rfl hanswered e hfailure)⟩

theorem mem_bracket {i : Instruction} (h : i ∈ body.instructions) :
    i ∈ bracket body.instructions := by
  simp [bracket, h]

theorem mem_of_mem_bracket {i : Instruction} (h : i ∈ bracket body.instructions)
    (hreal : i.op.isPseudo = false) : i ∈ body.instructions := by
  simp only [bracket, List.mem_append, List.mem_singleton] at h
  rcases h with (rfl | h) | rfl
  · cases hreal
  · exact h
  · cases hreal

theorem LacksDeclaringType.real {i : Instruction} (h : LacksDeclaringType tables i) :
    i.op.isPseudo = false := by
  obtain ⟨hop, -⟩ := h
  generalize i.op = op at hop
  cases op <;> first | rfl | cases hop

/-- A refusal names an instruction of the bracketed body, or the options. -/
theorem Refused.site {e : CompileError} (h : Refused tables options body e) :
    (∃ cause, e = .options cause) ∨ ∃ i ∈ bracket body.instructions, ErrorAt i e := by
  have hstart : Instruction.pseudo 0 .methodStart ∈ bracket body.instructions := List.mem_cons_self
  cases h with
  | options h =>
    unfold Options.validate at h
    split at h
    · exact .inl ⟨_, (Except.error.inj h).symm⟩
    · split at h
      · exact .inl ⟨_, (Except.error.inj h).symm⟩
      · cases h
  | method => exact .inr ⟨_, hstart, rfl, rfl⟩
  | frame _ _ h => exact .inr ⟨_, hstart, Frame.ofMethod_errs _ _ _ e h⟩
  | simulation _ _ _ h =>
    obtain ⟨before, i, after, steps, w, w', hsplit, -, hstep⟩ := h
    refine .inr ⟨i, ?_, Walk.step_fails _ i w e w' hstep⟩
    rw [hsplit]
    exact List.mem_append_right _ List.mem_cons_self

theorem MissingDeclaringType.site {i : Instruction} {e : CompileError}
    (h : MissingDeclaringType tables i e) : ErrorAt i e := by
  obtain ⟨-, rfl⟩ := h
  exact ⟨rfl, rfl⟩

theorem OutOfReach.site {i : Instruction} {e : CompileError} (h : OutOfReach i e) : ErrorAt i e := by
  obtain ⟨_, -, rfl⟩ := h
  exact ⟨rfl, rfl⟩

end Checks

/-! ## Both targets -/

section Targets

variable {tables : Table} {options : Options} {body : MethodBody}

/-- An accepted body fails on x86 for a virtual call whose declaring type is missing only. -/
theorem X86.compileMethod_error (hfit : PositionsFit body.instructions)
    (haccepted : Accepted tables options body) {e : CompileError}
    (h : compileMethod X86.backend tables options body = .error e) :
    ∃ i ∈ body.instructions, MissingDeclaringType tables i e := by
  obtain ⟨i, hi, hmissing⟩ := Stencil.compileMethod_error hfit haccepted
    (P := MissingDeclaringType tables) (fun _ _ _ h => h)
    (fun htables hanswered => htables ▸ X86.emit_errs hanswered) h
  exact ⟨i, mem_of_mem_bracket hi hmissing.1.real, hmissing⟩

/-- It does fail where there is such a call. -/
theorem X86.compileMethod_of_lacks (haccepted : Accepted tables options body) {i : Instruction}
    (hi : i ∈ body.instructions) (hlacks : LacksDeclaringType tables i) :
    ∃ e, compileMethod X86.backend tables options body = .error e := by
  obtain ⟨method, frame, targets, steps, w, -, herror⟩ :=
    compileMethod_of_accepted X86.backend haccepted
  obtain ⟨labelRequired, hmarked⟩ := markLabels_mem targets (mem_bracket hi)
  have hlacks' : LacksDeclaringType tables { i with labelRequired } := hlacks
  have hfails : ∀ effect, (X86.backend.emit (emitContext X86.backend tables options body.instructions
      method frame) { i with labelRequired } effect).failure ≠ none := by
    intro effect hnone
    exact nomatch (X86.emit_of_lacks hlacks').symm.trans hnone
  obtain ⟨e, he⟩ := select_fails hmarked hfails
  exact ⟨e, (herror e).mpr he⟩

/-- On MIPS it may also fail for a displacement. -/
theorem Mips.compileMethod_error (hfit : PositionsFit body.instructions)
    (haccepted : Accepted tables options body) {e : CompileError}
    (h : compileMethod Mips.backend tables options body = .error e) :
    (∃ i ∈ body.instructions, MissingDeclaringType tables i e) ∨
      ∃ i ∈ bracket body.instructions, OutOfReach i e := by
  obtain ⟨i, hi, hmissing | hreach⟩ := Stencil.compileMethod_error hfit haccepted
    (P := fun i e => MissingDeclaringType tables i e ∨ OutOfReach i e) (fun _ _ _ h => h)
    (fun htables hanswered => htables ▸ Mips.emit_errs hanswered) h
  · exact .inl ⟨i, mem_of_mem_bracket hi hmissing.1.real, hmissing⟩
  · exact .inr ⟨i, hi, hreach⟩

/-- What compilations fail for. A check before emission refuses a body on both targets with the same
error, which for the walk is that of the first instruction where it fails. A body that passes fails on
x86 exactly where a virtual call lacks the type that declares its method; on MIPS it fails for that or
for a displacement. Every error except one of the options names an instruction. -/
theorem compilation_errors (hfit : PositionsFit body.instructions) :
    ((∃ e, Refused tables options body e) ∨ Accepted tables options body) ∧
    (∀ e, Refused tables options body e →
      compileMethod X86.backend tables options body = .error e ∧
      compileMethod Mips.backend tables options body = .error e) ∧
    (Accepted tables options body →
      (∀ e, compileMethod X86.backend tables options body = .error e →
        ∃ i ∈ body.instructions, MissingDeclaringType tables i e) ∧
      ((∃ i ∈ body.instructions, LacksDeclaringType tables i) →
        ∃ e, compileMethod X86.backend tables options body = .error e) ∧
      ∀ e, compileMethod Mips.backend tables options body = .error e →
        (∃ i ∈ body.instructions, MissingDeclaringType tables i e) ∨
          ∃ i ∈ bracket body.instructions, OutOfReach i e) ∧
    ∀ e, compileMethod X86.backend tables options body = .error e ∨
        compileMethod Mips.backend tables options body = .error e →
      (∃ cause, e = .options cause) ∨ ∃ i ∈ bracket body.instructions, ErrorAt i e := by
  refine ⟨refused_or_accepted, fun e h => ⟨compileMethod_of_refused h, compileMethod_of_refused h⟩,
    fun haccepted => ⟨fun e h => X86.compileMethod_error hfit haccepted h,
      fun ⟨i, hi, hlacks⟩ => X86.compileMethod_of_lacks haccepted hi hlacks,
      fun e h => Mips.compileMethod_error hfit haccepted h⟩, ?_⟩
  intro e h
  have hchecked : (∃ e', Refused tables options body e') ∨ Accepted tables options body :=
    refused_or_accepted
  rcases hchecked with ⟨e', hrefused⟩ | haccepted
  · -- the error is that of the check, on either target
    have heq : e' = e := by
      rcases h with h | h
      · exact Except.error.inj ((compileMethod_of_refused hrefused).symm.trans h)
      · exact Except.error.inj ((compileMethod_of_refused hrefused).symm.trans h)
    exact heq ▸ hrefused.site
  · rcases h with h | h
    · obtain ⟨i, hi, hmissing⟩ := X86.compileMethod_error hfit haccepted h
      exact .inr ⟨i, mem_bracket hi, hmissing.site⟩
    · rcases Mips.compileMethod_error hfit haccepted h with ⟨i, hi, hmissing⟩ | ⟨i, hi, hreach⟩
      · exact .inr ⟨i, mem_bracket hi, hmissing.site⟩
      · exact .inr ⟨i, hi, hreach.site⟩

end Targets

/-! ## A virtual call of a method that nothing declares -/

/-- The method that calls. -/
def orphanCaller : MethodDescriptor := .ofName ⟨1, Nat.one_pos⟩ 0 "main"

/-- A table that knows the method `2` but not the type `7` that declares it. -/
def orphanTable : Table :=
  (Table.addMethod {} orphanCaller).addMethod
    (MethodDescriptor.ofName ⟨2, Nat.two_pos⟩ 7 "orphan").asVirtual

/-- A body that calls it on null. -/
def orphanBody : MethodBody where
  method := ⟨1, Nat.one_pos⟩
  instructions :=
    [.placed 0 .ldnull [],
     { Instruction.placed 1 .callvirt [0, 0, 0, 0] with methodRef := some ⟨2, Nat.two_pos⟩ },
     .placed 6 .ret []]

/-- The body is accepted, and x86 fails at the call. -/
theorem compilation_errors_orphan :
    PositionsFit orphanBody.instructions ∧
    ∃ e, compileMethod X86.backend orphanTable {} orphanBody = .error e ∧
      ∃ i ∈ orphanBody.instructions, MissingDeclaringType orphanTable i e := by
  have hfit : PositionsFit orphanBody.instructions := by
    unfold PositionsFit
    decide
  have haccepted : Accepted orphanTable {} orphanBody := by
    have hchecks : ((Frame.ofMethod orphanTable 4 orphanCaller).bind fun frame =>
        walk (simEnv orphanTable {} frame) (bracket orphanBody.instructions)).isOk = true := by
      decide +kernel
    cases hframe : Frame.ofMethod orphanTable 4 orphanCaller with
    | error e =>
      rw [hframe] at hchecks
      cases hchecks
    | ok frame =>
      rw [hframe] at hchecks
      change (walk (simEnv orphanTable {} frame) (bracket orphanBody.instructions)).isOk = true
        at hchecks
      cases hwalk : walk (simEnv orphanTable {} frame) (bracket orphanBody.instructions) with
      | error e =>
        rw [hwalk] at hchecks
        cases hchecks
      | ok found => exact ⟨rfl, orphanCaller, frame, found.1, found.2, by decide +kernel, hframe, hwalk⟩
  obtain ⟨hfailures, hfails, -⟩ := (compilation_errors hfit).2.2.1 haccepted
  obtain ⟨e, he⟩ := hfails ⟨_, List.mem_cons_of_mem _ List.mem_cons_self, rfl, _, rfl, by decide +kernel⟩
  exact ⟨hfit, e, he, hfailures e he⟩

end Stencil
