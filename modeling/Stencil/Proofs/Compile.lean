import Stencil.Compile
import Stencil.Proofs.Simulation.Effects
import Stencil.Proofs.Walk.Run

/-!
# What a successful compilation did

`compileMethod_ok` takes a compilation apart: the frame, the walk that marks the labels, the second
walk with the effect of every instruction, and the code that is emitted for each. Every other proof
reaches the compiler through it.
-/

namespace Stencil

open Stateful

namespace Compile

variable {I : Type} [TargetInstr I] {backend : Backend I} {ctx : EmitContext} {env : WalkEnv}

/-- The code of one instruction: its label where it has one, then its template. -/
def labelled (ctx : EmitContext) (i : Instruction) (template : List I) : List I :=
  (if i.labelRequired then [TargetInstr.label (ctx.labelAt i.position)] else []) ++ template

theorem emitOne_ok {i : Instruction} {effect : Effect} {code : List I}
    (h : emitOne backend ctx i effect = .ok code) :
    (backend.emit ctx i effect).failure = none ∧
      code = labelled ctx i (backend.emit ctx i effect).code := by
  dsimp only [emitOne] at h
  cases hfailure : (backend.emit ctx i effect).failure with
  | some e =>
    rw [hfailure] at h
    cases h
  | none =>
    rw [hfailure] at h
    exact ⟨rfl, (Except.ok.inj h).symm⟩

/-- The code of `instructions` with the effects that `steps` report, from index `start` on. -/
inductive Selected (backend : Backend I) (ctx : EmitContext) :
    Nat → List Instruction → List WalkStep → List (Span × List I) → Prop
  | nil {start : Nat} : Selected backend ctx start [] [] []
  | cons {start : Nat} {i : Instruction} {step : WalkStep} {instructions : List Instruction}
      {steps : List WalkStep} {parts : List (Span × List I)} {code : List I}
      (hfailure : (backend.emit ctx i step.effect).failure = none)
      (hcode : code = labelled ctx i (backend.emit ctx i step.effect).code)
      (hrest : Selected backend ctx (start + code.length) instructions steps parts) :
      Selected backend ctx start (i :: instructions) (step :: steps)
        (({ position := i.position, op := i.op, entryHeight := step.entryHeight,
            effect := step.effect, start, stop := start + code.length }, code) :: parts)

theorem select_ok {instructions : List Instruction} {w : Walk} {start : Nat}
    {parts : List (Span × List I)} (h : select backend ctx env w start instructions = .ok parts) :
    ∃ steps w', instructions.mapM (Walk.step env) w = .ok steps w' ∧
      Selected backend ctx start instructions steps parts := by
  induction instructions generalizing w start parts with
  | nil =>
    obtain rfl := Except.ok.inj h
    exact ⟨[], w, rfl, .nil⟩
  | cons i instructions ih =>
    unfold select at h
    split at h
    · cases h
    · rename_i step v hstep
      obtain ⟨code, hemit, h⟩ := answer_bind.mp h
      obtain ⟨tail, htail, h⟩ := answer_bind.mp h
      obtain rfl := Except.ok.inj h
      obtain ⟨hfailure, hcode⟩ := emitOne_ok hemit
      obtain ⟨steps, w', hrun, hselected⟩ := ih htail
      exact ⟨step :: steps, w', mapM_cons_eq_ok.mpr ⟨step, v, steps, hstep, hrun, rfl⟩,
        .cons hfailure hcode hselected⟩

/-- What holds of labels and templates, and of the code that is put together from them, holds of the code
of a method. -/
theorem Selected.code_of_closed {ctx : EmitContext} {P : List I → Prop} (hnil : P [])
    (happend : ∀ {front back}, P front → P back → P (front ++ back))
    (hlabel : ∀ l, P [TargetInstr.label l]) {start : Nat} {instructions : List Instruction}
    {steps : List WalkStep} {parts : List (Span × List I)}
    (h : Selected backend ctx start instructions steps parts)
    (htemplate : ∀ pair ∈ instructions.zip steps, (backend.emit ctx pair.1 pair.2.effect).failure = none →
      P (backend.emit ctx pair.1 pair.2.effect).code) : P (parts.flatMap Prod.snd) := by
  induction h with
  | nil => exact hnil
  | cons hfailure hcode _ ih =>
    rw [List.zip_cons_cons, List.forall_mem_cons] at htemplate
    rw [List.flatMap_cons, hcode]
    refine happend (happend ?_ (htemplate.1 hfailure)) (ih htemplate.2)
    split
    · exact hlabel _
    · exact hnil

/-- What a method consists of: labels and templates. -/
theorem Selected.mem_code {ctx : EmitContext} {start : Nat} {instructions : List Instruction}
    {steps : List WalkStep} {parts : List (Span × List I)}
    (h : Selected backend ctx start instructions steps parts) {instr : I} (hinstr : instr ∈ parts.flatMap Prod.snd) :
    (∃ l, instr = TargetInstr.label l) ∨
      ∃ pair ∈ instructions.zip steps, instr ∈ (backend.emit ctx pair.1 pair.2.effect).code := by
  refine h.code_of_closed
    (P := fun code => ∀ instr ∈ code, (∃ l, instr = TargetInstr.label l) ∨
      ∃ pair ∈ instructions.zip steps, instr ∈ (backend.emit ctx pair.1 pair.2.effect).code)
    (fun _ hinstr => absurd hinstr List.not_mem_nil)
    (fun hfront hback instr hinstr => (List.mem_append.mp hinstr).elim (hfront instr) (hback instr))
    (fun l instr hinstr => .inl ⟨l, List.mem_singleton.mp hinstr⟩)
    (fun pair hpair _ instr hinstr => .inr ⟨pair, hpair, hinstr⟩) instr hinstr

/-- What the simulation of a method reads. -/
def simEnv (tables : Table) (options : Options) (frame : Frame) : SimEnv :=
  { tables, frame, pointerSize := options.pointerSize }

/-- What the templates of a method read. -/
def emitContext (backend : Backend I) (tables : Table) (options : Options)
    (instructions : List Instruction) (method : MethodDescriptor) (frame : Frame) : EmitContext :=
  { tables, options, frame, method
    policy := options.policy.getD backend.defaultPolicy
    endPosition := endPosition instructions }

end Compile

open Compile

/-- How the compiled method `m` came about. -/
structure Compilation {I : Type} [TargetInstr I] (backend : Backend I) (tables : Table)
    (options : Options) (body : MethodBody) (m : CompiledMethod I) where
  method : MethodDescriptor
  frame : Frame
  /-- The positions that branches go to, and what the first walk found. -/
  targets : Std.TreeSet Nat
  surveyed : List WalkStep
  /-- What the second walk found, and where it ended. -/
  steps : List WalkStep
  final : Walk
  parts : List (Span × List I)
  valid : options.validate = .ok ()
  resolved : tables.method? body.method = some method
  framed : Frame.ofMethod tables options.pointerSize method = .ok frame
  walked : walk (simEnv tables options frame) (bracket body.instructions) = .ok (surveyed, targets)
  rewalked : (markLabels targets (bracket body.instructions)).mapM (Walk.step
    ((simEnv tables options frame).forWalk (markLabels targets (bracket body.instructions)))) {} =
      .ok steps final
  selected : Selected backend (emitContext backend tables options body.instructions method frame) 0
    (markLabels targets (bracket body.instructions)) steps parts
  symbol_eq : m.symbol = method.symbol
  code_eq : m.code = parts.flatMap Prod.snd
  spans_eq : m.spans = parts.map Prod.fst
  frame_eq : m.frame = frame

namespace Compilation

variable {I : Type} [TargetInstr I] {backend : Backend I} {tables : Table} {options : Options}
  {body : MethodBody} {m : CompiledMethod I}

/-- What the simulation reads. -/
abbrev env (c : Compilation backend tables options body m) : SimEnv :=
  simEnv tables options c.frame

/-- What the templates read. -/
abbrev ctx (c : Compilation backend tables options body m) : EmitContext :=
  emitContext backend tables options body.instructions c.method c.frame

/-- The bracketed body with its labels marked. -/
abbrev marked (c : Compilation backend tables options body m) : List Instruction :=
  markLabels c.targets (bracket body.instructions)

end Compilation

theorem compileMethod_ok {I : Type} [TargetInstr I] {backend : Backend I} {tables : Table}
    {options : Options} {body : MethodBody} {m : CompiledMethod I}
    (h : compileMethod backend tables options body = .ok m) :
    Nonempty (Compilation backend tables options body m) := by
  unfold compileMethod at h
  obtain ⟨⟨⟩, hvalid, h⟩ := answer_bind.mp h
  obtain ⟨method, hmethod, h⟩ := answer_bind.mp h
  obtain ⟨frame, hframe, h⟩ := answer_bind.mp h
  obtain ⟨⟨instructions, effects⟩, hsurvey, h⟩ := answer_bind.mp h
  obtain ⟨⟨surveyed, targets⟩, hwalk, hsurvey⟩ := answer_bind.mp hsurvey
  obtain ⟨rfl, rfl⟩ := Prod.mk.inj (Except.ok.inj hsurvey)
  obtain ⟨parts, hselect, h⟩ := answer_bind.mp h
  obtain rfl := Except.ok.inj h
  obtain ⟨steps, final, hrun, hselected⟩ := select_ok hselect
  exact ⟨⟨method, frame, targets, surveyed, steps, final, parts, hvalid, Table.require_ok.mp hmethod, hframe,
    hwalk, hrun, hselected, rfl, rfl, rfl, rfl⟩⟩

theorem compiled_singleton {I : Type} [TargetInstr I] {backend : Backend I} {tables : Table}
    {options : Options} {body : MethodBody} {m : CompiledMethod I}
    (h : compileMethod backend tables options body = .ok m) :
    ∀ m' ∈ [m], ∃ body', compileMethod backend tables options body' = .ok m' := by
  intro m' hm'
  rw [List.mem_singleton.mp hm']
  exact ⟨body, h⟩

/-! ## Code without certain instructions -/

def Lacks {I : Type} (kind : I → Bool) (code : List I) : Prop := code.all (!kind ·) = true

namespace Lacks

variable {I : Type} {kind kind' : I → Bool} {code code' : List I}

theorem of_mem (h : Lacks kind code) {instr : I} (hinstr : instr ∈ code) : kind instr = false := by
  simpa using List.all_eq_true.mp h instr hinstr

theorem mono (h : Lacks kind code) (hkind : ∀ instr, kind' instr = true → kind instr = true) : Lacks kind' code := by
  refine List.all_eq_true.mpr fun instr hinstr => ?_
  cases hcase : kind' instr with
  | false => rfl
  | true => exact absurd (hkind instr hcase) (by simp [h.of_mem hinstr])

theorem append (h : Lacks kind code) (h' : Lacks kind code') : Lacks kind (code ++ code') := by
  rw [Lacks, List.all_append, Bool.and_eq_true]
  exact ⟨h, h'⟩

theorem flatMap {α : Type} {f : α → List I} (xs : List α) (h : ∀ x, Lacks kind (f x)) :
    Lacks kind (xs.flatMap f) := by
  rw [Lacks, List.all_flatMap, List.all_eq_true]
  exact fun x _ => h x

theorem replicate (n : Nat) (h : Lacks kind code) : Lacks kind (List.replicate n code).flatten := by
  rw [Lacks, List.all_flatten, List.all_eq_true]
  exact fun part hpart => List.eq_of_mem_replicate hpart ▸ h

theorem ofExcept {answer : Except CompileError (List I)} (h : ∀ code, answer = .ok code → Lacks kind code) :
    Lacks kind (Template.ofExcept answer).code := by
  cases answer with
  | error e => rfl
  | ok code => exact h code rfl

end Lacks

end Stencil
