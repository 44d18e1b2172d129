import Stencil.Proofs.Assembly
import Stencil.Proofs.Compile
import Stencil.Proofs.Labels.Basic

/-!
# Labels of a compiled method

Instructions have different positions, so the labels of different templates are different, and the
first walk marks every position that a template of the second one goes to. Hence every label of a
compiled method is bound once and every label that is used is bound.
-/

namespace Stencil

open Compile

variable {I : Type} [TargetInstr I] [LabelUse I]

/-- What the labels of a target's templates have in common. -/
structure Backend.LabelsTemplates (backend : Backend I) : Prop where
  template : ∀ {ctx : EmitContext} {i : Instruction} {effect : Effect},
    (backend.emit ctx i effect).failure = none →
      TemplateLabels ctx i (backend.emit ctx i effect).code
  /-- The method start shares its position with the first instruction. -/
  methodStart : ∀ {ctx : EmitContext} {i : Instruction} {effect : Effect},
    i.op = .methodStart → boundLabels (backend.emit ctx i effect).code = []

/-- The labels of a compiled body: each one is bound once, those that are used are bound, and those
that mark instructions are where branches go and, if the body returns, the end. -/
structure LabelsClosed (body : List Instruction) (m : CompiledMethod I) : Prop where
  bound_once : (boundLabels m.code).Nodup
  used_bound : ∀ l ∈ usedLabels m.code, l ∈ boundLabels m.code
  positions : ∀ l, l ∈ boundLabels m.code ∧ l.isSynthetic = false ↔
    ∃ position, l = { scope := m.symbol, position } ∧
      (BranchesTo body position ∨
        (∃ i ∈ body, i.op = .ret) ∧ position = endPosition body)

/-! ## One instruction -/

section Part

variable {ctx : EmitContext} {i : Instruction} {template : List I}

theorem boundLabels_labelled : boundLabels (labelled ctx i template) =
    (if i.labelRequired then [ctx.labelAt i.position] else []) ++ boundLabels template := by
  unfold labelled boundLabels
  rw [List.filterMap_append]
  split
  · rw [List.filterMap_cons_some (LabelUse.asLabel?_label _)]
    rfl
  · rfl

theorem usedLabels_labelled : usedLabels (labelled ctx i template) = usedLabels template := by
  unfold labelled usedLabels
  rw [List.filterMap_append]
  split
  · rw [List.filterMap_cons_none (LabelUse.uses?_label _)]
    rfl
  · rfl

/-- A label that the code of `i` binds. -/
structure OwnLabel (ctx : EmitContext) (i : Instruction) (l : Label) : Prop where
  scope : l.scope = ctx.method.symbol
  position : l.position = i.position
  marks : l.isSynthetic = false → i.labelRequired = true ∧ l = ctx.labelAt i.position
  dotFree : l.DotFree

theorem ownLabel_of_mem (h : TemplateLabels ctx i template) {l : Label}
    (hl : l ∈ boundLabels (labelled ctx i template)) : OwnLabel ctx i l := by
  rw [boundLabels_labelled, List.mem_append] at hl
  rcases hl with hl | hl
  · have hreq : i.labelRequired = true ∧ l = ctx.labelAt i.position := by
      split at hl
      · exact ⟨‹_›, List.mem_singleton.mp hl⟩
      · cases hl
    rw [hreq.2]
    exact ⟨rfl, rfl, fun _ => ⟨hreq.1, rfl⟩, dotFree_labelAt ctx _⟩
  · obtain ⟨name, n, hname, rfl⟩ := h.exists_inside hl
    exact ⟨rfl, rfl, fun hfalse => (nomatch hfalse), dotFree_inside hname n⟩

theorem nodup_labelled (h : TemplateLabels ctx i template) :
    (boundLabels (labelled ctx i template)).Nodup := by
  rw [boundLabels_labelled]
  split
  · refine List.nodup_cons.mpr ⟨fun hmem => ?_, h.nodup⟩
    have hsynthetic := (h.inside _ hmem).2.2
    cases hsynthetic
  · exact h.nodup

end Part

/-! ## All instructions -/

section Selected

variable {backend : Backend I} {ctx : EmitContext} {start : Nat} {instructions : List Instruction}
  {steps : List WalkStep} {parts : List (Span × List I)}

/-- The method start binds nothing, and any other instruction has a position of its own. -/
structure Separated (instructions : List Instruction) : Prop where
  methodStart : ∀ i ∈ instructions, i.op = .methodStart → i.labelRequired = false
  positions : instructions.Pairwise fun i j => i.op = .methodStart ∨ i.position ≠ j.position

theorem mem_boundLabels_selected (hbackend : backend.LabelsTemplates)
    (h : Selected backend ctx start instructions steps parts) {l : Label}
    (hl : l ∈ boundLabels (parts.flatMap Prod.snd)) :
    ∃ i ∈ instructions, OwnLabel ctx i l := by
  induction h with
  | nil => cases hl
  | cons hfailure hcode hrest ih =>
    rw [List.flatMap_cons, boundLabels_append, List.mem_append] at hl
    rcases hl with hl | hl
    · rw [hcode] at hl
      exact ⟨_, List.mem_cons_self, ownLabel_of_mem (hbackend.template hfailure) hl⟩
    · obtain ⟨i, hi, hown⟩ := ih hl
      exact ⟨i, List.mem_cons_of_mem _ hi, hown⟩

theorem nodup_boundLabels_selected (hbackend : backend.LabelsTemplates)
    (h : Selected backend ctx start instructions steps parts) (hsep : Separated instructions) :
    (boundLabels (parts.flatMap Prod.snd)).Nodup := by
  induction h with
  | nil => exact List.nodup_nil
  | @cons _ i step rest _ parts code hfailure hcode hrest ih =>
    obtain ⟨hhead, htail⟩ := List.pairwise_cons.mp hsep.positions
    have hrestSep : Separated rest :=
      ⟨fun j hj => hsep.methodStart j (List.mem_cons_of_mem _ hj), htail⟩
    rw [List.flatMap_cons, boundLabels_append]
    by_cases hop : i.op = .methodStart
    · have hnone : boundLabels code = [] := by
        rw [hcode, boundLabels_labelled, hbackend.methodStart hop,
          hsep.methodStart i List.mem_cons_self hop]
        rfl
      dsimp only
      rw [hnone]
      exact ih hrestSep
    · refine List.nodup_append.mpr ⟨?_, ih hrestSep, ?_⟩
      · dsimp only
        rw [hcode]
        exact nodup_labelled (hbackend.template hfailure)
      · rintro l hl l' hl' rfl
        dsimp only at hl
        rw [hcode] at hl
        have hposition := (ownLabel_of_mem (hbackend.template hfailure) hl).position
        obtain ⟨j, hj, hown⟩ := mem_boundLabels_selected hbackend hrest hl'
        rcases hhead j hj with hstart | hne
        · exact hop hstart
        · exact hne (hposition.symm.trans hown.position)

theorem labelAt_mem_selected (h : Selected backend ctx start instructions steps parts)
    {i : Instruction} (hi : i ∈ instructions) (hreq : i.labelRequired = true) :
    ctx.labelAt i.position ∈ boundLabels (parts.flatMap Prod.snd) := by
  induction h with
  | nil => cases hi
  | cons hfailure hcode hrest ih =>
    rw [List.flatMap_cons, boundLabels_append, List.mem_append]
    rcases List.mem_cons.mp hi with rfl | hi
    · left
      rw [hcode, boundLabels_labelled, hreq]
      simp
    · exact .inr (ih hi)

/-- What is used is bound, or some instruction goes there. -/
theorem mem_usedLabels_selected (hbackend : backend.LabelsTemplates)
    (h : Selected backend ctx start instructions steps parts) {l : Label}
    (hl : l ∈ usedLabels (parts.flatMap Prod.snd)) :
    l ∈ boundLabels (parts.flatMap Prod.snd) ∨ ∃ i ∈ instructions, GoesTo ctx i l := by
  induction h with
  | nil => cases hl
  | cons hfailure hcode hrest ih =>
    rw [List.flatMap_cons, usedLabels_append, List.mem_append] at hl
    rw [List.flatMap_cons, boundLabels_append, List.mem_append]
    rcases hl with hl | hl
    · dsimp only at hl
      rw [hcode, usedLabels_labelled] at hl
      rcases (hbackend.template hfailure).closed l hl with hbound | hgoes
      · refine .inl (.inl ?_)
        dsimp only
        rw [hcode, boundLabels_labelled, List.mem_append]
        exact .inr hbound
      · exact .inr ⟨_, List.mem_cons_self, hgoes⟩
    · rcases ih hl with hbound | ⟨i, hi, hgoes⟩
      · exact .inl (.inr hbound)
      · exact .inr ⟨i, List.mem_cons_of_mem _ hi, hgoes⟩

theorem GoesTo.dotFree {i : Instruction} {l : Label} (h : GoesTo ctx i l) : l.DotFree := by
  cases h with
  | target => exact dotFree_labelAt ctx _
  | methodEnd => exact dotFree_labelAt ctx _

/-- No extension of a label that compiled code binds or goes to has a dot. -/
theorem dotFree_selected (hbackend : backend.LabelsTemplates)
    (h : Selected backend ctx start instructions steps parts) {l : Label}
    (hl : l ∈ boundLabels (parts.flatMap Prod.snd) ++ usedLabels (parts.flatMap Prod.snd)) : l.DotFree := by
  have hbound : l ∈ boundLabels (parts.flatMap Prod.snd) → l.DotFree := by
    intro hl
    obtain ⟨_, -, hown⟩ := mem_boundLabels_selected hbackend h hl
    exact hown.dotFree
  rcases List.mem_append.mp hl with hl | hl
  · exact hbound hl
  · rcases mem_usedLabels_selected hbackend h hl with hl | ⟨_, -, hgoes⟩
    · exact hbound hl
    · exact hgoes.dotFree

end Selected

/-! ## The marked body -/

/-- The body consists of real instructions, laid out one after another. -/
structure PlainBody (body : List Instruction) : Prop where
  contiguous : Contiguous 0 body
  real : ∀ i ∈ body, i.op.isPseudo = false

section Marked

variable {body : List Instruction} {targets : Std.TreeSet Nat}

/-- An instruction with its label marked where a branch goes there. -/
def marked (targets : Std.TreeSet Nat) (i : Instruction) : Instruction :=
  { i with labelRequired := targets.contains i.position }

/-- The method end, marked where the body returns. -/
def markedEnd (body : List Instruction) : Instruction :=
  { Instruction.pseudo (endPosition body) .methodEnd with
    labelRequired := body.any (·.op = .ret) }

theorem markLabels_bracket (hreal : ∀ i ∈ body, i.op.isPseudo = false) :
    markLabels targets (bracket body) =
      .pseudo 0 .methodStart :: (body.map (marked targets) ++ [markedEnd body]) := by
  have hreturns : (bracket body).any (·.op = .ret) = body.any (·.op = .ret) := by
    simp [bracket, Instruction.pseudo]
  unfold markLabels
  simp only [hreturns]
  unfold bracket
  rw [List.map_append, List.map_append, List.map_congr_left (l := body) (g := marked targets)]
  · rfl
  · intro i hi
    have hi := hreal i hi
    unfold marked
    cases hop : i.op <;> first | rfl | (rw [hop] at hi; cases hi)

theorem separated_markLabels (hbody : PlainBody body) :
    Separated (markLabels targets (bracket body)) := by
  rw [markLabels_bracket hbody.real]
  constructor
  · intro i hi hop
    rcases List.mem_cons.mp hi with rfl | hi
    · rfl
    rcases List.mem_append.mp hi with hi | hi
    · obtain ⟨j, hj, rfl⟩ := List.mem_map.mp hi
      have hreal := hbody.real j hj
      rw [show j.op = .methodStart from hop] at hreal
      cases hreal
    · obtain rfl := List.mem_singleton.mp hi
      cases hop
  · refine List.pairwise_cons.mpr ⟨fun _ _ => .inl rfl, ?_⟩
    refine List.pairwise_append.mpr ⟨?_, List.pairwise_singleton _ _, ?_⟩
    · rw [List.pairwise_map]
      exact hbody.contiguous.pairwise.imp fun h => .inr (Nat.ne_of_lt h)
    · intro i hi j hj
      obtain ⟨k, hk, rfl⟩ := List.mem_map.mp hi
      obtain rfl := List.mem_singleton.mp hj
      have hlt : k.position < endPosition body := hbody.contiguous.position_lt_end hk
      exact .inr (Nat.ne_of_lt hlt)

/-- The marked instructions of a body whose targets are `targets`. -/
theorem mem_markLabels_required (hbody : PlainBody body)
    (htargets : ∀ p, p ∈ targets ↔ BranchesTo body p)
    (hpositions : ∀ p, BranchesTo body p → ∃ i ∈ body, i.position = p) (p : Nat) :
    (∃ i ∈ markLabels targets (bracket body), i.labelRequired = true ∧ i.position = p) ↔
      BranchesTo body p ∨ (∃ i ∈ body, i.op = .ret) ∧ p = endPosition body := by
  rw [markLabels_bracket hbody.real]
  constructor
  · rintro ⟨i, hi, hreq, rfl⟩
    rcases List.mem_cons.mp hi with rfl | hi
    · cases hreq
    rcases List.mem_append.mp hi with hi | hi
    · obtain ⟨j, -, rfl⟩ := List.mem_map.mp hi
      exact .inl ((htargets _).mp (Std.TreeSet.mem_iff_contains.mpr hreq))
    · obtain rfl := List.mem_singleton.mp hi
      exact .inr ⟨by simpa [markedEnd] using hreq, rfl⟩
  · rintro (hbranch | ⟨hret, rfl⟩)
    · obtain ⟨i, hi, rfl⟩ := hpositions p hbranch
      refine ⟨marked targets i, ?_, ?_, rfl⟩
      · exact List.mem_cons_of_mem _ (List.mem_append_left _ (List.mem_map_of_mem hi))
      · exact Std.TreeSet.mem_iff_contains.mp ((htargets _).mpr hbranch)
    · refine ⟨markedEnd body, by simp, ?_, rfl⟩
      simpa [markedEnd] using hret

end Marked

/-! ## The compiled method -/

theorem branchesTo_bracket {body : List Instruction} {p : Nat} :
    BranchesTo (bracket body) p ↔ BranchesTo body p := by
  have hstart : (Instruction.pseudo 0 .methodStart).targets = .ok [] := rfl
  have hend : ∀ position, (Instruction.pseudo position .methodEnd).targets = .ok [] := fun _ => rfl
  simp [BranchesTo, bracket, hstart, hend]

theorem walk_targets {env : SimEnv} {body : List Instruction} {steps : List WalkStep}
    {targets : Std.TreeSet Nat} (h : walk env (bracket body) = .ok (steps, targets)) :
    (∀ p, p ∈ targets ↔ BranchesTo body p) ∧
      ∀ p, BranchesTo body p → ∃ i ∈ body, i.position = p := by
  unfold walk at h
  split at h
  · rename_i steps' w hrun
    obtain ⟨rfl, rfl⟩ := Prod.mk.inj (Except.ok.inj h)
    refine ⟨fun p => ?_, fun p hp => ?_⟩
    · rw [Walk.run_targets hrun p, branchesTo_bracket]
      simp
    · obtain ⟨i, hi, targets, htargets, hmem⟩ := branchesTo_bracket.mpr hp
      have hposition := (Walk.run_positions hrun hi htargets p hmem).2
      rw [Int.toNat_natCast] at hposition
      obtain ⟨j, ⟨hj, hreal⟩, rfl⟩ : ∃ j, (j ∈ bracket body ∧ j.op.isPseudo = false) ∧
          j.position = p := by
        simpa [SimEnv.forWalk] using hposition
      refine ⟨j, ?_, rfl⟩
      unfold bracket at hj
      rcases List.mem_append.mp hj with hj | hj
      · rcases List.mem_append.mp hj with hj | hj
        · obtain rfl := List.mem_singleton.mp hj
          cases hreal
        · exact hj
      · obtain rfl := List.mem_singleton.mp hj
        cases hreal
  · cases h

theorem op_eq_ret_of_operation {op : Opcode} (h : op.operation = .ret) : op = .ret := by
  cases op <;> first | rfl | cases h

/-- The marked instructions go where branches of the body go, or to the end if the body returns. -/
theorem goesTo_markLabels {body : List Instruction} {targets : Std.TreeSet Nat} {ctx : EmitContext}
    {i : Instruction} {l : Label} (hreal : ∀ i ∈ body, i.op.isPseudo = false)
    (hi : i ∈ markLabels targets (bracket body)) (h : GoesTo ctx i l) :
    ∃ p, l = ctx.labelAt p ∧
      (BranchesTo body p ∨ (∃ i ∈ body, i.op = .ret) ∧ p = ctx.endPosition) := by
  rw [markLabels_bracket hreal] at hi
  cases h with
  | target hdecoded hmem hnonneg =>
    refine ⟨_, rfl, .inl ?_⟩
    rcases List.mem_cons.mp hi with rfl | hi
    · obtain rfl := Except.ok.inj hdecoded
      cases hmem
    rcases List.mem_append.mp hi with hi | hi
    · obtain ⟨j, hj, rfl⟩ := List.mem_map.mp hi
      exact ⟨j, hj, _, hdecoded, by rwa [Int.toNat_of_nonneg hnonneg]⟩
    · obtain rfl := List.mem_singleton.mp hi
      obtain rfl := Except.ok.inj hdecoded
      cases hmem
  | methodEnd hret =>
    refine ⟨_, rfl, .inr ⟨?_, rfl⟩⟩
    rcases List.mem_cons.mp hi with rfl | hi
    · cases hret
    rcases List.mem_append.mp hi with hi | hi
    · obtain ⟨j, hj, rfl⟩ := List.mem_map.mp hi
      exact ⟨j, hj, op_eq_ret_of_operation hret⟩
    · obtain rfl := List.mem_singleton.mp hi
      cases hret

/-- The labels of every compiled method are closed. -/
theorem compileMethod_labelsClosed {backend : Backend I} (hbackend : backend.LabelsTemplates)
    {tables : Table} {options : Options} {body : MethodBody} {m : CompiledMethod I}
    (hbody : PlainBody body.instructions)
    (h : compileMethod backend tables options body = .ok m) :
    LabelsClosed body.instructions m := by
  obtain ⟨c⟩ := compileMethod_ok h
  obtain ⟨htargets, hpositions⟩ := walk_targets c.walked
  have hmarks := mem_markLabels_required hbody htargets hpositions
  -- a position that the body goes to has its label
  have hbound : ∀ p, BranchesTo body.instructions p ∨
      (∃ i ∈ body.instructions, i.op = .ret) ∧ p = endPosition body.instructions →
        c.ctx.labelAt p ∈ boundLabels m.code := by
    intro p hp
    obtain ⟨i, hi, hreq, rfl⟩ := (hmarks p).mpr hp
    rw [c.code_eq]
    exact labelAt_mem_selected c.selected hi hreq
  refine ⟨?_, ?_, ?_⟩
  · rw [c.code_eq]
    exact nodup_boundLabels_selected hbackend c.selected (separated_markLabels hbody)
  · intro l hl
    rw [c.code_eq] at hl ⊢
    rcases mem_usedLabels_selected hbackend c.selected hl with hbound' | ⟨i, hi, hgoes⟩
    · exact hbound'
    · rw [← c.code_eq]
      obtain ⟨p, rfl, hp⟩ := goesTo_markLabels hbody.real hi hgoes
      exact hbound p hp
  · intro l
    rw [c.symbol_eq]
    constructor
    · rintro ⟨hl, hsynthetic⟩
      rw [c.code_eq] at hl
      obtain ⟨i, hi, hown⟩ := mem_boundLabels_selected hbackend c.selected hl
      obtain ⟨hreq, rfl⟩ := hown.marks hsynthetic
      exact ⟨i.position, rfl, (hmarks _).mp ⟨i, hi, hreq, rfl⟩⟩
    · rintro ⟨p, rfl, hp⟩
      exact ⟨hbound p hp, rfl⟩

end Stencil
