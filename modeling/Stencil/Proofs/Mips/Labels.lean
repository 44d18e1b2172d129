import Stencil.Mips.Backend
import Stencil.Proofs.Labels.Basic

/-!
# Labels of the MIPS32 templates

What each template binds and where it goes. The names and numbers are those of the other target; a
branch that needs a comparison first goes to the same place.
-/

namespace Stencil.Mips

open Stateful

instance : LabelUse Instr where
  uses?
    | .branch _ _ _ l | .branchZero _ _ l | .j l => some l
    | _ => none
  asLabel?_label _ := rfl
  uses?_label _ := rfl

variable (ctx : EmitContext) (i : Instruction)

/-! ## Parts of templates -/

theorem drop_unlabelled (bytes : Nat) : Unlabelled (Instr.drop bytes) := by
  unfold Instr.drop
  split <;> exact ⟨rfl, rfl⟩

theorem reserve_unlabelled (bytes : Nat) : Unlabelled (Instr.reserve bytes) := by
  unfold Instr.reserve
  split <;> exact ⟨rfl, rfl⟩

theorem pushImm_unlabelled (imm : Int32) : Unlabelled (Instr.pushImm imm) := by
  unfold Instr.pushImm
  split <;> exact ⟨rfl, rfl⟩

theorem nullCheck_labels (reg : Reg) :
    HasLabels (nullCheck ctx i reg) (insides ctx i [("NotNull", 0)])
      (insides ctx i [("NotNull", 0)]) := ⟨rfl, rfl⟩

theorem nullCheck_templateLabels (reg : Reg) : TemplateLabels ctx i (nullCheck ctx i reg) :=
  .of_own _ _ (nullCheck_labels ctx i reg) (by decide) (by decide)

theorem boundsCheck_labels (array index : Reg) :
    HasLabels (boundsCheck ctx i array index) (insides ctx i [("OutOfRange", 1), ("InRange", 2)])
      (insides ctx i [("OutOfRange", 1), ("InRange", 2)]) := ⟨rfl, rfl⟩

theorem scaleIndex_unlabelled (array index : Reg) (stride : Nat) :
    Unlabelled (scaleIndex array index stride) := by
  unfold scaleIndex
  split
  · split <;> exact ⟨rfl, rfl⟩
  · exact ⟨rfl, rfl⟩

theorem elementBase_templateLabels (array index : Reg) (stride : Nat) :
    TemplateLabels ctx i (elementBase ctx i array index stride) :=
  .of_own [("NotNull", 0), ("OutOfRange", 1), ("InRange", 2)]
    [("NotNull", 0), ("OutOfRange", 1), ("InRange", 2)]
    (((nullCheck_labels ctx i array).append (boundsCheck_labels ctx i array index)).append
      (scaleIndex_unlabelled array index stride)) (by decide) (by decide)

theorem guardIndirect_labels (reg : Reg) : TemplateLabels ctx i (guardIndirect ctx i reg) := by
  unfold guardIndirect
  split
  · exact nullCheck_templateLabels ctx i reg
  · exact .of_unlabelled .nil

theorem loadValue_unlabelled (base : Reg) (offset : Int32) (bytes : Nat) (signed : Bool)
    (align : Nat) : Unlabelled (loadValue base offset bytes signed align) := by
  unfold loadValue
  split
  · exact ⟨rfl, rfl⟩
  · exact HasLabels.cons rfl rfl (unlabelled_flatMap _ fun _ _ => ⟨rfl, rfl⟩)

theorem storeValue_unlabelled (base : Reg) (offset : Int32) (bytes align : Nat) :
    Unlabelled (storeValue base offset bytes align) := by
  unfold storeValue
  split
  · exact ⟨rfl, rfl⟩
  · exact HasLabels.cons rfl rfl (unlabelled_flatMap _ fun _ _ => ⟨rfl, rfl⟩)

theorem pushFromMemory_unlabelled (base : Reg) (offset : Int32) (storage : Nat) (signed : Bool)
    (align : Nat) : Unlabelled (pushFromMemory base offset storage signed align) :=
  unlabelled_flatMap _ fun _ _ => unlabelled_append (loadValue_unlabelled _ _ _ _ _) ⟨rfl, rfl⟩

theorem popToMemory_unlabelled (base : Reg) (offset : Int32) (storage align : Nat) :
    Unlabelled (popToMemory base offset storage align) :=
  unlabelled_flatMap _ fun _ _ => unlabelled_append ⟨rfl, rfl⟩ (storeValue_unlabelled _ _ _ _)

theorem zeroFrom_unlabelled (base : Reg) (offset : Int32) (align done left : Nat) :
    Unlabelled (zeroFrom base offset align done left) := by
  fun_induction zeroFrom base offset align done left with
  | case1 done left _ width ih =>
    exact HasLabels.cons rfl rfl ih
  | case2 => exact .nil

theorem popOperands_unlabelled (wide : Bool) : Unlabelled (popOperands wide) := by
  cases wide <;> exact ⟨rfl, rfl⟩

theorem pushResult_unlabelled (wide : Bool) : Unlabelled (pushResult wide) := by
  cases wide <;> exact ⟨rfl, rfl⟩

theorem afterCall_unlabelled (ret args : Nat) : Unlabelled (afterCall ret args) := by
  have hdrop := drop_unlabelled args
  unfold afterCall
  split
  · exact .nil
  · split
    · exact hdrop
    · exact unlabelled_append (unlabelled_append ⟨rfl, rfl⟩ hdrop) ⟨rfl, rfl⟩
    · exact unlabelled_append (unlabelled_append (unlabelled_append ⟨rfl, rfl⟩ hdrop) ⟨rfl, rfl⟩)
        ⟨rfl, rfl⟩
    · exact unlabelled_append (unlabelled_flatMap _ fun _ _ => ⟨rfl, rfl⟩) hdrop

/-! ## Integers and decisions -/

theorem binary_labels {effect : Effect} {op : BinaryOp} {code : List Instr}
    (h : binary i effect op = .ok code) : TemplateLabels ctx i code := by
  unfold binary at h
  split at h
  all_goals
    cases op <;> cases h
    all_goals exact .of_unlabelled ⟨rfl, rfl⟩

theorem unary_unlabelled (effect : Effect) (op : UnaryOp) : Unlabelled (unary effect op) := by
  unfold unary
  cases isWide (effect.operand 0) <;> cases op <;> exact ⟨rfl, rfl⟩

theorem shiftWord_labels (op : Stencil.ShiftOp) (wideCount : Bool) :
    TemplateLabels ctx i (shiftWord ctx i op wideCount) := by
  cases wideCount with
  | false => exact .of_unlabelled ⟨rfl, rfl⟩
  | true =>
    refine .of_own [("Saturate", 0), ("Done", 1)] [("Saturate", 0), ("Done", 1)] ⟨?_, ?_⟩
      (by decide) (by decide)
    all_goals cases op <;> rfl

theorem shiftAcross_unlabelled (op : Stencil.ShiftOp) : Unlabelled (shiftAcross op) := by
  cases op <;> exact ⟨rfl, rfl⟩

theorem shiftOver_unlabelled (op : Stencil.ShiftOp) : Unlabelled (shiftOver op) := by
  cases op <;> exact ⟨rfl, rfl⟩

theorem shiftOut_unlabelled (op : Stencil.ShiftOp) : Unlabelled (shiftOut op) := by
  cases op <;> exact ⟨rfl, rfl⟩

theorem beq_labels (lhs rhs : Reg) (target : Label) :
    HasLabels (Instr.beq lhs rhs target) [] [target] := ⟨rfl, rfl⟩

theorem bne_labels (lhs rhs : Reg) (target : Label) :
    HasLabels (Instr.bne lhs rhs target) [] [target] := ⟨rfl, rfl⟩

theorem jump_labels (target : Label) : HasLabels (Instr.jump target) [] [target] := ⟨rfl, rfl⟩

theorem shiftWide_labels (op : Stencil.ShiftOp) (wideCount : Bool) :
    TemplateLabels ctx i (shiftWide ctx i op wideCount) := by
  have hlabel : ∀ name n, HasLabels [Instr.label (ctx.inside i name n)] [ctx.inside i name n] [] :=
    fun _ _ => ⟨rfl, rfl⟩
  have hcount : HasLabels
      (if wideCount then Instr.bne .t3 .zero (ctx.inside i "Saturate" 0) else []) []
      (insides ctx i (if wideCount then [("Saturate", 0)] else [])) := by
    cases wideCount <;> exact ⟨rfl, rfl⟩
  have hlow : Unlabelled [Instr.aluImm .sltiu .t8 .t2 64] := ⟨rfl, rfl⟩
  have hhigh : Unlabelled [Instr.aluImm .sltiu .t8 .t2 32] := ⟨rfl, rfl⟩
  have hrest : Unlabelled [Instr.addiu .t4 .zero 32, .alu .subu .t4 .t4 .t2] := ⟨rfl, rfl⟩
  have hbig : HasLabels [Instr.label (ctx.inside i "Big" 1), .addiu .t2 .t2 (-32)]
      [ctx.inside i "Big" 1] [] := ⟨rfl, rfl⟩
  have hchecks := ((((hcount.append hlow).append (beq_labels .t8 .zero (ctx.inside i "Saturate" 0))).append
    (beq_labels .t2 .zero (ctx.inside i "Done" 2))).append hhigh).append
    (beq_labels .t8 .zero (ctx.inside i "Big" 1))
  have hacross := ((hchecks.append hrest).append (shiftAcross_unlabelled op)).append
    (jump_labels (ctx.inside i "Done" 2))
  have hover := ((hacross.append hbig).append (shiftOver_unlabelled op)).append
    (jump_labels (ctx.inside i "Done" 2))
  have hall := ((hover.append (hlabel "Saturate" 0)).append (shiftOut_unlabelled op)).append
    (hlabel "Done" 2)
  refine .of_hasLabels [("Big", 1), ("Saturate", 0), ("Done", 2)] hall (by decide) ?_
  cases wideCount <;> simp [insides]

theorem shift_labels (effect : Effect) (op : Stencil.ShiftOp) :
    TemplateLabels ctx i (shift ctx i effect op) := by
  have hcount : Unlabelled (Instr.pop .t2 ++
      (if isWide (effect.operand 0) then Instr.pop .t3 else []) ++ Instr.pop .t0) := by
    split <;> exact ⟨rfl, rfl⟩
  refine (TemplateLabels.prepend hcount ?_).append (pushResult_unlabelled _)
  split
  · exact .prepend ⟨rfl, rfl⟩ (shiftWide_labels ctx i op _)
  · exact shiftWord_labels ctx i op _

theorem convertTo_unlabelled (pointerSize size : Nat) (target : ConvTarget) :
    Unlabelled (convertTo pointerSize size target) := by
  have hnarrow : ∀ signed size, Unlabelled (narrow signed size) := by
    intro signed size
    unfold narrow
    split
    · cases signed <;> exact ⟨rfl, rfl⟩
    · exact .nil
  unfold convertTo
  split
  · exact .nil
  · exact .nil
  · split <;> exact ⟨rfl, rfl⟩
  · refine unlabelled_append (unlabelled_append (unlabelled_append ⟨rfl, rfl⟩ ?_) (hnarrow _ _))
      ⟨rfl, rfl⟩
    exact .ite (drop_unlabelled 4) .nil

theorem convert_labels {effect : Effect} {target : Option ConvTarget} {code : List Instr}
    (h : convert ctx i effect target = .ok code) : TemplateLabels ctx i code := by
  cases target with
  | none => cases h
  | some target =>
    obtain rfl := Except.ok.inj h
    exact .of_unlabelled (convertTo_unlabelled _ _ target)

theorem jumpIf_labels (c : Comparison) (a b : Reg) (target : Label) :
    HasLabels (jumpIf c a b target) [] [target] := by
  unfold jumpIf
  split <;> exact ⟨rfl, rfl⟩

theorem jumpIfWide_labels (c : Comparison) (taken notTaken : Label) :
    HasLabels (jumpIfWide c taken notTaken) []
      (c.highWord?.toList.map (fun _ => taken) ++ [notTaken, taken]) := by
  have hrest : HasLabels (Instr.bne .t1 .t3 notTaken ++ jumpIf c.lowWord .t0 .t2 taken) []
      [notTaken, taken] :=
    (bne_labels .t1 .t3 notTaken).append (jumpIf_labels c.lowWord .t0 .t2 taken)
  unfold jumpIfWide
  rw [List.append_assoc]
  cases c.highWord? with
  | none => exact hrest
  | some high => exact (jumpIf_labels high .t1 .t3 taken).append hrest

theorem compare_labels (effect : Effect) (op : CompareOp) :
    TemplateLabels ctx i (compare ctx i effect op) := by
  have hfalse : HasLabels [Instr.label (ctx.inside i "False" 1)] [ctx.inside i "False" 1] [] :=
    ⟨rfl, rfl⟩
  have htrue : HasLabels [Instr.label (ctx.inside i "True" 0), .addiu .t8 .zero 1]
      [ctx.inside i "True" 0] [] := ⟨rfl, rfl⟩
  have hend : HasLabels [Instr.label (ctx.inside i "End" 2)] [ctx.inside i "End" 2] [] := ⟨rfl, rfl⟩
  have hpush : ∀ reg, Unlabelled (Instr.push reg) := fun _ => ⟨rfl, rfl⟩
  unfold compare
  cases isWide (effect.operand 0) with
  | false =>
    have hjump := jumpIf_labels (Comparison.ofCompare op) .t0 .t2 (ctx.inside i "True" 0)
    have hall := ((((((popOperands_unlabelled false).append hjump).append hfalse).append
      (hpush .zero)).append (jump_labels (ctx.inside i "End" 2))).append htrue).append
      (hpush .t8) |>.append hend
    exact .of_hasLabels [("False", 1), ("True", 0), ("End", 2)] hall (by decide) (by simp [insides])
  | true =>
    have hjump := jumpIfWide_labels (Comparison.ofCompare op) (ctx.inside i "True" 0)
      (ctx.inside i "False" 1)
    have hall := ((((((popOperands_unlabelled true).append hjump).append hfalse).append
      (hpush .zero)).append (jump_labels (ctx.inside i "End" 2))).append htrue).append
      (hpush .t8) |>.append hend
    refine .of_hasLabels [("False", 1), ("True", 0), ("End", 2)] hall (by decide) ?_
    cases (Comparison.ofCompare op).highWord? <;> simp [insides]

theorem branchZero_labels (wide onZero : Bool) (target : Label) :
    HasLabels (branchZero wide onZero target) [] [target] := by
  unfold branchZero
  cases wide <;> cases onZero <;> exact ⟨rfl, rfl⟩

/-- A branch binds the label behind it where double words need one, and goes there or to its
target. -/
theorem branchTo_labels {wide : Bool} {condition : BranchCondition} {target : Label}
    (hgoes : GoesTo ctx i target) :
    TemplateLabels ctx i (branchTo ctx i wide condition target) := by
  have honly : ∀ l ∈ [target], GoesTo ctx i l := by simpa using hgoes
  unfold branchTo
  cases Comparison.ofBranch? condition with
  | none =>
    have hlabels : HasLabels (if condition = .always then Instr.jump target
        else branchZero wide (condition = .isFalse) target) [] [target] :=
      .ite (jump_labels target) (branchZero_labels wide _ target)
    exact .of_goesTo hlabels honly
  | some c =>
    cases wide with
    | false => exact .of_goesTo ((popOperands_unlabelled false).append (jumpIf_labels c .t0 .t2 target)) honly
    | true =>
      have hskip : HasLabels [Instr.label (ctx.inside i "Skip" 0)] (insides ctx i [("Skip", 0)])
        [] := ⟨rfl, rfl⟩
      have hjump := jumpIfWide_labels c target (ctx.inside i "Skip" 0)
      have hlabels := (popOperands_unlabelled true).append (hjump.append hskip)
      refine .of_hasLabels [("Skip", 0)] hlabels (by decide) ?_
      cases c.highWord? <;> simp [insides, hgoes]

theorem branch_labels {effect : Effect} {condition : BranchCondition} {code : List Instr}
    (h : branch ctx i effect condition = .ok code) : TemplateLabels ctx i code := by
  obtain ⟨t, ht, h⟩ := answer_bind.mp h
  obtain ⟨target, htarget, h⟩ := answer_bind.mp h
  obtain rfl := Except.ok.inj h
  exact branchTo_labels ctx i
    (goesTo_of_targetLabel (targets_of_branchTarget ht) (List.mem_singleton_self t) htarget)

theorem leave_labels {effect : Effect} {code : List Instr} (h : leave ctx i effect = .ok code) :
    TemplateLabels ctx i code := by
  obtain ⟨t, ht, h⟩ := answer_bind.mp h
  obtain ⟨target, htarget, h⟩ := answer_bind.mp h
  obtain rfl := Except.ok.inj h
  refine .of_goesTo ((drop_unlabelled _).append (jump_labels target)) ?_
  simpa using goesTo_of_targetLabel (targets_of_branchTarget ht) (List.mem_singleton_self t) htarget

theorem switchCases_labels (case : Nat) (targets : List Int)
    (hfailure : (switchCases ctx i case targets).failure = none) :
    ∃ used, HasLabels (switchCases ctx i case targets).code [] used ∧
      ∀ l ∈ used, ∃ t ∈ targets, ctx.targetLabel i t = .ok l := by
  induction targets generalizing case with
  | nil => exact ⟨[], .nil, by simp⟩
  | cons t targets ih =>
    unfold switchCases at hfailure ⊢
    cases hlabel : ctx.targetLabel i t with
    | error e => simp [hlabel] at hfailure
    | ok l =>
      simp only [hlabel] at hfailure ⊢
      obtain ⟨used, hused, hmem⟩ := ih (case + 1) hfailure
      refine ⟨l :: used, HasLabels.cons rfl rfl ((beq_labels .t0 .t5 l).append hused), ?_⟩
      rw [List.forall_mem_cons]
      refine ⟨⟨t, by simp, hlabel⟩, fun l' hl' => ?_⟩
      obtain ⟨t', ht', hl''⟩ := hmem l' hl'
      exact ⟨t', by simp [ht'], hl''⟩

theorem switch_labels (hop : i.op.operation = .switch) (hfailure : (switch ctx i).failure = none) :
    TemplateLabels ctx i (switch ctx i).code := by
  unfold switch at hfailure ⊢
  cases htargets : i.switchTargets with
  | error e => simp [htargets] at hfailure
  | ok targets =>
    simp only [htargets] at hfailure ⊢
    obtain ⟨used, hused, hmem⟩ := switchCases_labels ctx i 0 targets hfailure
    refine .of_goesTo ((⟨rfl, rfl⟩ : Unlabelled (Instr.pop .t0)).append hused) fun l hl => ?_
    obtain ⟨t, ht, hlabel⟩ := hmem l hl
    exact goesTo_of_targetLabel (targets_of_switchTargets hop htargets) ht hlabel

theorem returnValue_unlabelled {bytes : Nat} {code : List Instr}
    (h : returnValue i bytes = .ok code) : Unlabelled code := by
  unfold returnValue at h
  split at h
  · obtain rfl := Except.ok.inj h
    exact .nil
  · obtain rfl := Except.ok.inj h
    exact ⟨rfl, rfl⟩
  · obtain rfl := Except.ok.inj h
    exact ⟨rfl, rfl⟩
  · obtain ⟨_, -, h⟩ := answer_bind.mp h
    obtain rfl := Except.ok.inj h
    exact unlabelled_flatMap _ fun _ _ => ⟨rfl, rfl⟩

theorem ret_labels {effect : Effect} {code : List Instr} (hop : i.op.operation = .ret)
    (h : ret ctx i effect = .ok code) : TemplateLabels ctx i code := by
  obtain ⟨value, hvalue, h⟩ := answer_bind.mp h
  obtain rfl := Except.ok.inj h
  refine .of_goesTo ((returnValue_unlabelled i hvalue).append (jump_labels ctx.endLabel)) ?_
  simpa using GoesTo.methodEnd hop

/-! ## Storage

These templates have the labels of the checks they contain. -/

section Storage

variable {ctx i} {code : List Instr}

theorem loadSlot_labels {isArg : Bool} (h : loadSlot ctx i isArg = .ok code) :
    TemplateLabels ctx i code := by
  obtain ⟨⟨words, base⟩, -, h⟩ := answer_bind.mp h
  obtain rfl := Except.ok.inj h
  exact .of_unlabelled (unlabelled_flatMap _ fun _ _ => ⟨rfl, rfl⟩)

theorem storeSlot_labels {isArg : Bool} (h : storeSlot ctx i isArg = .ok code) :
    TemplateLabels ctx i code := by
  obtain ⟨⟨words, base⟩, -, h⟩ := answer_bind.mp h
  obtain rfl := Except.ok.inj h
  exact .of_unlabelled (unlabelled_flatMap _ fun _ _ => ⟨rfl, rfl⟩)

theorem slotAddress_labels {isArg : Bool} (h : slotAddress ctx i isArg = .ok code) :
    TemplateLabels ctx i code := by
  obtain ⟨⟨words, base⟩, -, h⟩ := answer_bind.mp h
  obtain rfl := Except.ok.inj h
  exact .of_unlabelled ⟨rfl, rfl⟩

theorem loadConst_labels (h : loadConst i = .ok code) : TemplateLabels ctx i code := by
  unfold loadConst at h
  split at h
  · obtain ⟨value, -, rfl⟩ := answer_map.mp h
    exact .of_unlabelled (unlabelled_append (pushImm_unlabelled _) (pushImm_unlabelled _))
  · obtain ⟨value, -, rfl⟩ := answer_map.mp h
    exact .of_unlabelled (pushImm_unlabelled value)

theorem loadSymbol_labels {symbol : Except CompileError Symbol} (h : loadSymbol symbol = .ok code) :
    TemplateLabels ctx i code := by
  obtain ⟨s, -, rfl⟩ := answer_map.mp h
  exact .of_unlabelled ⟨rfl, rfl⟩

theorem sizeOf_labels (h : sizeOf ctx i = .ok code) : TemplateLabels ctx i code := by
  obtain ⟨access, -, rfl⟩ := answer_map.mp h
  exact .of_unlabelled (pushImm_unlabelled _)

theorem dup_labels {effect : Effect} (h : dup i effect = .ok code) : TemplateLabels ctx i code := by
  obtain ⟨offset, -, h⟩ := answer_bind.mp h
  obtain rfl := Except.ok.inj h
  rw [← List.flatMap_id]
  refine .of_unlabelled (unlabelled_flatMap _ fun part hpart => ?_)
  rw [List.eq_of_mem_replicate hpart]
  exact ⟨rfl, rfl⟩

theorem pop_unlabelled (effect : Effect) : Unlabelled (pop effect) :=
  unlabelled_append (.ite ⟨rfl, rfl⟩ .nil) (drop_unlabelled _)

theorem loadField_labels (h : loadField ctx i = .ok code) : TemplateLabels ctx i code := by
  obtain ⟨⟨field, access, offset⟩, -, h⟩ := answer_bind.mp h
  obtain rfl := Except.ok.inj h
  exact (TemplateLabels.prepend ⟨rfl, rfl⟩ (nullCheck_templateLabels ctx i .t0)).append
    (pushFromMemory_unlabelled _ _ _ _ _)

theorem loadFieldAddress_labels (h : loadFieldAddress ctx i = .ok code) :
    TemplateLabels ctx i code := by
  obtain ⟨⟨field, access, offset⟩, -, h⟩ := answer_bind.mp h
  obtain rfl := Except.ok.inj h
  exact ((TemplateLabels.prepend ⟨rfl, rfl⟩ (nullCheck_templateLabels ctx i .t0)).append
    ⟨rfl, rfl⟩).append ⟨rfl, rfl⟩

theorem storeField_labels {effect : Effect} (h : storeField ctx i effect = .ok code) :
    TemplateLabels ctx i code := by
  obtain ⟨⟨field, access, offset⟩, -, h⟩ := answer_bind.mp h
  obtain ⟨value, -, h⟩ := answer_bind.mp h
  obtain rfl := Except.ok.inj h
  exact ((TemplateLabels.prepend ⟨rfl, rfl⟩ (nullCheck_templateLabels ctx i .t0)).append
    (popToMemory_unlabelled _ _ _ _)).append (drop_unlabelled 4)

theorem loadStatic_labels (h : loadStatic ctx i = .ok code) : TemplateLabels ctx i code := by
  obtain ⟨⟨field, access, offset⟩, -, h⟩ := answer_bind.mp h
  obtain rfl := Except.ok.inj h
  exact .of_unlabelled (HasLabels.cons rfl rfl (pushFromMemory_unlabelled _ _ _ _ _))

theorem loadStaticAddress_labels (h : loadStaticAddress ctx i = .ok code) :
    TemplateLabels ctx i code := by
  obtain ⟨⟨field, access, offset⟩, -, h⟩ := answer_bind.mp h
  obtain rfl := Except.ok.inj h
  exact .of_unlabelled ⟨rfl, rfl⟩

theorem storeStatic_labels (h : storeStatic ctx i = .ok code) : TemplateLabels ctx i code := by
  obtain ⟨⟨field, access, offset⟩, -, h⟩ := answer_bind.mp h
  obtain rfl := Except.ok.inj h
  exact .of_unlabelled (HasLabels.cons rfl rfl (popToMemory_unlabelled _ _ _ _))

theorem loadIndirect_labels {kind : ValueKind} (h : loadIndirect ctx i kind = .ok code) :
    TemplateLabels ctx i code := by
  obtain ⟨access, -, h⟩ := answer_bind.mp h
  obtain rfl := Except.ok.inj h
  exact (TemplateLabels.prepend ⟨rfl, rfl⟩ (guardIndirect_labels ctx i .t0)).append
    (pushFromMemory_unlabelled _ _ _ _ _)

theorem storeIndirect_labels {effect : Effect} {kind : ValueKind}
    (h : storeIndirect ctx i effect kind = .ok code) : TemplateLabels ctx i code := by
  obtain ⟨access, -, h⟩ := answer_bind.mp h
  obtain ⟨value, -, h⟩ := answer_bind.mp h
  obtain rfl := Except.ok.inj h
  exact ((TemplateLabels.prepend ⟨rfl, rfl⟩ (guardIndirect_labels ctx i .t0)).append
    (popToMemory_unlabelled _ _ _ _)).append (drop_unlabelled 4)

theorem initObject_labels (h : initObject ctx i = .ok code) : TemplateLabels ctx i code := by
  obtain ⟨access, -, h⟩ := answer_bind.mp h
  obtain rfl := Except.ok.inj h
  exact (TemplateLabels.prepend ⟨rfl, rfl⟩ (guardIndirect_labels ctx i .t0)).append
    (zeroFrom_unlabelled _ _ _ _ _)

theorem loadLength_labels : TemplateLabels ctx i (loadLength ctx i) :=
  ((TemplateLabels.prepend ⟨rfl, rfl⟩ (nullCheck_templateLabels ctx i .t0)).append
    ⟨rfl, rfl⟩).append ⟨rfl, rfl⟩

theorem loadElement_labels {kind : ValueKind} (h : loadElement ctx i kind = .ok code) :
    TemplateLabels ctx i code := by
  obtain ⟨access, -, h⟩ := answer_bind.mp h
  obtain ⟨header, -, h⟩ := answer_bind.mp h
  obtain rfl := Except.ok.inj h
  exact (TemplateLabels.prepend ⟨rfl, rfl⟩ (elementBase_templateLabels ctx i .t0 .t2 _)).append
    (pushFromMemory_unlabelled _ _ _ _ _)

theorem loadElementAddress_labels (h : loadElementAddress ctx i = .ok code) :
    TemplateLabels ctx i code := by
  obtain ⟨access, -, h⟩ := answer_bind.mp h
  obtain ⟨header, -, h⟩ := answer_bind.mp h
  obtain rfl := Except.ok.inj h
  exact ((TemplateLabels.prepend ⟨rfl, rfl⟩ (elementBase_templateLabels ctx i .t0 .t2 _)).append
    ⟨rfl, rfl⟩).append ⟨rfl, rfl⟩

theorem storeElement_labels {effect : Effect} {kind : ValueKind}
    (h : storeElement ctx i effect kind = .ok code) : TemplateLabels ctx i code := by
  obtain ⟨access, -, h⟩ := answer_bind.mp h
  obtain ⟨header, -, h⟩ := answer_bind.mp h
  obtain ⟨value, -, h⟩ := answer_bind.mp h
  obtain rfl := Except.ok.inj h
  exact ((TemplateLabels.prepend ⟨rfl, rfl⟩ (elementBase_templateLabels ctx i .t0 .t2 _)).append
    (popToMemory_unlabelled _ _ _ _)).append (drop_unlabelled 8)

end Storage

/-! ## Calls and allocation -/

theorem prologue_unlabelled : Unlabelled (prologue ctx) := by
  refine unlabelled_append ⟨rfl, rfl⟩ ?_
  rw [← List.flatMap_id]
  refine unlabelled_flatMap _ fun part hpart => ?_
  rw [List.eq_of_mem_replicate hpart]
  exact ⟨rfl, rfl⟩

theorem epilogue_unlabelled : Unlabelled (epilogue ctx) := by
  unfold epilogue
  split <;> exact ⟨rfl, rfl⟩

theorem callIndirect_unlabelled (effect : Effect) : Unlabelled (callIndirect effect) :=
  unlabelled_append
    (unlabelled_append (unlabelled_append ⟨rfl, rfl⟩ (reserve_unlabelled _)) ⟨rfl, rfl⟩)
    (afterCall_unlabelled _ _)

theorem dispatch_labels (slot ret : Nat) :
    HasLabels (dispatch ctx i slot ret) (insides ctx i [("Scan", 1), ("Next", 2), ("Found", 3)])
      (insides ctx i [("Found", 3), ("Next", 2), ("Scan", 1), ("Scan", 1)]) := by
  have hstart : HasLabels [Instr.lw .t0 (Int32.ofNat ctx.options.layout.typePointer) .t0,
      .lw .t0 (Int32.ofNat ctx.options.layout.typeMethodTable) .t0, .li .t5 (Int32.ofNat slot),
      .label (ctx.inside i "Scan" 1), .lw .t4 0 .t0] [ctx.inside i "Scan" 1] [] := ⟨rfl, rfl⟩
  have hbase : Unlabelled [Instr.lw .t0 4 .t0] := ⟨rfl, rfl⟩
  have hhalt := pushImm_unlabelled HaltReason.missingVirtualMethod.code.toInt32
  have hcall : Unlabelled (Instr.callSymbol Intrinsic.halt.symbol) := ⟨rfl, rfl⟩
  have hnext : HasLabels [Instr.label (ctx.inside i "Next" 2), .addiu .t0 .t0 8]
      [ctx.inside i "Next" 2] [] := ⟨rfl, rfl⟩
  have hfound : HasLabels [Instr.label (ctx.inside i "Found" 3), .lw .t9 4 .t0]
      [ctx.inside i "Found" 3] [] := ⟨rfl, rfl⟩
  have hscan := ((((hstart.append (beq_labels .t4 .t5 (ctx.inside i "Found" 3))).append
    (bne_labels .t4 .zero (ctx.inside i "Next" 2))).append hbase).append
    (bne_labels .t0 .zero (ctx.inside i "Scan" 1)))
  have hsearch := (((hscan.append hhalt).append hcall).append hnext).append
    (jump_labels (ctx.inside i "Scan" 1))
  exact ((hsearch.append hfound).append (reserve_unlabelled ret)).append
    (⟨rfl, rfl⟩ : Unlabelled (Instr.callReg .t9))

section Calls

variable {ctx i} {code : List Instr} {effect : Effect}

theorem call_labels (h : call ctx i effect = .ok code) : TemplateLabels ctx i code := by
  obtain ⟨m, -, h⟩ := answer_bind.mp h
  obtain rfl := Except.ok.inj h
  exact .of_unlabelled (unlabelled_append (unlabelled_append (reserve_unlabelled _) ⟨rfl, rfl⟩)
    (afterCall_unlabelled _ _))

theorem callVirtual_labels (h : callVirtual ctx i effect = .ok code) : TemplateLabels ctx i code := by
  obtain ⟨⟨m, declaring⟩, -, h⟩ := answer_bind.mp h
  obtain ⟨this, -, h⟩ := answer_bind.mp h
  obtain rfl := Except.ok.inj h
  refine .append ?_ (afterCall_unlabelled _ _)
  split
  · exact ((TemplateLabels.prepend ⟨rfl, rfl⟩ (nullCheck_templateLabels ctx i .t9)).append
      (reserve_unlabelled _)).append ⟨rfl, rfl⟩
  · split
    · exact ((TemplateLabels.prepend ⟨rfl, rfl⟩ (nullCheck_templateLabels ctx i .t0)).append
        (reserve_unlabelled _)).append ⟨rfl, rfl⟩
    · -- the labels of the search are numbered after that of the null check
      have hload : Unlabelled [Instr.lw .t0 this .sp] := ⟨rfl, rfl⟩
      exact .of_own [("NotNull", 0), ("Scan", 1), ("Next", 2), ("Found", 3)]
        [("NotNull", 0), ("Found", 3), ("Next", 2), ("Scan", 1), ("Scan", 1)]
        ((hload.append (nullCheck_labels ctx i .t0)).append (dispatch_labels ctx i _ _))
        (by decide) (by decide)

theorem checkAllocation_labels : HasLabels (checkAllocation ctx i) (insides ctx i [("Allocated", 0)])
    (insides ctx i [("Allocated", 0)]) := ⟨rfl, rfl⟩

theorem allocate_labels (allocator : Intrinsic) (descriptor : Symbol) :
    TemplateLabels ctx i (allocate ctx i allocator descriptor) := by
  have hcall : Unlabelled (Instr.pushAddr descriptor ++ Instr.reserve allocator.returnBytes ++
      Instr.callSymbol allocator.symbol ++ Instr.pop .t0 ++ Instr.drop allocator.argBytes) := by
    refine unlabelled_append (unlabelled_append (unlabelled_append (unlabelled_append ?_ ?_) ?_) ?_)
      (drop_unlabelled _)
    · exact ⟨rfl, rfl⟩
    · exact reserve_unlabelled _
    · exact ⟨rfl, rfl⟩
    · exact ⟨rfl, rfl⟩
  exact .prepend hcall (.of_own _ _ checkAllocation_labels (by decide) (by decide))

theorem construct_labels (descriptor ctor : Symbol) (params : Nat) :
    TemplateLabels ctx i (construct ctx i descriptor ctor params) :=
  (((((allocate_labels .newObject descriptor).append (reserve_unlabelled 8)).append
    (unlabelled_flatMap _ fun _ _ => ⟨rfl, rfl⟩)).append ⟨rfl, rfl⟩).append ⟨rfl, rfl⟩).append
    (drop_unlabelled _)

theorem newObject_labels (h : newObject ctx i = .ok code) : TemplateLabels ctx i code := by
  obtain ⟨⟨ctor, declaring⟩, -, h⟩ := answer_bind.mp h
  dsimp only at h
  split at h
  · obtain rfl := Except.ok.inj h
    exact .of_unlabelled ⟨rfl, rfl⟩
  · obtain ⟨params, -, h⟩ := answer_bind.mp h
    obtain ⟨_, -, h⟩ := answer_bind.mp h
    obtain rfl := Except.ok.inj h
    exact construct_labels _ _ _

theorem newArray_labels (h : newArray ctx i = .ok code) : TemplateLabels ctx i code := by
  obtain ⟨t, -, h⟩ := answer_bind.mp h
  obtain rfl := Except.ok.inj h
  exact (allocate_labels .newArray t.symbol).append ⟨rfl, rfl⟩

theorem typeTest_labels {isCast : Bool} (h : typeTest ctx i isCast = .ok code) :
    TemplateLabels ctx i code := by
  obtain ⟨t, -, h⟩ := answer_bind.mp h
  obtain rfl := Except.ok.inj h
  have hscan : HasLabels [Instr.lw .t4 (Int32.ofNat ctx.options.layout.typePointer) .t0,
      .la .t5 t.symbol, .label (ctx.inside i "Scan" 0)] [ctx.inside i "Scan" 0] [] := ⟨rfl, rfl⟩
  have hpop : Unlabelled (Instr.pop .t0) := ⟨rfl, rfl⟩
  have hbase : Unlabelled [Instr.lw .t4 (Int32.ofNat ctx.options.layout.typeBase) .t4] := ⟨rfl, rfl⟩
  have hfailed : HasLabels [Instr.label (ctx.inside i "Failed" 1)] [ctx.inside i "Failed" 1] [] :=
    ⟨rfl, rfl⟩
  have hanswer : Unlabelled
      (if isCast then throwHere .throwInvalidCast else [Instr.move .t0 .zero]) :=
    .ite ⟨rfl, rfl⟩ ⟨rfl, rfl⟩
  have hdone : HasLabels [Instr.label (ctx.inside i "Done" 2)] [ctx.inside i "Done" 2] [] :=
    ⟨rfl, rfl⟩
  have hpush : Unlabelled (Instr.push .t0) := ⟨rfl, rfl⟩
  have hloop := (((((hpop.append (beq_labels .t0 .zero (ctx.inside i "Done" 2))).append
    hscan).append (beq_labels .t4 .zero (ctx.inside i "Failed" 1))).append
    (beq_labels .t4 .t5 (ctx.inside i "Done" 2))).append hbase).append
    (jump_labels (ctx.inside i "Scan" 0))
  have hall := (((hloop.append hfailed).append hanswer).append hdone).append hpush
  exact .of_own [("Scan", 0), ("Failed", 1), ("Done", 2)]
    [("Done", 2), ("Failed", 1), ("Done", 2), ("Scan", 0)] hall (by decide) (by decide)

end Calls

/-! ## All templates -/

theorem emit_labels {effect : Effect} (hfailure : (emit ctx i effect).failure = none) :
    TemplateLabels ctx i (emit ctx i effect).code := by
  revert hfailure
  unfold emit
  cases hop : i.op.operation with
  | nop | throw => exact fun _ => .of_unlabelled ⟨rfl, rfl⟩
  | loadNull => exact fun _ => .of_unlabelled (pushImm_unlabelled 0)
  | methodStart => exact fun _ => .of_unlabelled (prologue_unlabelled ctx)
  | methodEnd => exact fun _ => .of_unlabelled (epilogue_unlabelled ctx)
  | ret => exact fun h => .ofExcept h fun _ => ret_labels ctx i hop
  | loadArg | loadLocal => exact fun h => .ofExcept h fun _ => loadSlot_labels
  | storeArg | storeLocal => exact fun h => .ofExcept h fun _ => storeSlot_labels
  | loadArgAddress | loadLocalAddress => exact fun h => .ofExcept h fun _ => slotAddress_labels
  | loadConst => exact fun h => .ofExcept h fun _ => loadConst_labels
  | loadString | loadToken | loadFunction => exact fun h => .ofExcept h fun _ => loadSymbol_labels
  | sizeOf => exact fun h => .ofExcept h fun _ => sizeOf_labels
  | dup => exact fun h => .ofExcept h fun _ => dup_labels
  | pop => exact fun _ => .of_unlabelled (pop_unlabelled effect)
  | binary op => exact fun h => .ofExcept h fun _ => binary_labels ctx i
  | unary op => exact fun _ => .of_unlabelled (unary_unlabelled effect op)
  | shift op => exact fun _ => shift_labels ctx i effect op
  | compare op => exact fun _ => compare_labels ctx i effect op
  | convert target => exact fun h => .ofExcept h fun _ => convert_labels ctx i
  | branch condition => exact fun h => .ofExcept h fun _ => branch_labels ctx i
  | switch => exact fun h => switch_labels ctx i hop h
  | leave => exact fun h => .ofExcept h fun _ => leave_labels ctx i
  | loadField => exact fun h => .ofExcept h fun _ => loadField_labels
  | loadFieldAddress => exact fun h => .ofExcept h fun _ => loadFieldAddress_labels
  | storeField => exact fun h => .ofExcept h fun _ => storeField_labels
  | loadStatic => exact fun h => .ofExcept h fun _ => loadStatic_labels
  | loadStaticAddress => exact fun h => .ofExcept h fun _ => loadStaticAddress_labels
  | storeStatic => exact fun h => .ofExcept h fun _ => storeStatic_labels
  | loadIndirect kind => exact fun h => .ofExcept h fun _ => loadIndirect_labels
  | storeIndirect kind => exact fun h => .ofExcept h fun _ => storeIndirect_labels
  | loadLength => exact fun _ => loadLength_labels
  | loadElement kind => exact fun h => .ofExcept h fun _ => loadElement_labels
  | loadElementAddress => exact fun h => .ofExcept h fun _ => loadElementAddress_labels
  | storeElement kind => exact fun h => .ofExcept h fun _ => storeElement_labels
  | call => exact fun h => .ofExcept h fun _ => call_labels
  | callIndirect => exact fun _ => .of_unlabelled (callIndirect_unlabelled effect)
  | callVirtual => exact fun h => .ofExcept h fun _ => callVirtual_labels
  | newObject => exact fun h => .ofExcept h fun _ => newObject_labels
  | newArray => exact fun h => .ofExcept h fun _ => newArray_labels
  | isInstance | castClass => exact fun h => .ofExcept h fun _ => typeTest_labels
  | initObject => exact fun h => .ofExcept h fun _ => initObject_labels

end Stencil.Mips
