import Stencil.Proofs.Labels.Basic
import Stencil.X86.Backend

/-!
# Labels of the x86 templates

What each template binds and where it goes. Most templates have no labels; the others number theirs,
so that checks and searches can stand in one template.
-/

namespace Stencil.X86

open Stateful

instance : LabelUse Instr where
  uses?
    | .jmp (.label l) | .call (.label l) | .jcc _ l => some l
    | _ => none
  asLabel?_label _ := rfl
  uses?_label _ := rfl

variable (ctx : EmitContext) (i : Instruction)

/-! ## Parts of templates -/

theorem drop_unlabelled (bytes : Nat) : Unlabelled (Instr.drop bytes) := by
  unfold Instr.drop
  split <;> exact ⟨rfl, rfl⟩

theorem reserve_unlabelled (bytes : Nat) : Unlabelled (Instr.reserve bytes) := by
  unfold Instr.reserve
  split <;> exact ⟨rfl, rfl⟩

theorem nullCheck_labels (reg : Reg) :
    HasLabels (nullCheck ctx i reg) (insides ctx i [("NotNull", 0)])
      (insides ctx i [("NotNull", 0)]) := ⟨rfl, rfl⟩

theorem boundsCheck_labels (array index : Reg) :
    HasLabels (boundsCheck ctx i array index) (insides ctx i [("OutOfRange", 1), ("InRange", 2)])
      (insides ctx i [("OutOfRange", 1), ("InRange", 2)]) := ⟨rfl, rfl⟩

theorem scaleIndex_unlabelled (array index : Reg) (stride : Nat) :
    Unlabelled (scaleIndex array index stride) := by
  unfold scaleIndex
  split <;> exact ⟨rfl, rfl⟩

theorem elementBase_labels (array index : Reg) (stride : Nat) :
    HasLabels (elementBase ctx i array index stride)
      (insides ctx i [("NotNull", 0), ("OutOfRange", 1), ("InRange", 2)])
      (insides ctx i [("NotNull", 0), ("OutOfRange", 1), ("InRange", 2)]) :=
  ((nullCheck_labels ctx i array).append (boundsCheck_labels ctx i array index)).append
    (scaleIndex_unlabelled array index stride)

theorem pushWord_unlabelled (m : Mem) (bytes : Nat) (signed : Bool) :
    Unlabelled (pushWord m bytes signed) := by
  unfold pushWord loadTail
  split
  · exact ⟨rfl, rfl⟩
  · split <;> cases signed <;> exact ⟨rfl, rfl⟩

theorem pushFromMemory_unlabelled (m : Mem) (storage : Nat) (signed : Bool) :
    Unlabelled (pushFromMemory m storage signed) :=
  unlabelled_flatMap _ fun _ _ => pushWord_unlabelled _ _ _

theorem popWord_unlabelled (m : Mem) (bytes : Nat) : Unlabelled (popWord m bytes) := by
  unfold popWord
  split <;> exact ⟨rfl, rfl⟩

theorem popToMemory_unlabelled (m : Mem) (storage : Nat) : Unlabelled (popToMemory m storage) :=
  unlabelled_flatMap _ fun _ _ => popWord_unlabelled _ _

theorem zeroMemory_unlabelled (m : Mem) (storage : Nat) : Unlabelled (zeroMemory m storage) := by
  refine (unlabelled_map _ fun _ => ⟨rfl, rfl⟩).append ?_
  split <;> exact ⟨rfl, rfl⟩

theorem popOperands_unlabelled (wide : Bool) : Unlabelled (popOperands wide) := by
  cases wide <;> exact ⟨rfl, rfl⟩

theorem pushResult_unlabelled (wide : Bool) : Unlabelled (pushResult wide) := by
  cases wide <;> exact ⟨rfl, rfl⟩

theorem afterCall_unlabelled (ret args : Nat) : Unlabelled (afterCall ret args) := by
  have hdrop := drop_unlabelled args
  unfold afterCall
  split
  · exact .nil
  · split
    · exact hdrop
    · exact (HasLabels.append ⟨rfl, rfl⟩ hdrop).append ⟨rfl, rfl⟩
    · exact (HasLabels.append ⟨rfl, rfl⟩ hdrop).append ⟨rfl, rfl⟩
    · exact (unlabelled_flatMap _ fun _ _ => ⟨rfl, rfl⟩).append hdrop

/-! ## Integers and decisions -/

theorem binary_unlabelled (effect : Effect) (op : BinaryOp) :
    Unlabelled (binary i effect op).code := by
  unfold binary
  split
  · cases op <;> exact ⟨rfl, rfl⟩
  · cases op <;> exact ⟨rfl, rfl⟩

theorem unary_unlabelled (effect : Effect) (op : UnaryOp) : Unlabelled (unary effect op) := by
  unfold unary
  cases isWide (effect.operand 0) <;> cases op <;> exact ⟨rfl, rfl⟩

theorem shiftWord_labels (op : ShiftOp) (wideCount : Bool) :
    TemplateLabels ctx i (shiftWord ctx i op wideCount) := by
  cases wideCount with
  | false => exact .of_unlabelled ⟨rfl, rfl⟩
  | true =>
    refine .of_own [("Saturate", 0), ("Done", 1)] [("Saturate", 0), ("Done", 1)] ⟨?_, ?_⟩
      (by decide) (by decide)
    all_goals cases op <;> rfl

theorem shiftWide_labels (op : ShiftOp) (wideCount : Bool) :
    TemplateLabels ctx i (shiftWide ctx i op wideCount) := by
  refine .of_own [("Big", 1), ("Saturate", 0), ("Done", 2)]
    ((if wideCount then [("Saturate", 0)] else []) ++
      [("Saturate", 0), ("Big", 1), ("Done", 2), ("Done", 2)]) ⟨?_, ?_⟩ (by decide) ?_
  · cases wideCount <;> cases op <;> rfl
  · cases wideCount <;> cases op <;> rfl
  · cases wideCount <;> decide

theorem shift_labels (effect : Effect) (op : ShiftOp) :
    TemplateLabels ctx i (shift ctx i effect op) := by
  have hcount : Unlabelled ([Instr.popReg .ecx] ++
      (if isWide (effect.operand 0) then [Instr.popReg .esi] else []) ++ [Instr.popReg .eax]) := by
    split <;> exact ⟨rfl, rfl⟩
  refine (TemplateLabels.prepend hcount ?_).append (pushResult_unlabelled _)
  split
  · exact .prepend (⟨rfl, rfl⟩ : Unlabelled [Instr.popReg .edx]) (shiftWide_labels ctx i op _)
  · exact shiftWord_labels ctx i op _

theorem convertTo_unlabelled (pointerSize size : Nat) (target : ConvTarget) :
    Unlabelled (convertTo pointerSize size target) := by
  have hnarrow : ∀ signed size, Unlabelled (narrow signed size) := by
    intro signed size
    unfold narrow
    split <;> cases signed <;> exact ⟨rfl, rfl⟩
  unfold convertTo
  split
  · exact .nil
  · exact .nil
  · split <;> exact ⟨rfl, rfl⟩
  · refine unlabelled_append (unlabelled_append (unlabelled_append ⟨rfl, rfl⟩ ?_) (hnarrow _ _))
      ⟨rfl, rfl⟩
    exact .ite (drop_unlabelled 4) .nil

theorem convert_labels {effect : Effect} {target : Option ConvTarget} {code : List Instr}
    (h : convert ctx i effect target = .ok code) : TemplateLabels ctx i code := by
  cases target with
  | none => cases h
  | some target =>
    obtain rfl := Except.ok.inj h
    exact .of_unlabelled (convertTo_unlabelled _ _ target)

theorem jumpIfWide_labels (c : Comparison) (taken notTaken : Label) :
    HasLabels (jumpIfWide c taken notTaken) []
      (c.highWord?.toList.map (fun _ => taken) ++ [notTaken, taken]) := by
  unfold jumpIfWide
  cases c.highWord? <;> exact ⟨rfl, rfl⟩

theorem compare_labels (effect : Effect) (op : CompareOp) :
    TemplateLabels ctx i (compare ctx i effect op) := by
  unfold compare
  cases isWide (effect.operand 0) with
  | false =>
    exact .of_own [("False", 1), ("True", 0), ("End", 2)] [("True", 0), ("End", 2)] ⟨rfl, rfl⟩
      (by decide) (by decide)
  | true =>
    refine .of_own [("False", 1), ("True", 0), ("End", 2)]
      ((Comparison.ofCompare op).highWord?.toList.map (fun _ => ("True", 0)) ++
        [("False", 1), ("True", 0), ("End", 2)]) ⟨?_, ?_⟩ (by decide) ?_
    all_goals cases op <;> first | rfl | decide

/-- A branch binds the label behind it where double words need one, and goes there or to its
target. -/
theorem branchTo_labels {wide : Bool} {condition : BranchCondition} {target : Label}
    (hgoes : GoesTo ctx i target) :
    TemplateLabels ctx i (branchTo ctx i wide condition target) := by
  have honly : ∀ l ∈ [target], GoesTo ctx i l := by simpa using hgoes
  unfold branchTo
  cases Comparison.ofBranch? condition with
  | none =>
    have hlabels : HasLabels (if condition = .always then [Instr.jump target]
        else branchZero wide (condition = .isFalse) target) [] [target] := by
      refine .ite ⟨rfl, rfl⟩ ?_
      unfold branchZero
      cases wide <;> exact ⟨rfl, rfl⟩
    exact .of_goesTo hlabels honly
  | some c =>
    cases wide with
    | false => exact .of_goesTo ((popOperands_unlabelled false).append ⟨rfl, rfl⟩) honly
    | true =>
      have hskip : HasLabels [Instr.label (ctx.inside i "Skip" 0)] (insides ctx i [("Skip", 0)])
        [] := ⟨rfl, rfl⟩
      have hjump := jumpIfWide_labels c target (ctx.inside i "Skip" 0)
      have hlabels := (popOperands_unlabelled true).append (hjump.append hskip)
      refine .of_hasLabels [("Skip", 0)] hlabels (by decide) ?_
      cases c.highWord? <;> simp [insides, hgoes]

theorem branch_labels {effect : Effect} {condition : BranchCondition} {code : List Instr}
    (h : branch ctx i effect condition = .ok code) : TemplateLabels ctx i code := by
  obtain ⟨t, ht, h⟩ := answer_bind.mp h
  obtain ⟨target, htarget, h⟩ := answer_bind.mp h
  obtain rfl := Except.ok.inj h
  exact branchTo_labels ctx i
    (goesTo_of_targetLabel (targets_of_branchTarget ht) (List.mem_singleton_self t) htarget)

theorem leave_labels {effect : Effect} {code : List Instr} (h : leave ctx i effect = .ok code) :
    TemplateLabels ctx i code := by
  obtain ⟨t, ht, h⟩ := answer_bind.mp h
  obtain ⟨target, htarget, h⟩ := answer_bind.mp h
  obtain rfl := Except.ok.inj h
  have hjump : HasLabels [Instr.jump target] [] [target] := ⟨rfl, rfl⟩
  refine .of_goesTo ((drop_unlabelled _).append hjump) ?_
  simpa using goesTo_of_targetLabel (targets_of_branchTarget ht) (List.mem_singleton_self t) htarget

theorem switchCases_labels (case : Nat) (targets : List Int)
    (hfailure : (switchCases ctx i case targets).failure = none) :
    ∃ used, HasLabels (switchCases ctx i case targets).code [] used ∧
      ∀ l ∈ used, ∃ t ∈ targets, ctx.targetLabel i t = .ok l := by
  induction targets generalizing case with
  | nil => exact ⟨[], .nil, by simp⟩
  | cons t targets ih =>
    unfold switchCases at hfailure ⊢
    cases hlabel : ctx.targetLabel i t with
    | error e => simp [hlabel] at hfailure
    | ok l =>
      simp only [hlabel] at hfailure ⊢
      obtain ⟨used, hused, hmem⟩ := ih (case + 1) hfailure
      refine ⟨l :: used, (⟨rfl, rfl⟩ : HasLabels [Instr.aluImm .cmp .eax (Int32.ofNat case),
        .jcc .e l] [] [l]).append hused, ?_⟩
      rw [List.forall_mem_cons]
      refine ⟨⟨t, by simp, hlabel⟩, fun l' hl' => ?_⟩
      obtain ⟨t', ht', hl''⟩ := hmem l' hl'
      exact ⟨t', by simp [ht'], hl''⟩

theorem switch_labels (hop : i.op.operation = .switch) (hfailure : (switch ctx i).failure = none) :
    TemplateLabels ctx i (switch ctx i).code := by
  unfold switch at hfailure ⊢
  cases htargets : i.switchTargets with
  | error e => simp [htargets] at hfailure
  | ok targets =>
    simp only [htargets] at hfailure ⊢
    obtain ⟨used, hused, hmem⟩ := switchCases_labels ctx i 0 targets hfailure
    refine .of_goesTo ((⟨rfl, rfl⟩ : Unlabelled [Instr.popReg .eax]).append hused) fun l hl => ?_
    obtain ⟨t, ht, hlabel⟩ := hmem l hl
    exact goesTo_of_targetLabel (targets_of_switchTargets hop htargets) ht hlabel

theorem ret_labels (effect : Effect) (hop : i.op.operation = .ret) :
    TemplateLabels ctx i (ret ctx effect) := by
  have hjump : HasLabels [Instr.jump ctx.endLabel] [] [ctx.endLabel] := ⟨rfl, rfl⟩
  refine .of_goesTo (HasLabels.append (?_ : Unlabelled _) hjump) ?_
  · split
    · exact .nil
    · exact ⟨rfl, rfl⟩
    · exact ⟨rfl, rfl⟩
    · exact unlabelled_map _ fun _ => ⟨rfl, rfl⟩
  · simpa using GoesTo.methodEnd hop

/-! ## Storage

These templates have the labels of the checks they contain. -/

/-- The one name that a null check binds makes a template's labels on its own. -/
theorem nullCheck_templateLabels (reg : Reg) : TemplateLabels ctx i (nullCheck ctx i reg) :=
  .of_own _ _ (nullCheck_labels ctx i reg) (by decide) (by decide)

theorem elementBase_templateLabels (array index : Reg) (stride : Nat) :
    TemplateLabels ctx i (elementBase ctx i array index stride) :=
  .of_own _ _ (elementBase_labels ctx i array index stride) (by decide) (by decide)

theorem guardIndirect_labels (reg : Reg) : TemplateLabels ctx i (guardIndirect ctx i reg) := by
  unfold guardIndirect
  split
  · exact nullCheck_templateLabels ctx i reg
  · exact .of_unlabelled .nil

section Storage

variable {ctx i} {code : List Instr}

theorem loadSlot_labels {isArg : Bool} (h : loadSlot ctx i isArg = .ok code) :
    TemplateLabels ctx i code := by
  obtain ⟨slot, -, h⟩ := answer_bind.mp h
  obtain rfl := Except.ok.inj h
  exact .of_unlabelled (unlabelled_map _ fun _ => ⟨rfl, rfl⟩)

theorem storeSlot_labels {isArg : Bool} (h : storeSlot ctx i isArg = .ok code) :
    TemplateLabels ctx i code := by
  obtain ⟨slot, -, h⟩ := answer_bind.mp h
  obtain rfl := Except.ok.inj h
  exact .of_unlabelled (unlabelled_map _ fun _ => ⟨rfl, rfl⟩)

theorem slotAddress_labels {isArg : Bool} (h : slotAddress ctx i isArg = .ok code) :
    TemplateLabels ctx i code := by
  obtain ⟨slot, -, h⟩ := answer_bind.mp h
  obtain rfl := Except.ok.inj h
  exact .of_unlabelled ⟨rfl, rfl⟩

theorem loadConst_labels (h : loadConst i = .ok code) : TemplateLabels ctx i code := by
  unfold loadConst at h
  split at h
  all_goals
    obtain ⟨value, -, rfl⟩ := answer_map.mp h
    exact .of_unlabelled ⟨rfl, rfl⟩

theorem loadSymbol_labels {symbol : Except CompileError Symbol} (h : loadSymbol symbol = .ok code) :
    TemplateLabels ctx i code := by
  obtain ⟨s, -, rfl⟩ := answer_map.mp h
  exact .of_unlabelled ⟨rfl, rfl⟩

theorem sizeOf_labels (h : sizeOf ctx i = .ok code) : TemplateLabels ctx i code := by
  obtain ⟨access, -, rfl⟩ := answer_map.mp h
  exact .of_unlabelled ⟨rfl, rfl⟩

theorem pop_unlabelled (effect : Effect) : Unlabelled (pop effect) := by
  refine unlabelled_append (.ite ⟨rfl, rfl⟩ .nil) (drop_unlabelled _)

theorem loadField_labels (h : loadField ctx i = .ok code) : TemplateLabels ctx i code := by
  obtain ⟨⟨field, access⟩, -, h⟩ := answer_bind.mp h
  obtain rfl := Except.ok.inj h
  exact (TemplateLabels.prepend ⟨rfl, rfl⟩ (nullCheck_templateLabels ctx i .eax)).append
    (pushFromMemory_unlabelled _ _ _)

theorem loadFieldAddress_labels (h : loadFieldAddress ctx i = .ok code) :
    TemplateLabels ctx i code := by
  obtain ⟨⟨field, access⟩, -, h⟩ := answer_bind.mp h
  obtain rfl := Except.ok.inj h
  exact (TemplateLabels.prepend ⟨rfl, rfl⟩ (nullCheck_templateLabels ctx i .eax)).append ⟨rfl, rfl⟩

theorem storeField_labels {effect : Effect} (h : storeField ctx i effect = .ok code) :
    TemplateLabels ctx i code := by
  obtain ⟨⟨field, access⟩, -, h⟩ := answer_bind.mp h
  obtain rfl := Except.ok.inj h
  exact ((TemplateLabels.prepend ⟨rfl, rfl⟩ (nullCheck_templateLabels ctx i .eax)).append
    (popToMemory_unlabelled _ _)).append (drop_unlabelled 4)

theorem loadStatic_labels (h : loadStatic ctx i = .ok code) : TemplateLabels ctx i code := by
  obtain ⟨⟨field, access⟩, -, h⟩ := answer_bind.mp h
  obtain rfl := Except.ok.inj h
  exact .of_unlabelled (pushFromMemory_unlabelled _ _ _)

theorem loadStaticAddress_labels (h : loadStaticAddress ctx i = .ok code) :
    TemplateLabels ctx i code := by
  obtain ⟨⟨field, access⟩, -, h⟩ := answer_bind.mp h
  obtain rfl := Except.ok.inj h
  exact .of_unlabelled ⟨rfl, rfl⟩

theorem storeStatic_labels (h : storeStatic ctx i = .ok code) : TemplateLabels ctx i code := by
  obtain ⟨⟨field, access⟩, -, h⟩ := answer_bind.mp h
  obtain rfl := Except.ok.inj h
  exact .of_unlabelled (popToMemory_unlabelled _ _)

theorem loadIndirect_labels {kind : ValueKind} (h : loadIndirect ctx i kind = .ok code) :
    TemplateLabels ctx i code := by
  obtain ⟨access, -, h⟩ := answer_bind.mp h
  obtain rfl := Except.ok.inj h
  exact (TemplateLabels.prepend ⟨rfl, rfl⟩ (guardIndirect_labels ctx i .eax)).append
    (pushFromMemory_unlabelled _ _ _)

theorem storeIndirect_labels {effect : Effect} {kind : ValueKind}
    (h : storeIndirect ctx i effect kind = .ok code) : TemplateLabels ctx i code := by
  obtain ⟨access, -, h⟩ := answer_bind.mp h
  obtain rfl := Except.ok.inj h
  exact ((TemplateLabels.prepend ⟨rfl, rfl⟩ (guardIndirect_labels ctx i .eax)).append
    (popToMemory_unlabelled _ _)).append (drop_unlabelled 4)

theorem initObject_labels (h : initObject ctx i = .ok code) : TemplateLabels ctx i code := by
  obtain ⟨access, -, h⟩ := answer_bind.mp h
  obtain rfl := Except.ok.inj h
  exact (TemplateLabels.prepend ⟨rfl, rfl⟩ (guardIndirect_labels ctx i .eax)).append
    (zeroMemory_unlabelled _ _)

theorem loadLength_labels : TemplateLabels ctx i (loadLength ctx i) :=
  (TemplateLabels.prepend ⟨rfl, rfl⟩ (nullCheck_templateLabels ctx i .eax)).append ⟨rfl, rfl⟩

theorem loadElement_labels {kind : ValueKind} (h : loadElement ctx i kind = .ok code) :
    TemplateLabels ctx i code := by
  obtain ⟨access, -, h⟩ := answer_bind.mp h
  obtain rfl := Except.ok.inj h
  exact (TemplateLabels.prepend ⟨rfl, rfl⟩ (elementBase_templateLabels ctx i .eax .ebx _)).append
    (pushFromMemory_unlabelled _ _ _)

theorem loadElementAddress_labels (h : loadElementAddress ctx i = .ok code) :
    TemplateLabels ctx i code := by
  obtain ⟨access, -, h⟩ := answer_bind.mp h
  obtain rfl := Except.ok.inj h
  exact (TemplateLabels.prepend ⟨rfl, rfl⟩ (elementBase_templateLabels ctx i .eax .ebx _)).append
    ⟨rfl, rfl⟩

theorem storeElement_labels {effect : Effect} {kind : ValueKind}
    (h : storeElement ctx i effect kind = .ok code) : TemplateLabels ctx i code := by
  obtain ⟨access, -, h⟩ := answer_bind.mp h
  obtain rfl := Except.ok.inj h
  exact ((TemplateLabels.prepend ⟨rfl, rfl⟩ (elementBase_templateLabels ctx i .eax .ebx _)).append
    (popToMemory_unlabelled _ _)).append (drop_unlabelled 8)

end Storage

/-! ## Calls and allocation -/

theorem prologue_unlabelled : Unlabelled (prologue ctx) :=
  unlabelled_append ⟨rfl, rfl⟩ (unlabelled_replicate _ ⟨rfl, rfl⟩)

theorem epilogue_unlabelled : Unlabelled (epilogue ctx) := by
  refine unlabelled_append ?_ ⟨rfl, rfl⟩
  split <;> exact ⟨rfl, rfl⟩

theorem callIndirect_unlabelled (effect : Effect) : Unlabelled (callIndirect effect) :=
  unlabelled_append
    (unlabelled_append (unlabelled_append ⟨rfl, rfl⟩ (reserve_unlabelled _)) ⟨rfl, rfl⟩)
    (afterCall_unlabelled _ _)

theorem dispatch_labels (slot ret : Nat) :
    HasLabels (dispatch ctx i slot ret) (insides ctx i [("Scan", 1), ("Next", 2), ("Found", 3)])
      (insides ctx i [("Found", 3), ("Next", 2), ("Scan", 1), ("Scan", 1)]) := by
  have hscan : HasLabels (dispatch ctx i slot 0 |>.take 18)
      (insides ctx i [("Scan", 1), ("Next", 2), ("Found", 3)])
      (insides ctx i [("Found", 3), ("Next", 2), ("Scan", 1), ("Scan", 1)]) := ⟨rfl, rfl⟩
  exact (hscan.append (reserve_unlabelled ret)).append (⟨rfl, rfl⟩ : Unlabelled [Instr.callReg .esi])

section Calls

variable {ctx i} {code : List Instr} {effect : Effect}

theorem call_labels (h : call ctx i effect = .ok code) : TemplateLabels ctx i code := by
  obtain ⟨m, -, h⟩ := answer_bind.mp h
  obtain rfl := Except.ok.inj h
  exact .of_unlabelled (unlabelled_append (unlabelled_append (reserve_unlabelled _) ⟨rfl, rfl⟩)
    (afterCall_unlabelled _ _))

theorem callVirtual_labels (h : callVirtual ctx i effect = .ok code) : TemplateLabels ctx i code := by
  obtain ⟨⟨m, declaring⟩, -, h⟩ := answer_bind.mp h
  obtain rfl := Except.ok.inj h
  refine .append ?_ (afterCall_unlabelled _ _)
  split
  · exact ((TemplateLabels.prepend ⟨rfl, rfl⟩ (nullCheck_templateLabels ctx i .esi)).append
      (reserve_unlabelled _)).append ⟨rfl, rfl⟩
  · split
    · exact ((TemplateLabels.prepend ⟨rfl, rfl⟩ (nullCheck_templateLabels ctx i .eax)).append
        (reserve_unlabelled _)).append ⟨rfl, rfl⟩
    · -- the labels of the search are numbered after that of the null check
      have hload : Unlabelled [Instr.load .eax (.based .esp
          (Int32.ofNat effect.poppedBytes - Int32.ofNat ctx.options.pointerSize))] := ⟨rfl, rfl⟩
      exact .of_own [("NotNull", 0), ("Scan", 1), ("Next", 2), ("Found", 3)]
        [("NotNull", 0), ("Found", 3), ("Next", 2), ("Scan", 1), ("Scan", 1)]
        ((hload.append (nullCheck_labels ctx i .eax)).append (dispatch_labels ctx i _ _))
        (by decide) (by decide)

theorem allocate_labels (allocator : Intrinsic) (descriptor : Symbol) :
    TemplateLabels ctx i (allocate ctx i allocator descriptor) := by
  refine .prepend (unlabelled_append (unlabelled_append (unlabelled_append ⟨rfl, rfl⟩
    (reserve_unlabelled _)) ⟨rfl, rfl⟩) (drop_unlabelled _)) ?_
  exact .of_own [("Allocated", 0)] [("Allocated", 0)] ⟨rfl, rfl⟩ (by decide) (by decide)

theorem construct_labels (descriptor ctor : Symbol) (params : Nat) :
    TemplateLabels ctx i (construct ctx i descriptor ctor params) :=
  ((((allocate_labels .newObject descriptor).append (reserve_unlabelled 8)).append
    (unlabelled_flatMap _ fun _ _ => ⟨rfl, rfl⟩)).append ⟨rfl, rfl⟩).append (drop_unlabelled _)

theorem newObject_labels (h : newObject ctx i = .ok code) : TemplateLabels ctx i code := by
  obtain ⟨⟨ctor, declaring⟩, -, h⟩ := answer_bind.mp h
  dsimp only at h
  split at h
  · obtain rfl := Except.ok.inj h
    exact .of_unlabelled ⟨rfl, rfl⟩
  · obtain ⟨params, -, h⟩ := answer_bind.mp h
    obtain rfl := Except.ok.inj h
    exact construct_labels _ _ _

theorem newArray_labels (h : newArray ctx i = .ok code) : TemplateLabels ctx i code := by
  obtain ⟨t, -, h⟩ := answer_bind.mp h
  obtain rfl := Except.ok.inj h
  exact (allocate_labels .newArray t.symbol).append ⟨rfl, rfl⟩

theorem typeTest_labels {isCast : Bool} (h : typeTest ctx i isCast = .ok code) :
    TemplateLabels ctx i code := by
  obtain ⟨t, -, h⟩ := answer_bind.mp h
  obtain rfl := Except.ok.inj h
  refine .of_own [("Scan", 0), ("Failed", 1), ("Done", 2)]
    [("Done", 2), ("Failed", 1), ("Done", 2), ("Scan", 0)] ?_ (by decide) (by decide)
  cases isCast <;> exact ⟨rfl, rfl⟩

end Calls

/-! ## All templates -/

theorem emit_labels {effect : Effect} (hfailure : (emit ctx i effect).failure = none) :
    TemplateLabels ctx i (emit ctx i effect).code := by
  revert hfailure
  unfold emit
  cases hop : i.op.operation with
  | nop | loadNull | throw => exact fun _ => .of_unlabelled ⟨rfl, rfl⟩
  | methodStart => exact fun _ => .of_unlabelled (prologue_unlabelled ctx)
  | methodEnd => exact fun _ => .of_unlabelled (epilogue_unlabelled ctx)
  | ret => exact fun _ => ret_labels ctx i effect hop
  | loadArg | loadLocal => exact fun h => .ofExcept h fun _ => loadSlot_labels
  | storeArg | storeLocal => exact fun h => .ofExcept h fun _ => storeSlot_labels
  | loadArgAddress | loadLocalAddress => exact fun h => .ofExcept h fun _ => slotAddress_labels
  | loadConst => exact fun h => .ofExcept h fun _ => loadConst_labels
  | loadString | loadToken | loadFunction => exact fun h => .ofExcept h fun _ => loadSymbol_labels
  | sizeOf => exact fun h => .ofExcept h fun _ => sizeOf_labels
  | dup => exact fun _ => .of_unlabelled (unlabelled_replicate _ ⟨rfl, rfl⟩)
  | pop => exact fun _ => .of_unlabelled (pop_unlabelled effect)
  | binary op => exact fun _ => .of_unlabelled (binary_unlabelled i effect op)
  | unary op => exact fun _ => .of_unlabelled (unary_unlabelled effect op)
  | shift op => exact fun _ => shift_labels ctx i effect op
  | compare op => exact fun _ => compare_labels ctx i effect op
  | convert target => exact fun h => .ofExcept h fun _ => convert_labels ctx i
  | branch condition => exact fun h => .ofExcept h fun _ => branch_labels ctx i
  | switch => exact fun h => switch_labels ctx i hop h
  | leave => exact fun h => .ofExcept h fun _ => leave_labels ctx i
  | loadField => exact fun h => .ofExcept h fun _ => loadField_labels
  | loadFieldAddress => exact fun h => .ofExcept h fun _ => loadFieldAddress_labels
  | storeField => exact fun h => .ofExcept h fun _ => storeField_labels
  | loadStatic => exact fun h => .ofExcept h fun _ => loadStatic_labels
  | loadStaticAddress => exact fun h => .ofExcept h fun _ => loadStaticAddress_labels
  | storeStatic => exact fun h => .ofExcept h fun _ => storeStatic_labels
  | loadIndirect kind => exact fun h => .ofExcept h fun _ => loadIndirect_labels
  | storeIndirect kind => exact fun h => .ofExcept h fun _ => storeIndirect_labels
  | loadLength => exact fun _ => loadLength_labels
  | loadElement kind => exact fun h => .ofExcept h fun _ => loadElement_labels
  | loadElementAddress => exact fun h => .ofExcept h fun _ => loadElementAddress_labels
  | storeElement kind => exact fun h => .ofExcept h fun _ => storeElement_labels
  | call => exact fun h => .ofExcept h fun _ => call_labels
  | callIndirect => exact fun _ => .of_unlabelled (callIndirect_unlabelled effect)
  | callVirtual => exact fun h => .ofExcept h fun _ => callVirtual_labels
  | newObject => exact fun h => .ofExcept h fun _ => newObject_labels
  | newArray => exact fun h => .ofExcept h fun _ => newArray_labels
  | isInstance | castClass => exact fun h => .ofExcept h fun _ => typeTest_labels
  | initObject => exact fun h => .ofExcept h fun _ => initObject_labels

end Stencil.X86
