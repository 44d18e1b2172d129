import Stencil.Mips.Backend
import Stencil.Proofs.Symbols.Basic

/-!
# Symbols of the MIPS32 templates

Only `la` and `jal` mention a symbol, so that moves between memory and the stack mention none. A template
mentions the helpers it calls and what its instruction refers to (`emit_mentions`).
-/

namespace Stencil.Mips

open Stateful

instance : RaiseCode Instr where
  lead := Instr.callSymbol Intrinsic.callSite.symbol ++ Instr.push .v0
  calls := .jal

/-! ## Code without symbols -/

section Parts

variable {S : Symbol → Prop} {R : Intrinsic → Prop} {ctx : EmitContext} {i : Instruction} {e : Effect}
  {code : List Instr}

theorem drop_mentions (bytes : Nat) : Mentions S R (Instr.drop bytes) := .ite .nil (.of_none rfl)

theorem reserve_mentions (bytes : Nat) : Mentions S R (Instr.reserve bytes) := .ite .nil (.of_none rfl)

theorem pushImm_mentions (imm : Int32) : Mentions S R (Instr.pushImm imm) := .ite (.of_none rfl) (.of_none rfl)

theorem scaleIndex_mentions (array index : Reg) (stride : Nat) : Mentions S R (scaleIndex array index stride) := by
  unfold scaleIndex
  split
  · exact .append (.ite .nil (.of_none rfl)) (.of_none rfl)
  · exact .of_none rfl

theorem popOperands_mentions (wide : Bool) : Mentions S R (popOperands wide) :=
  .ite (.of_none rfl) (.of_none rfl)

theorem pushResult_mentions (wide : Bool) : Mentions S R (pushResult wide) :=
  .ite (.of_none rfl) (.of_none rfl)

theorem afterCall_mentions (ret args : Nat) : Mentions S R (afterCall ret args) := by
  refine .ite .nil ?_
  split
  · exact drop_mentions _
  · exact .append (.append (.of_none rfl) (drop_mentions _)) (.of_none rfl)
  · exact .append (.append (.append (.of_none rfl) (drop_mentions _)) (.of_none rfl)) (.of_none rfl)
  · exact .append (.flatMap _ fun _ _ => .of_none rfl) (drop_mentions _)

/-! ### Moves -/

theorem loadValue_mentions (base : Reg) (offset : Int32) (bytes : Nat) (signed : Bool) (align : Nat) :
    Mentions S R (loadValue base offset bytes signed align) := by
  unfold loadValue
  split
  · exact .of_none rfl
  · exact .cons (.of_none rfl) (.flatMap _ fun _ _ => .of_none rfl)

theorem storeValue_mentions (base : Reg) (offset : Int32) (bytes align : Nat) :
    Mentions S R (storeValue base offset bytes align) := by
  unfold storeValue
  split
  · exact .of_none rfl
  · exact .cons (.of_none rfl) (.flatMap _ fun _ _ => .of_none rfl)

theorem pushFromMemory_mentions (base : Reg) (offset : Int32) (storage : Nat) (signed : Bool) (align : Nat) :
    Mentions S R (pushFromMemory base offset storage signed align) :=
  .flatMap _ fun _ _ => .append (loadValue_mentions _ _ _ _ _) (.of_none rfl)

theorem popToMemory_mentions (base : Reg) (offset : Int32) (storage align : Nat) :
    Mentions S R (popToMemory base offset storage align) :=
  .flatMap _ fun _ _ => .append (.of_none rfl) (storeValue_mentions _ _ _ _)

theorem zeroFrom_mentions (base : Reg) (offset : Int32) (align done left : Nat) :
    Mentions S R (zeroFrom base offset align done left) := by
  fun_induction zeroFrom base offset align done left with
  | case1 done left _ width ih => exact .cons (.of_none rfl) ih
  | case2 => exact .nil

/-! ### Integers and decisions -/

theorem binary_mentions {op : BinaryOp} (h : binary i e op = .ok code) : Mentions S R code := by
  unfold binary at h
  split at h
  all_goals
    cases op <;> cases h
    all_goals exact .of_none rfl

theorem unary_mentions {op : UnaryOp} : Mentions S R (unary e op) := by
  unfold unary
  cases isWide (e.operand 0) <;> cases op <;> exact .of_none rfl

theorem shiftWord_mentions (op : Stencil.ShiftOp) (wideCount : Bool) : Mentions S R (shiftWord ctx i op wideCount) := by
  refine .ite ?_ (.of_none rfl)
  cases op <;> exact .of_none rfl

theorem shiftWide_mentions (op : Stencil.ShiftOp) (wideCount : Bool) : Mentions S R (shiftWide ctx i op wideCount) := by
  have hacross : Mentions S R (shiftAcross op) := by cases op <;> exact .of_none rfl
  have hover : Mentions S R (shiftOver op) := by cases op <;> exact .of_none rfl
  have hout : Mentions S R (shiftOut op) := by cases op <;> exact .of_none rfl
  refine .append (.append (.append (.append (.append (.append (.append (.append (.append (.append (.append (.append
    (.append (.append ?_ ?_) ?_) ?_) ?_) ?_) ?_) hacross) ?_) ?_) hover) ?_) ?_) hout) ?_
  · exact .ite (.of_none rfl) .nil
  all_goals exact .of_none rfl

theorem shift_mentions {op : Stencil.ShiftOp} : Mentions S R (shift ctx i e op) := by
  refine .append (.append (.append (.append (.of_none rfl) (.ite (.of_none rfl) .nil)) (.of_none rfl)) ?_)
    (pushResult_mentions _)
  exact .ite (.append (.of_none rfl) (shiftWide_mentions _ _)) (shiftWord_mentions _ _)

theorem convertTo_mentions (pointerSize size : Nat) (target : ConvTarget) :
    Mentions S R (convertTo pointerSize size target) := by
  have hnarrow : ∀ signed size, Mentions S R (narrow signed size) := by
    intro signed size
    unfold narrow
    split
    · cases signed <;> exact .of_none rfl
    · exact .nil
  unfold convertTo
  split
  · exact .nil
  · exact .nil
  · exact .append (.append (.of_none rfl) (.ite (.of_none rfl) (.of_none rfl))) (.of_none rfl)
  · exact .append (.append (.append (.of_none rfl) (.ite (drop_mentions _) .nil)) (hnarrow _ _)) (.of_none rfl)

theorem convert_mentions {target : Option ConvTarget} (h : convert ctx i e target = .ok code) :
    Mentions S R code := by
  cases target with
  | none => cases h
  | some target =>
    obtain rfl := Except.ok.inj h
    exact convertTo_mentions _ _ target

theorem jumpIf_mentions (c : Comparison) (a b : Reg) (target : Label) : Mentions S R (jumpIf c a b target) := by
  unfold jumpIf
  split <;> exact .of_none rfl

theorem jumpIfWide_mentions (c : Comparison) (taken notTaken : Label) :
    Mentions S R (jumpIfWide c taken notTaken) := by
  refine .append (.append ?_ (.of_none rfl)) (jumpIf_mentions _ _ _ _)
  split
  · exact jumpIf_mentions _ _ _ _
  · exact .nil

theorem compare_mentions {op : CompareOp} : Mentions S R (compare ctx i e op) := by
  refine .append (.append (.append (.append (.append (.append (.append (popOperands_mentions _)
    (.ite (jumpIfWide_mentions _ _ _) (jumpIf_mentions _ _ _ _))) ?_) ?_) ?_) ?_) ?_) ?_ <;> exact .of_none rfl

theorem branchZero_mentions (wide onZero : Bool) (target : Label) : Mentions S R (branchZero wide onZero target) :=
  .append (.ite (.of_none rfl) (.of_none rfl)) (.ite (.of_none rfl) (.of_none rfl))

theorem branchTo_mentions (wide : Bool) (condition : BranchCondition) (target : Label) :
    Mentions S R (branchTo ctx i wide condition target) := by
  unfold branchTo
  split
  · exact .append (popOperands_mentions wide)
      (.ite (.append (jumpIfWide_mentions _ _ _) (.of_none rfl)) (jumpIf_mentions _ _ _ _))
  · exact .ite (.of_none rfl) (branchZero_mentions wide _ target)

theorem branch_mentions {condition : BranchCondition} (h : branch ctx i e condition = .ok code) :
    Mentions S R code := by
  obtain ⟨t, -, h⟩ := answer_bind.mp h
  obtain ⟨target, -, h⟩ := answer_bind.mp h
  obtain rfl := Except.ok.inj h
  exact branchTo_mentions _ condition target

theorem leave_mentions (h : leave ctx i e = .ok code) : Mentions S R code := by
  obtain ⟨t, -, h⟩ := answer_bind.mp h
  obtain ⟨target, -, h⟩ := answer_bind.mp h
  obtain rfl := Except.ok.inj h
  exact .append (drop_mentions _) (.of_none rfl)

theorem switchCases_mentions (case : Nat) (targets : List Int) :
    Mentions S R (switchCases ctx i case targets).code := by
  induction targets generalizing case with
  | nil => exact .nil
  | cons t targets ih =>
    unfold switchCases
    split
    · exact .nil
    · exact .cons (.of_none rfl) (.append (.of_none rfl) (ih (case + 1)))

theorem switch_mentions : Mentions S R (switch ctx i).code := by
  unfold switch
  split
  · exact .nil
  · exact .append (.of_none rfl) (switchCases_mentions 0 _)

theorem ret_mentions (h : ret ctx i e = .ok code) : Mentions S R code := by
  obtain ⟨value, hvalue, h⟩ := answer_bind.mp h
  obtain rfl := Except.ok.inj h
  refine .append ?_ (.of_none rfl)
  unfold returnValue at hvalue
  split at hvalue
  · obtain rfl := Except.ok.inj hvalue
    exact .nil
  · obtain rfl := Except.ok.inj hvalue
    exact .of_none rfl
  · obtain rfl := Except.ok.inj hvalue
    exact .of_none rfl
  · obtain ⟨_, -, hvalue⟩ := answer_bind.mp hvalue
    obtain rfl := Except.ok.inj hvalue
    exact .flatMap _ fun _ _ => .of_none rfl

theorem prologue_mentions : Mentions S R (prologue ctx) := .append (.of_none rfl) (.replicateFlat _ (.of_none rfl))

theorem epilogue_mentions : Mentions S R (epilogue ctx) := by
  refine .append (.append (.append (.append ?_ (.of_none rfl)) (.of_none rfl)) (.of_none rfl)) (.of_none rfl)
  split <;> exact .of_none rfl

/-! ### Frame slots and constants -/

theorem loadSlot_mentions {isArg : Bool} (h : loadSlot ctx i isArg = .ok code) : Mentions S R code := by
  obtain ⟨⟨words, base⟩, -, h⟩ := answer_bind.mp h
  obtain rfl := Except.ok.inj h
  exact .flatMap _ fun _ _ => .of_none rfl

theorem storeSlot_mentions {isArg : Bool} (h : storeSlot ctx i isArg = .ok code) : Mentions S R code := by
  obtain ⟨⟨words, base⟩, -, h⟩ := answer_bind.mp h
  obtain rfl := Except.ok.inj h
  exact .flatMap _ fun _ _ => .of_none rfl

theorem slotAddress_mentions {isArg : Bool} (h : slotAddress ctx i isArg = .ok code) : Mentions S R code := by
  obtain ⟨⟨words, base⟩, -, h⟩ := answer_bind.mp h
  obtain rfl := Except.ok.inj h
  exact .of_none rfl

theorem loadConst_mentions (h : loadConst i = .ok code) : Mentions S R code := by
  unfold loadConst at h
  split at h
  · obtain ⟨value, -, rfl⟩ := answer_map.mp h
    exact .append (pushImm_mentions _) (pushImm_mentions _)
  · obtain ⟨value, -, rfl⟩ := answer_map.mp h
    exact pushImm_mentions _

theorem sizeOf_mentions (h : sizeOf ctx i = .ok code) : Mentions S R code := by
  obtain ⟨access, -, rfl⟩ := answer_map.mp h
  exact pushImm_mentions _

theorem dup_mentions (h : dup i e = .ok code) : Mentions S R code := by
  obtain ⟨offset, -, h⟩ := answer_bind.mp h
  obtain rfl := Except.ok.inj h
  exact .replicateFlat _ (.of_none rfl)

theorem loadSymbol_mentions {symbol : Except CompileError Symbol} (hsymbol : ∀ s, symbol = .ok s → S s)
    (h : loadSymbol symbol = .ok code) : Mentions S R code := by
  obtain ⟨s, hs, rfl⟩ := answer_map.mp h
  exact .of_one rfl (hsymbol s hs)

end Parts

/-! ## Checks, loads and stores -/

section Storage

variable {ctx : EmitContext} {i : Instruction} {e : Effect} {code : List Instr}

theorem helper_mentions {R : Intrinsic → Prop} {k : Intrinsic} (hraises : k.raises = false) (hk : k ≠ .release) :
    Mentions (Mentionable ctx i e) R (Instr.callSymbol k.symbol) := .of_one rfl (.helper hraises hk)

theorem throwHere_mentions {k : Intrinsic} (hk : Raisable ctx i k) :
    Mentions (Mentionable ctx i e) (Raisable ctx i) (throwHere k) := by
  have hcallSite : Mentions (Mentionable ctx i e) (Raisable ctx i) (RaiseCode.lead (I := Instr)) :=
    .append (helper_mentions (k := .callSite) rfl (by decide)) (.of_none rfl)
  have hslot : Mentions (Mentionable ctx i e) (Raisable ctx i) [Instr.nop] := .of_none rfl
  have hraise := Mentions.raise hcallSite hk rfl
  exact hraise.append hslot

theorem nullCheck_mentions (hop : i.op.operation.testsNull ctx.policy.guardIndirect = true) (reg : Reg) :
    Mentions (Mentionable ctx i e) (Raisable ctx i) (nullCheck ctx i reg) :=
  .append (.append (.of_none rfl) (throwHere_mentions hop)) (.of_none rfl)

theorem boundsCheck_mentions (hop : i.op.operation.indexes = true) (array index : Reg) :
    Mentions (Mentionable ctx i e) (Raisable ctx i) (boundsCheck ctx i array index) :=
  .append (.append (.of_none rfl) (throwHere_mentions hop)) (.of_none rfl)

theorem elementBase_mentions (hop : i.op.operation.indexes = true) (array index : Reg) (stride : Nat) :
    Mentions (Mentionable ctx i e) (Raisable ctx i) (elementBase ctx i array index stride) :=
  .append (.append (nullCheck_mentions (Operation.testsNull_of_indexes hop) array)
    (boundsCheck_mentions hop array index)) (scaleIndex_mentions _ _ _)

theorem guardIndirect_mentions (hop : i.op.operation.testsNull true = true) (reg : Reg) :
    Mentions (Mentionable ctx i e) (Raisable ctx i) (guardIndirect ctx i reg) := by
  unfold guardIndirect
  split
  · rename_i hguard
    exact nullCheck_mentions (hguard ▸ hop) reg
  · exact .nil

theorem pop_mentions (hop : i.op.operation = .pop) : Mentions (Mentionable ctx i e) (Raisable ctx i) (pop e) := by
  refine .append ?_ (drop_mentions _)
  split
  · rename_i hnew
    exact .of_one rfl (.intrinsic (k := .release) rfl fun _ => ⟨hop, hnew⟩)
  · exact .nil

theorem resolveField_of_reachable {field : FieldDescriptor} {access : Access} {offset : Int32}
    (h : reachableField ctx i = .ok (field, access, offset)) : ctx.tables.resolveField i = .ok field := by
  obtain ⟨⟨_, _⟩, hfield, h⟩ := answer_bind.mp h
  obtain ⟨_, -, h⟩ := answer_bind.mp h
  obtain ⟨_, -, h⟩ := answer_bind.mp h
  cases h
  exact resolveField_of_fieldAccess hfield

theorem loadField_mentions (hop : i.op.operation.testsNull ctx.policy.guardIndirect = true)
    (h : loadField ctx i = .ok code) : Mentions (Mentionable ctx i e) (Raisable ctx i) code := by
  obtain ⟨⟨field, access, offset⟩, -, h⟩ := answer_bind.mp h
  obtain rfl := Except.ok.inj h
  exact .append (.append (.of_none rfl) (nullCheck_mentions hop _)) (pushFromMemory_mentions _ _ _ _ _)

theorem loadFieldAddress_mentions (hop : i.op.operation.testsNull ctx.policy.guardIndirect = true)
    (h : loadFieldAddress ctx i = .ok code) :
    Mentions (Mentionable ctx i e) (Raisable ctx i) code := by
  obtain ⟨⟨field, access, offset⟩, -, h⟩ := answer_bind.mp h
  obtain rfl := Except.ok.inj h
  exact .append (.append (.append (.of_none rfl) (nullCheck_mentions hop _)) (.of_none rfl)) (.of_none rfl)

theorem storeField_mentions (hop : i.op.operation.testsNull ctx.policy.guardIndirect = true)
    (h : storeField ctx i e = .ok code) : Mentions (Mentionable ctx i e) (Raisable ctx i) code := by
  obtain ⟨⟨field, access, offset⟩, -, h⟩ := answer_bind.mp h
  obtain ⟨value, -, h⟩ := answer_bind.mp h
  obtain rfl := Except.ok.inj h
  exact .append (.append (.append (.of_none rfl) (nullCheck_mentions hop _)) (popToMemory_mentions _ _ _ _))
    (drop_mentions _)

theorem loadStatic_mentions (hop : i.op.operation.accessesStatic = true) (h : loadStatic ctx i = .ok code) :
    Mentions (Mentionable ctx i e) (Raisable ctx i) code := by
  obtain ⟨⟨field, access, offset⟩, hfield, h⟩ := answer_bind.mp h
  obtain rfl := Except.ok.inj h
  exact .cons (.of_one rfl (.static hop (resolveField_of_reachable hfield))) (pushFromMemory_mentions _ _ _ _ _)

theorem loadStaticAddress_mentions (hop : i.op.operation.accessesStatic = true)
    (h : loadStaticAddress ctx i = .ok code) : Mentions (Mentionable ctx i e) (Raisable ctx i) code := by
  obtain ⟨⟨field, access, offset⟩, hfield, h⟩ := answer_bind.mp h
  obtain rfl := Except.ok.inj h
  exact .of_one rfl (.static hop (resolveField_of_reachable hfield))

theorem storeStatic_mentions (hop : i.op.operation.accessesStatic = true) (h : storeStatic ctx i = .ok code) :
    Mentions (Mentionable ctx i e) (Raisable ctx i) code := by
  obtain ⟨⟨field, access, offset⟩, hfield, h⟩ := answer_bind.mp h
  obtain rfl := Except.ok.inj h
  exact .cons (.of_one rfl (.static hop (resolveField_of_reachable hfield))) (popToMemory_mentions _ _ _ _)

theorem loadIndirect_mentions {kind : ValueKind} (hop : i.op.operation.testsNull true = true)
    (h : loadIndirect ctx i kind = .ok code) :
    Mentions (Mentionable ctx i e) (Raisable ctx i) code := by
  obtain ⟨access, -, h⟩ := answer_bind.mp h
  obtain rfl := Except.ok.inj h
  exact .append (.append (.of_none rfl) (guardIndirect_mentions hop _)) (pushFromMemory_mentions _ _ _ _ _)

theorem storeIndirect_mentions {kind : ValueKind} (hop : i.op.operation.testsNull true = true)
    (h : storeIndirect ctx i e kind = .ok code) :
    Mentions (Mentionable ctx i e) (Raisable ctx i) code := by
  obtain ⟨access, -, h⟩ := answer_bind.mp h
  obtain ⟨value, -, h⟩ := answer_bind.mp h
  obtain rfl := Except.ok.inj h
  exact .append (.append (.append (.of_none rfl) (guardIndirect_mentions hop _)) (popToMemory_mentions _ _ _ _))
    (drop_mentions _)

theorem initObject_mentions (hop : i.op.operation.testsNull true = true)
    (h : initObject ctx i = .ok code) : Mentions (Mentionable ctx i e) (Raisable ctx i) code := by
  obtain ⟨access, -, h⟩ := answer_bind.mp h
  obtain rfl := Except.ok.inj h
  exact .append (.append (.of_none rfl) (guardIndirect_mentions hop _)) (zeroFrom_mentions _ _ _ _ _)

theorem loadLength_mentions (hop : i.op.operation.testsNull ctx.policy.guardIndirect = true) :
    Mentions (Mentionable ctx i e) (Raisable ctx i) (loadLength ctx i) :=
  .append (.append (.append (.of_none rfl) (nullCheck_mentions hop _)) (.of_none rfl)) (.of_none rfl)

theorem loadElement_mentions {kind : ValueKind} (hop : i.op.operation.indexes = true)
    (h : loadElement ctx i kind = .ok code) :
    Mentions (Mentionable ctx i e) (Raisable ctx i) code := by
  obtain ⟨access, -, h⟩ := answer_bind.mp h
  obtain ⟨header, -, h⟩ := answer_bind.mp h
  obtain rfl := Except.ok.inj h
  exact .append (.append (.of_none rfl) (elementBase_mentions hop _ _ _)) (pushFromMemory_mentions _ _ _ _ _)

theorem loadElementAddress_mentions (hop : i.op.operation.indexes = true)
    (h : loadElementAddress ctx i = .ok code) :
    Mentions (Mentionable ctx i e) (Raisable ctx i) code := by
  obtain ⟨access, -, h⟩ := answer_bind.mp h
  obtain ⟨header, -, h⟩ := answer_bind.mp h
  obtain rfl := Except.ok.inj h
  exact .append (.append (.append (.of_none rfl) (elementBase_mentions hop _ _ _)) (.of_none rfl)) (.of_none rfl)

theorem storeElement_mentions {kind : ValueKind} (hop : i.op.operation.indexes = true)
    (h : storeElement ctx i e kind = .ok code) :
    Mentions (Mentionable ctx i e) (Raisable ctx i) code := by
  obtain ⟨access, -, h⟩ := answer_bind.mp h
  obtain ⟨header, -, h⟩ := answer_bind.mp h
  obtain ⟨value, -, h⟩ := answer_bind.mp h
  obtain rfl := Except.ok.inj h
  exact .append (.append (.append (.of_none rfl) (elementBase_mentions hop _ _ _)) (popToMemory_mentions _ _ _ _))
    (drop_mentions _)

end Storage

/-! ## Calls and allocation -/

section Calls

variable {ctx : EmitContext} {i : Instruction} {e : Effect} {code : List Instr}

theorem callMethod_mentions {m : MethodDescriptor} (hm : ∃ id, ctx.tables.method? id = some m) :
    Mentions (Mentionable ctx i e) (Raisable ctx i) (Instr.callSymbol m.symbol) := by
  obtain ⟨id, hid⟩ := hm
  exact .of_one rfl (.method hid)

theorem call_mentions (h : call ctx i e = .ok code) : Mentions (Mentionable ctx i e) (Raisable ctx i) code := by
  obtain ⟨m, hm, h⟩ := answer_bind.mp h
  obtain rfl := Except.ok.inj h
  exact .append (.append (reserve_mentions _) (callMethod_mentions (resolveMethod_ok hm))) (afterCall_mentions _ _)

theorem callIndirect_mentions {S : Symbol → Prop} {R : Intrinsic → Prop} : Mentions S R (callIndirect e) :=
  .append (.append (.append (.of_none rfl) (reserve_mentions _)) (.of_none rfl)) (afterCall_mentions _ _)

theorem dispatch_mentions (slot ret : Nat) : Mentions (Mentionable ctx i e) (Raisable ctx i) (dispatch ctx i slot ret) := by
  have hhalt : Mentions (Mentionable ctx i e) (Raisable ctx i) (Instr.callSymbol Intrinsic.halt.symbol) :=
    helper_mentions rfl (by decide)
  refine .append (.append (.append (.append (.append (.append (.append (.append (.append (.append (.append ?_ ?_)
    ?_) ?_) ?_) (pushImm_mentions _)) hhalt) ?_) ?_) ?_) (reserve_mentions _)) ?_ <;> exact .of_none rfl

theorem callVirtual_mentions (hop : i.op.operation.testsNull ctx.policy.guardIndirect = true)
    (h : callVirtual ctx i e = .ok code) : Mentions (Mentionable ctx i e) (Raisable ctx i) code := by
  obtain ⟨⟨m, declaring⟩, hfound, h⟩ := answer_bind.mp h
  obtain ⟨this, -, h⟩ := answer_bind.mp h
  obtain rfl := Except.ok.inj h
  refine .append (.ite ?_ (.ite ?_ ?_)) (afterCall_mentions _ _)
  · exact .append (.append (.append (.of_none rfl) (nullCheck_mentions hop _)) (reserve_mentions _)) (.of_none rfl)
  · exact .append (.append (.append (.of_none rfl) (nullCheck_mentions hop _)) (reserve_mentions _))
      (callMethod_mentions (found_of_methodAndType hfound).1)
  · exact .append (.append (.of_none rfl) (nullCheck_mentions hop _)) (dispatch_mentions _ _)

theorem checkAllocation_mentions : Mentions (Mentionable ctx i e) (Raisable ctx i) (checkAllocation ctx i) :=
  .append (.append (.append (.of_none rfl) (pushImm_mentions _)) (helper_mentions (k := .halt) rfl (by decide)))
    (.of_none rfl)

theorem allocate_mentions {allocator : Intrinsic} (hraises : allocator.raises = false)
    (hallocator : allocator ≠ .release) {t : TypeDescriptor}
    (ht : ∃ id, ctx.tables.type? id = some t) :
    Mentions (Mentionable ctx i e) (Raisable ctx i) (allocate ctx i allocator t.symbol) := by
  obtain ⟨id, hid⟩ := ht
  have hdescriptor : Mentions (Mentionable ctx i e) (Raisable ctx i) (Instr.pushAddr t.symbol) := .of_one rfl (.type hid)
  exact .append (.append (.append (.append (.append hdescriptor (reserve_mentions _))
    (helper_mentions hraises hallocator)) (.of_none rfl)) (drop_mentions _)) checkAllocation_mentions

theorem newObject_mentions (h : newObject ctx i = .ok code) : Mentions (Mentionable ctx i e) (Raisable ctx i) code := by
  obtain ⟨⟨ctor, declaring⟩, hfound, h⟩ := answer_bind.mp h
  obtain ⟨hctor, htype⟩ := found_of_methodAndType hfound
  dsimp only at h
  split at h
  · obtain rfl := Except.ok.inj h
    exact .append (.append (.of_none rfl) (drop_mentions _)) (.of_none rfl)
  · obtain ⟨params, -, h⟩ := answer_bind.mp h
    obtain ⟨_, -, h⟩ := answer_bind.mp h
    obtain rfl := Except.ok.inj h
    exact .append (.append (.append (.append (.append (allocate_mentions rfl (by decide) htype) (reserve_mentions _))
      (.flatMap _ fun _ _ => .of_none rfl)) (.of_none rfl)) (callMethod_mentions hctor)) (drop_mentions _)

theorem newArray_mentions (h : newArray ctx i = .ok code) : Mentions (Mentionable ctx i e) (Raisable ctx i) code := by
  obtain ⟨t, ht, h⟩ := answer_bind.mp h
  obtain rfl := Except.ok.inj h
  exact .append (allocate_mentions rfl (by decide) (resolveType_ok ht)) (.of_none rfl)

theorem typeTest_mentions {isCast : Bool} (hop : isCast = true → i.op.operation = .castClass)
    (h : typeTest ctx i isCast = .ok code) :
    Mentions (Mentionable ctx i e) (Raisable ctx i) code := by
  obtain ⟨t, ht, h⟩ := answer_bind.mp h
  obtain ⟨id, hid⟩ := resolveType_ok ht
  obtain rfl := Except.ok.inj h
  refine .append (.append (.append (.of_one rfl (.type hid)) ?_) (.of_none rfl)) (.of_none rfl)
  split
  · rename_i hcast
    exact throwHere_mentions (hop hcast)
  · exact .of_none rfl

end Calls

/-- A template mentions helpers and what its instruction refers to. -/
theorem emit_mentions (ctx : EmitContext) (i : Instruction) (e : Effect) :
    Mentions (Mentionable ctx i e) (Raisable ctx i) (emit ctx i e).code := by
  unfold emit
  cases hop : i.op.operation with
  | nop => exact .of_none rfl
  | loadNull => exact pushImm_mentions 0
  | throw => exact helper_mentions (k := .throwObject) rfl (by decide)
  | methodStart => exact prologue_mentions
  | methodEnd => exact epilogue_mentions
  | ret => exact .ofExcept fun _ => ret_mentions
  | loadArg | loadLocal => exact .ofExcept fun _ => loadSlot_mentions
  | storeArg | storeLocal => exact .ofExcept fun _ => storeSlot_mentions
  | loadArgAddress | loadLocalAddress => exact .ofExcept fun _ => slotAddress_mentions
  | loadConst => exact .ofExcept fun _ => loadConst_mentions
  | loadString =>
    refine .ofExcept fun _ => loadSymbol_mentions fun s hs => ?_
    obtain ⟨literal, hliteral, rfl⟩ := answer_map.mp hs
    obtain ⟨id, hid⟩ := resolveString_ok hliteral
    exact .string hid
  | loadToken => exact .ofExcept fun _ => loadSymbol_mentions fun _ => tokenSymbol_mentionable hop
  | loadFunction =>
    refine .ofExcept fun _ => loadSymbol_mentions fun s hs => ?_
    obtain ⟨m, hm, rfl⟩ := answer_map.mp hs
    obtain ⟨id, hid⟩ := resolveMethod_ok hm
    exact .method hid
  | sizeOf => exact .ofExcept fun _ => sizeOf_mentions
  | dup => exact .ofExcept fun _ => dup_mentions
  | pop => exact pop_mentions hop
  | binary op => exact .ofExcept fun _ => binary_mentions
  | unary op => exact unary_mentions
  | shift op => exact shift_mentions
  | compare op => exact compare_mentions
  | convert target => exact .ofExcept fun _ => convert_mentions
  | branch condition => exact .ofExcept fun _ => branch_mentions
  | switch => exact switch_mentions
  | leave => exact .ofExcept fun _ => leave_mentions
  | loadField => exact .ofExcept fun _ => loadField_mentions (hop ▸ rfl)
  | loadFieldAddress => exact .ofExcept fun _ => loadFieldAddress_mentions (hop ▸ rfl)
  | storeField => exact .ofExcept fun _ => storeField_mentions (hop ▸ rfl)
  | loadStatic => exact .ofExcept fun _ => loadStatic_mentions (hop ▸ rfl)
  | loadStaticAddress => exact .ofExcept fun _ => loadStaticAddress_mentions (hop ▸ rfl)
  | storeStatic => exact .ofExcept fun _ => storeStatic_mentions (hop ▸ rfl)
  | loadIndirect kind => exact .ofExcept fun _ => loadIndirect_mentions (hop ▸ rfl)
  | storeIndirect kind => exact .ofExcept fun _ => storeIndirect_mentions (hop ▸ rfl)
  | loadLength => exact loadLength_mentions (hop ▸ rfl)
  | loadElement kind => exact .ofExcept fun _ => loadElement_mentions (hop ▸ rfl)
  | loadElementAddress => exact .ofExcept fun _ => loadElementAddress_mentions (hop ▸ rfl)
  | storeElement kind => exact .ofExcept fun _ => storeElement_mentions (hop ▸ rfl)
  | call => exact .ofExcept fun _ => call_mentions
  | callIndirect => exact callIndirect_mentions
  | callVirtual => exact .ofExcept fun _ => callVirtual_mentions (hop ▸ rfl)
  | newObject => exact .ofExcept fun _ => newObject_mentions
  | newArray => exact .ofExcept fun _ => newArray_mentions
  | isInstance => exact .ofExcept fun _ => typeTest_mentions fun hcast => nomatch hcast
  | castClass => exact .ofExcept fun _ => typeTest_mentions fun _ => hop
  | initObject => exact .ofExcept fun _ => initObject_mentions (hop ▸ rfl)

end Stencil.Mips
