import Stencil.Proofs.Symbols.Basic
import Stencil.X86.Backend

/-!
# Symbols of the x86 templates

Moves between memory and the stack mention the symbol of their address. Otherwise a template mentions the
helpers it calls and what its instruction refers to (`emit_mentions`).
-/

namespace Stencil.X86

open Stateful

instance : RaiseCode Instr where
  lead := [.callSymbol Intrinsic.callSite.symbol, .pushReg .eax]
  calls := .callSymbol

/-! ## Parts of templates -/

section Parts

variable {S : Symbol → Prop} {R : Intrinsic → Prop}

theorem drop_mentions (bytes : Nat) : Mentions S R (Instr.drop bytes) := .ite .nil (.of_none rfl)

theorem reserve_mentions (bytes : Nat) : Mentions S R (Instr.reserve bytes) := .ite .nil (.of_none rfl)

theorem scaleIndex_mentions (array index : Reg) (stride : Nat) : Mentions S R (scaleIndex array index stride) :=
  .append (.ite .nil (.of_none rfl)) (.of_none rfl)

theorem popOperands_mentions (wide : Bool) : Mentions S R (popOperands wide) :=
  .ite (.of_none rfl) (.of_none rfl)

theorem pushResult_mentions (wide : Bool) : Mentions S R (pushResult wide) :=
  .ite (.of_none rfl) (.of_none rfl)

theorem afterCall_mentions (ret args : Nat) : Mentions S R (afterCall ret args) := by
  refine .ite .nil ?_
  split
  · exact drop_mentions _
  · exact .append (.append (.of_none rfl) (drop_mentions _)) (.of_none rfl)
  · exact .append (.append (.of_none rfl) (drop_mentions _)) (.of_none rfl)
  · exact .append (.flatMap _ fun _ _ => .of_none rfl) (drop_mentions _)

/-! ### Addresses -/

variable {m : Mem}

theorem pushMem_mentions (hm : ∀ s ∈ m.symbol.toList, S s) : Mentions S R [Instr.pushMem m] :=
  .of_eq (List.append_nil _) hm

theorem popMem_mentions (hm : ∀ s ∈ m.symbol.toList, S s) : Mentions S R [Instr.popMem m] :=
  .of_eq (List.append_nil _) hm

theorem storePart_mentions (hm : ∀ s ∈ m.symbol.toList, S s) (width : Width) (src : Reg) :
    Mentions S R [Instr.storePart width m src] :=
  .of_eq ((List.append_nil _).trans (List.append_nil _)) hm

theorem movzx_mentions (hm : ∀ s ∈ m.symbol.toList, S s) (dst : Reg) (width : Width) :
    Mentions S R [Instr.movzx dst (.mem width m)] := .of_eq (List.append_nil _) hm

theorem movsx_mentions (hm : ∀ s ∈ m.symbol.toList, S s) (dst : Reg) (width : Width) :
    Mentions S R [Instr.movsx dst (.mem width m)] := .of_eq (List.append_nil _) hm

theorem loadTail_mentions (hm : ∀ s ∈ m.symbol.toList, S s) (bytes : Nat) (signed : Bool) :
    Mentions S R (loadTail m bytes signed) := by
  unfold loadTail
  split
  · cases signed
    · exact movzx_mentions hm _ _
    · exact movsx_mentions hm _ _
  · cases signed
    · exact movzx_mentions hm _ _
    · exact movsx_mentions hm _ _
  · have hhigh : ∀ s ∈ (m.offset 2).symbol.toList, S s := hm
    exact .cons (movzx_mentions hhigh _ _) (.cons (.of_none rfl) (.cons (movzx_mentions hm _ _) (.of_none rfl)))

theorem pushFromMemory_mentions (hm : ∀ s ∈ m.symbol.toList, S s) (storage : Nat) (signed : Bool) :
    Mentions S R (pushFromMemory m storage signed) := by
  refine .flatMap _ fun k _ => ?_
  have hword : ∀ s ∈ (m.word k).symbol.toList, S s := hm
  exact .ite (pushMem_mentions hword) (.append (loadTail_mentions hword _ _) (.of_none rfl))

theorem popWord_mentions (hm : ∀ s ∈ m.symbol.toList, S s) (bytes : Nat) : Mentions S R (popWord m bytes) := by
  unfold popWord
  split
  · exact popMem_mentions hm
  · exact .cons (.of_none rfl) (storePart_mentions hm _ _)
  · exact .cons (.of_none rfl) (storePart_mentions hm _ _)
  · have hhigh : ∀ s ∈ (m.offset 2).symbol.toList, S s := hm
    exact .cons (.of_none rfl) (.cons (storePart_mentions hm _ _)
      (.cons (.of_none rfl) (storePart_mentions hhigh _ _)))

theorem popToMemory_mentions (hm : ∀ s ∈ m.symbol.toList, S s) (storage : Nat) :
    Mentions S R (popToMemory m storage) := by
  refine .flatMap _ fun k _ => ?_
  have hword : ∀ s ∈ (m.word k).symbol.toList, S s := hm
  exact popWord_mentions hword _

theorem based_plain (base : Reg) (disp : Int32) : ∀ s ∈ (Mem.based base disp).symbol.toList, S s :=
  fun _ hs => absurd hs List.not_mem_nil

theorem global_symbol {s : Symbol} (h : S s) : ∀ s' ∈ (Mem.global s).symbol.toList, S s' :=
  fun _ hs => List.mem_singleton.mp hs ▸ h

theorem zeroMemory_mentions (base : Reg) (disp : Int32) (storage : Nat) :
    Mentions S R (zeroMemory (.based base disp) storage) := by
  refine .append (.map _ fun _ _ => .of_none rfl) ?_
  split
  · exact .nil
  all_goals exact .of_none rfl

end Parts

/-! ## Checks and helpers -/

section Checks

variable {ctx : EmitContext} {i : Instruction} {e : Effect}

theorem helper_mentions {R : Intrinsic → Prop} {k : Intrinsic} (hraises : k.raises = false) (hk : k ≠ .release) :
    Mentions (Mentionable ctx i e) R [Instr.callSymbol k.symbol] := .of_one rfl (.helper hraises hk)

theorem throwHere_mentions {k : Intrinsic} (hk : Raisable ctx i k) :
    Mentions (Mentionable ctx i e) (Raisable ctx i) (throwHere k) :=
  .raise (.cons (helper_mentions (k := .callSite) rfl (by decide)) (.of_none rfl)) hk rfl

theorem nullCheck_mentions (hop : i.op.operation.testsNull ctx.policy.guardIndirect = true) (reg : Reg) :
    Mentions (Mentionable ctx i e) (Raisable ctx i) (nullCheck ctx i reg) :=
  .append (.append (.of_none rfl) (throwHere_mentions hop)) (.of_none rfl)

theorem boundsCheck_mentions (hop : i.op.operation.indexes = true) (array index : Reg) :
    Mentions (Mentionable ctx i e) (Raisable ctx i) (boundsCheck ctx i array index) :=
  .append (.append (.of_none rfl) (throwHere_mentions hop)) (.of_none rfl)

theorem elementBase_mentions (hop : i.op.operation.indexes = true) (array index : Reg) (stride : Nat) :
    Mentions (Mentionable ctx i e) (Raisable ctx i) (elementBase ctx i array index stride) :=
  .append (.append (nullCheck_mentions (Operation.testsNull_of_indexes hop) array)
    (boundsCheck_mentions hop array index)) (scaleIndex_mentions _ _ _)

theorem guardIndirect_mentions (hop : i.op.operation.testsNull true = true) (reg : Reg) :
    Mentions (Mentionable ctx i e) (Raisable ctx i) (guardIndirect ctx i reg) := by
  unfold guardIndirect
  split
  · rename_i hguard
    exact nullCheck_mentions (hguard ▸ hop) reg
  · exact .nil

end Checks

/-! ## Integers and decisions -/

section Integer

variable {S : Symbol → Prop} {R : Intrinsic → Prop} {ctx : EmitContext} {i : Instruction} {e : Effect}

theorem binary_mentions {op : BinaryOp} : Mentions S R (binary i e op).code := by
  unfold binary
  split <;> cases op <;> exact .of_none rfl

theorem unary_mentions {op : UnaryOp} : Mentions S R (unary e op) := by
  unfold unary
  cases isWide (e.operand 0) <;> cases op <;> exact .of_none rfl

theorem shift_mentions {op : ShiftOp} : Mentions S R (shift ctx i e op) := by
  refine .append (.append (.append (.append (.of_none rfl) (.ite (.of_none rfl) .nil)) (.of_none rfl)) ?_)
    (pushResult_mentions _)
  split
  · refine .cons (.of_none rfl) ?_
    cases isWide (e.operand 0) <;> cases op <;> exact .of_none rfl
  · cases isWide (e.operand 0) <;> cases op <;> exact .of_none rfl

theorem convertTo_mentions (pointerSize size : Nat) (target : ConvTarget) :
    Mentions S R (convertTo pointerSize size target) := by
  have hnarrow : ∀ signed size, Mentions S R (narrow signed size) := by
    intro signed size
    unfold narrow
    split <;> cases signed <;> exact .of_none rfl
  unfold convertTo
  split
  · exact .nil
  · exact .nil
  · exact .ite (.of_none rfl) (.of_none rfl)
  · exact .append (.append (.append (.of_none rfl) (.ite (drop_mentions _) .nil)) (hnarrow _ _)) (.of_none rfl)

theorem convert_mentions {target : Option ConvTarget} {code : List Instr}
    (h : convert ctx i e target = .ok code) : Mentions S R code := by
  cases target with
  | none => cases h
  | some target =>
    obtain rfl := Except.ok.inj h
    exact convertTo_mentions _ _ target

theorem jumpIfWide_mentions (c : Comparison) (taken notTaken : Label) :
    Mentions S R (jumpIfWide c taken notTaken) := by
  refine .append (.append (.append (.of_none rfl) ?_) (.of_none rfl)) (.of_none rfl)
  split <;> exact .of_none rfl

theorem compare_mentions {op : CompareOp} : Mentions S R (compare ctx i e op) :=
  .append (.append (popOperands_mentions _) (.ite (jumpIfWide_mentions _ _ _) (.of_none rfl))) (.of_none rfl)

theorem branchZero_mentions (wide onZero : Bool) (target : Label) : Mentions S R (branchZero wide onZero target) :=
  .append (.ite (.of_none rfl) (.of_none rfl)) (.of_none rfl)

theorem branchTo_mentions (wide : Bool) (condition : BranchCondition) (target : Label) :
    Mentions S R (branchTo ctx i wide condition target) := by
  unfold branchTo
  split
  · exact .append (popOperands_mentions wide)
      (.ite (.append (jumpIfWide_mentions _ _ _) (.of_none rfl)) (.of_none rfl))
  · exact .ite (.of_none rfl) (branchZero_mentions wide _ target)

theorem branch_mentions {condition : BranchCondition} {code : List Instr}
    (h : branch ctx i e condition = .ok code) : Mentions S R code := by
  obtain ⟨t, -, h⟩ := answer_bind.mp h
  obtain ⟨target, -, h⟩ := answer_bind.mp h
  obtain rfl := Except.ok.inj h
  exact branchTo_mentions _ condition target

theorem leave_mentions {code : List Instr} (h : leave ctx i e = .ok code) : Mentions S R code := by
  obtain ⟨t, -, h⟩ := answer_bind.mp h
  obtain ⟨target, -, h⟩ := answer_bind.mp h
  obtain rfl := Except.ok.inj h
  exact .append (drop_mentions _) (.of_none rfl)

theorem switchCases_mentions (case : Nat) (targets : List Int) :
    Mentions S R (switchCases ctx i case targets).code := by
  induction targets generalizing case with
  | nil => exact .nil
  | cons t targets ih =>
    unfold switchCases
    split
    · exact .nil
    · exact .cons (.of_none rfl) (.cons (.of_none rfl) (ih (case + 1)))

theorem switch_mentions : Mentions S R (switch ctx i).code := by
  unfold switch
  split
  · exact .nil
  · exact .cons (.of_none rfl) (switchCases_mentions 0 _)

theorem ret_mentions : Mentions S R (ret ctx e) := by
  refine .append ?_ (.of_none rfl)
  split
  · exact .nil
  · exact .of_none rfl
  · exact .of_none rfl
  · exact .map _ fun _ _ => .of_none rfl

theorem prologue_mentions : Mentions S R (prologue ctx) := .append (.of_none rfl) (.replicate _ (.of_none rfl))

theorem epilogue_mentions : Mentions S R (epilogue ctx) := by
  refine .append ?_ (.of_none rfl)
  split <;> exact .of_none rfl

end Integer

/-! ## Storage -/

section Storage

variable {S : Symbol → Prop} {R : Intrinsic → Prop} {ctx : EmitContext} {i : Instruction} {e : Effect}
  {code : List Instr}

theorem loadSlot_mentions {isArg : Bool} (h : loadSlot ctx i isArg = .ok code) :
    Mentions S R code := by
  obtain ⟨slot, -, h⟩ := answer_bind.mp h
  obtain rfl := Except.ok.inj h
  exact .map _ fun _ _ => .of_none rfl

theorem storeSlot_mentions {isArg : Bool} (h : storeSlot ctx i isArg = .ok code) :
    Mentions S R code := by
  obtain ⟨slot, -, h⟩ := answer_bind.mp h
  obtain rfl := Except.ok.inj h
  exact .map _ fun _ _ => .of_none rfl

theorem slotAddress_mentions {isArg : Bool} (h : slotAddress ctx i isArg = .ok code) :
    Mentions S R code := by
  obtain ⟨slot, -, h⟩ := answer_bind.mp h
  obtain rfl := Except.ok.inj h
  exact .of_none rfl

theorem loadConst_mentions (h : loadConst i = .ok code) : Mentions S R code := by
  unfold loadConst at h
  split at h
  all_goals
    obtain ⟨value, -, rfl⟩ := answer_map.mp h
    exact .of_none rfl

theorem sizeOf_mentions (h : sizeOf ctx i = .ok code) : Mentions S R code := by
  obtain ⟨access, -, rfl⟩ := answer_map.mp h
  exact .of_none rfl

theorem loadSymbol_mentions {symbol : Except CompileError Symbol}
    (hsymbol : ∀ s, symbol = .ok s → S s) (h : loadSymbol symbol = .ok code) : Mentions S R code := by
  obtain ⟨s, hs, rfl⟩ := answer_map.mp h
  exact .of_one rfl (hsymbol s hs)

theorem pop_mentions (hop : i.op.operation = .pop) : Mentions (Mentionable ctx i e) (Raisable ctx i) (pop e) := by
  refine .append ?_ (drop_mentions _)
  split
  · rename_i hnew
    exact .of_one rfl (.intrinsic (k := .release) rfl fun _ => ⟨hop, hnew⟩)
  · exact .nil

theorem loadField_mentions (hop : i.op.operation.testsNull ctx.policy.guardIndirect = true)
    (h : loadField ctx i = .ok code) : Mentions (Mentionable ctx i e) (Raisable ctx i) code := by
  obtain ⟨⟨field, access⟩, -, h⟩ := answer_bind.mp h
  obtain rfl := Except.ok.inj h
  exact .append (.append (.of_none rfl) (nullCheck_mentions hop _)) (pushFromMemory_mentions (based_plain _ _) _ _)

theorem loadFieldAddress_mentions (hop : i.op.operation.testsNull ctx.policy.guardIndirect = true)
    (h : loadFieldAddress ctx i = .ok code) :
    Mentions (Mentionable ctx i e) (Raisable ctx i) code := by
  obtain ⟨⟨field, access⟩, -, h⟩ := answer_bind.mp h
  obtain rfl := Except.ok.inj h
  exact .append (.append (.of_none rfl) (nullCheck_mentions hop _)) (.of_none rfl)

theorem storeField_mentions (hop : i.op.operation.testsNull ctx.policy.guardIndirect = true)
    (h : storeField ctx i e = .ok code) : Mentions (Mentionable ctx i e) (Raisable ctx i) code := by
  obtain ⟨⟨field, access⟩, -, h⟩ := answer_bind.mp h
  obtain rfl := Except.ok.inj h
  exact .append (.append (.append (.of_none rfl) (nullCheck_mentions hop _))
    (popToMemory_mentions (based_plain _ _) _)) (drop_mentions _)

theorem loadStatic_mentions (hop : i.op.operation.accessesStatic = true) (h : loadStatic ctx i = .ok code) :
    Mentions (Mentionable ctx i e) (Raisable ctx i) code := by
  obtain ⟨⟨field, access⟩, hfield, h⟩ := answer_bind.mp h
  obtain rfl := Except.ok.inj h
  exact pushFromMemory_mentions (global_symbol (.static hop (resolveField_of_fieldAccess hfield))) _ _

theorem loadStaticAddress_mentions (hop : i.op.operation.accessesStatic = true)
    (h : loadStaticAddress ctx i = .ok code) : Mentions (Mentionable ctx i e) (Raisable ctx i) code := by
  obtain ⟨⟨field, access⟩, hfield, h⟩ := answer_bind.mp h
  obtain rfl := Except.ok.inj h
  exact .of_one rfl (.static hop (resolveField_of_fieldAccess hfield))

theorem storeStatic_mentions (hop : i.op.operation.accessesStatic = true) (h : storeStatic ctx i = .ok code) :
    Mentions (Mentionable ctx i e) (Raisable ctx i) code := by
  obtain ⟨⟨field, access⟩, hfield, h⟩ := answer_bind.mp h
  obtain rfl := Except.ok.inj h
  exact popToMemory_mentions (global_symbol (.static hop (resolveField_of_fieldAccess hfield))) _

theorem loadIndirect_mentions {kind : ValueKind} (hop : i.op.operation.testsNull true = true)
    (h : loadIndirect ctx i kind = .ok code) :
    Mentions (Mentionable ctx i e) (Raisable ctx i) code := by
  obtain ⟨access, -, h⟩ := answer_bind.mp h
  obtain rfl := Except.ok.inj h
  exact .append (.append (.of_none rfl) (guardIndirect_mentions hop _)) (pushFromMemory_mentions (based_plain _ _) _ _)

theorem storeIndirect_mentions {kind : ValueKind} (hop : i.op.operation.testsNull true = true)
    (h : storeIndirect ctx i e kind = .ok code) :
    Mentions (Mentionable ctx i e) (Raisable ctx i) code := by
  obtain ⟨access, -, h⟩ := answer_bind.mp h
  obtain rfl := Except.ok.inj h
  exact .append (.append (.append (.of_none rfl) (guardIndirect_mentions hop _))
    (popToMemory_mentions (based_plain _ _) _)) (drop_mentions _)

theorem initObject_mentions (hop : i.op.operation.testsNull true = true)
    (h : initObject ctx i = .ok code) : Mentions (Mentionable ctx i e) (Raisable ctx i) code := by
  obtain ⟨access, -, h⟩ := answer_bind.mp h
  obtain rfl := Except.ok.inj h
  exact .append (.append (.of_none rfl) (guardIndirect_mentions hop _)) (zeroMemory_mentions _ _ _)

theorem loadLength_mentions (hop : i.op.operation.testsNull ctx.policy.guardIndirect = true) :
    Mentions (Mentionable ctx i e) (Raisable ctx i) (loadLength ctx i) :=
  .append (.append (.of_none rfl) (nullCheck_mentions hop _)) (.of_none rfl)

theorem loadElement_mentions {kind : ValueKind} (hop : i.op.operation.indexes = true)
    (h : loadElement ctx i kind = .ok code) :
    Mentions (Mentionable ctx i e) (Raisable ctx i) code := by
  obtain ⟨access, -, h⟩ := answer_bind.mp h
  obtain rfl := Except.ok.inj h
  exact .append (.append (.of_none rfl) (elementBase_mentions hop _ _ _)) (pushFromMemory_mentions (based_plain _ _) _ _)

theorem loadElementAddress_mentions (hop : i.op.operation.indexes = true)
    (h : loadElementAddress ctx i = .ok code) :
    Mentions (Mentionable ctx i e) (Raisable ctx i) code := by
  obtain ⟨access, -, h⟩ := answer_bind.mp h
  obtain rfl := Except.ok.inj h
  exact .append (.append (.of_none rfl) (elementBase_mentions hop _ _ _)) (.of_none rfl)

theorem storeElement_mentions {kind : ValueKind} (hop : i.op.operation.indexes = true)
    (h : storeElement ctx i e kind = .ok code) :
    Mentions (Mentionable ctx i e) (Raisable ctx i) code := by
  obtain ⟨access, -, h⟩ := answer_bind.mp h
  obtain rfl := Except.ok.inj h
  exact .append (.append (.append (.of_none rfl) (elementBase_mentions hop _ _ _))
    (popToMemory_mentions (based_plain _ _) _)) (drop_mentions _)

end Storage

/-! ## Calls and allocation -/

section Calls

variable {ctx : EmitContext} {i : Instruction} {e : Effect} {code : List Instr}

theorem callMethod_mentions {m : MethodDescriptor} (hm : ∃ id, ctx.tables.method? id = some m) :
    Mentions (Mentionable ctx i e) (Raisable ctx i) [Instr.callSymbol m.symbol] := by
  obtain ⟨id, hid⟩ := hm
  exact .of_one rfl (.method hid)

theorem call_mentions (h : call ctx i e = .ok code) : Mentions (Mentionable ctx i e) (Raisable ctx i) code := by
  obtain ⟨m, hm, h⟩ := answer_bind.mp h
  obtain rfl := Except.ok.inj h
  exact .append (.append (reserve_mentions _) (callMethod_mentions (resolveMethod_ok hm))) (afterCall_mentions _ _)

theorem callIndirect_mentions {S : Symbol → Prop} {R : Intrinsic → Prop} : Mentions S R (callIndirect e) :=
  .append (.append (.append (.of_none rfl) (reserve_mentions _)) (.of_none rfl)) (afterCall_mentions _ _)

theorem dispatch_mentions (slot ret : Nat) : Mentions (Mentionable ctx i e) (Raisable ctx i) (dispatch ctx i slot ret) :=
  .append (.append (.of_one rfl (.helper (k := .halt) rfl (by decide))) (reserve_mentions _)) (.of_none rfl)

theorem callVirtual_mentions (hop : i.op.operation.testsNull ctx.policy.guardIndirect = true)
    (h : callVirtual ctx i e = .ok code) : Mentions (Mentionable ctx i e) (Raisable ctx i) code := by
  obtain ⟨⟨m, declaring⟩, hfound, h⟩ := answer_bind.mp h
  obtain rfl := Except.ok.inj h
  refine .append (.ite ?_ (.ite ?_ ?_)) (afterCall_mentions _ _)
  · exact .append (.append (.append (.of_none rfl) (nullCheck_mentions hop _)) (reserve_mentions _)) (.of_none rfl)
  · exact .append (.append (.append (.of_none rfl) (nullCheck_mentions hop _)) (reserve_mentions _))
      (callMethod_mentions (found_of_methodAndType hfound).1)
  · exact .append (.append (.of_none rfl) (nullCheck_mentions hop _)) (dispatch_mentions _ _)

theorem allocate_mentions {allocator : Intrinsic} (hraises : allocator.raises = false)
    (hallocator : allocator ≠ .release) {t : TypeDescriptor}
    (ht : ∃ id, ctx.tables.type? id = some t) :
    Mentions (Mentionable ctx i e) (Raisable ctx i) (allocate ctx i allocator t.symbol) := by
  obtain ⟨id, hid⟩ := ht
  refine .append (.append (.append (.append (.of_one rfl (.type hid)) (reserve_mentions _)) ?_) (drop_mentions _)) ?_
  · exact .cons (helper_mentions hraises hallocator) (.of_none rfl)
  · exact .of_one rfl (.helper (k := .halt) rfl (by decide))

theorem newObject_mentions (h : newObject ctx i = .ok code) : Mentions (Mentionable ctx i e) (Raisable ctx i) code := by
  obtain ⟨⟨ctor, declaring⟩, hfound, h⟩ := answer_bind.mp h
  obtain ⟨⟨id, hctor⟩, htype⟩ := found_of_methodAndType hfound
  dsimp only at h
  split at h
  · obtain rfl := Except.ok.inj h
    exact .append (.append (.of_none rfl) (drop_mentions _)) (.of_none rfl)
  · obtain ⟨params, -, h⟩ := answer_bind.mp h
    obtain rfl := Except.ok.inj h
    exact .append (.append (.append (.append (allocate_mentions rfl (by decide) htype) (reserve_mentions _))
      (.flatMap _ fun _ _ => .of_none rfl)) (.of_one rfl (.method hctor))) (drop_mentions _)

theorem newArray_mentions (h : newArray ctx i = .ok code) : Mentions (Mentionable ctx i e) (Raisable ctx i) code := by
  obtain ⟨t, ht, h⟩ := answer_bind.mp h
  obtain rfl := Except.ok.inj h
  exact .append (allocate_mentions rfl (by decide) (resolveType_ok ht)) (.of_none rfl)

theorem typeTest_mentions {isCast : Bool} (hop : isCast = true → i.op.operation = .castClass)
    (h : typeTest ctx i isCast = .ok code) :
    Mentions (Mentionable ctx i e) (Raisable ctx i) code := by
  obtain ⟨t, ht, h⟩ := answer_bind.mp h
  obtain ⟨id, hid⟩ := resolveType_ok ht
  obtain rfl := Except.ok.inj h
  refine .append (.append (.of_one rfl (.type hid)) ?_) (.of_none rfl)
  split
  · rename_i hcast
    exact throwHere_mentions (hop hcast)
  · exact .of_none rfl

end Calls

/-- A template mentions helpers and what its instruction refers to. -/
theorem emit_mentions (ctx : EmitContext) (i : Instruction) (e : Effect) :
    Mentions (Mentionable ctx i e) (Raisable ctx i) (emit ctx i e).code := by
  unfold emit
  cases hop : i.op.operation with
  | nop | loadNull => exact .of_none rfl
  | throw => exact helper_mentions (k := .throwObject) rfl (by decide)
  | methodStart => exact prologue_mentions
  | methodEnd => exact epilogue_mentions
  | ret => exact ret_mentions
  | loadArg | loadLocal => exact .ofExcept fun _ => loadSlot_mentions
  | storeArg | storeLocal => exact .ofExcept fun _ => storeSlot_mentions
  | loadArgAddress | loadLocalAddress => exact .ofExcept fun _ => slotAddress_mentions
  | loadConst => exact .ofExcept fun _ => loadConst_mentions
  | loadString =>
    refine .ofExcept fun _ => loadSymbol_mentions fun s hs => ?_
    obtain ⟨literal, hliteral, rfl⟩ := answer_map.mp hs
    obtain ⟨id, hid⟩ := resolveString_ok hliteral
    exact .string hid
  | loadToken => exact .ofExcept fun _ => loadSymbol_mentions fun _ => tokenSymbol_mentionable hop
  | loadFunction =>
    refine .ofExcept fun _ => loadSymbol_mentions fun s hs => ?_
    obtain ⟨m, hm, rfl⟩ := answer_map.mp hs
    obtain ⟨id, hid⟩ := resolveMethod_ok hm
    exact .method hid
  | sizeOf => exact .ofExcept fun _ => sizeOf_mentions
  | dup => exact .replicate _ (.of_none rfl)
  | pop => exact pop_mentions hop
  | binary op => exact binary_mentions
  | unary op => exact unary_mentions
  | shift op => exact shift_mentions
  | compare op => exact compare_mentions
  | convert target => exact .ofExcept fun _ => convert_mentions
  | branch condition => exact .ofExcept fun _ => branch_mentions
  | switch => exact switch_mentions
  | leave => exact .ofExcept fun _ => leave_mentions
  | loadField => exact .ofExcept fun _ => loadField_mentions (hop ▸ rfl)
  | loadFieldAddress => exact .ofExcept fun _ => loadFieldAddress_mentions (hop ▸ rfl)
  | storeField => exact .ofExcept fun _ => storeField_mentions (hop ▸ rfl)
  | loadStatic => exact .ofExcept fun _ => loadStatic_mentions (hop ▸ rfl)
  | loadStaticAddress => exact .ofExcept fun _ => loadStaticAddress_mentions (hop ▸ rfl)
  | storeStatic => exact .ofExcept fun _ => storeStatic_mentions (hop ▸ rfl)
  | loadIndirect kind => exact .ofExcept fun _ => loadIndirect_mentions (hop ▸ rfl)
  | storeIndirect kind => exact .ofExcept fun _ => storeIndirect_mentions (hop ▸ rfl)
  | loadLength => exact loadLength_mentions (hop ▸ rfl)
  | loadElement kind => exact .ofExcept fun _ => loadElement_mentions (hop ▸ rfl)
  | loadElementAddress => exact .ofExcept fun _ => loadElementAddress_mentions (hop ▸ rfl)
  | storeElement kind => exact .ofExcept fun _ => storeElement_mentions (hop ▸ rfl)
  | call => exact .ofExcept fun _ => call_mentions
  | callIndirect => exact callIndirect_mentions
  | callVirtual => exact .ofExcept fun _ => callVirtual_mentions (hop ▸ rfl)
  | newObject => exact .ofExcept fun _ => newObject_mentions
  | newArray => exact .ofExcept fun _ => newArray_mentions
  | isInstance => exact .ofExcept fun _ => typeTest_mentions fun hcast => nomatch hcast
  | castClass => exact .ofExcept fun _ => typeTest_mentions fun _ => hop
  | initObject => exact .ofExcept fun _ => initObject_mentions (hop ▸ rfl)

end Stencil.X86
