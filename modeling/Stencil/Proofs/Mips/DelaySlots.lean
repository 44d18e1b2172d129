import Stencil.Mips.Backend
import Stencil.Proofs.Compile

/-!
# Delay slots of the MIPS32 templates

The instruction behind a branch or a jump runs before control is transferred. Every template puts `nop`
there itself, so none counts on what is emitted after it, and the slots of a compiled method are filled.
Templates do not count on what is emitted before them either: `hi` and `lo` are read only right behind an
instruction that sets or reads them, too.
-/

namespace Stencil

namespace Mips

open Stateful

namespace Instr

def readsProduct : Instr → Bool
  | .mfhi _ | .mflo _ => true
  | _ => false

/-- The instruction sets `hi` and `lo`, or reads one of them. -/
def usesProduct : Instr → Bool
  | .mult .. | .div .. | .mfhi _ | .mflo _ => true
  | _ => false

end Instr

/-- Every instruction of the list that has a delay slot is followed by `nop`; so is what stands before the
list if `pending`. Every one that reads `hi` or `lo` stands behind one that uses them, like the first of the
list if `settled`. -/
def fillsSlots (pending settled : Bool) : List Instr → Bool
  | [] => !pending
  | instr :: rest =>
    (!pending || instr == .nop) && (settled || !instr.readsProduct) &&
      fillsSlots instr.hasDelaySlot instr.usesProduct rest

/-- Wherever an instruction has a delay slot, `nop` is the next one, and wherever one reads `hi` or `lo`, the
one before it has used them. -/
structure Filled (code : List Instr) : Prop where
  slot : ∀ k instr, code[k]? = some instr → instr.hasDelaySlot = true → code[k + 1]? = some .nop
  product : ∀ k instr, code[k]? = some instr → instr.readsProduct = true →
    ∃ j before, k = j + 1 ∧ code[j]? = some before ∧ before.usesProduct = true

namespace Filled

variable {code code' : List Instr}

theorem of_fillsSlots {pending settled : Bool} (h : fillsSlots pending settled code = true) :
    (pending = true → code[0]? = some .nop) ∧
      (∀ k instr, code[k]? = some instr → instr.hasDelaySlot = true → code[k + 1]? = some .nop) ∧
      ∀ k instr, code[k]? = some instr → instr.readsProduct = true → k = 0 ∧ settled = true ∨
        ∃ j before, k = j + 1 ∧ code[j]? = some before ∧ before.usesProduct = true := by
  induction code generalizing pending settled with
  | nil =>
    rw [fillsSlots, Bool.not_eq_true'] at h
    exact ⟨fun hpending => absurd (h.symm.trans hpending) Bool.false_ne_true, fun _ _ hk => (nomatch hk),
      fun _ _ hk => (nomatch hk)⟩
  | cons head rest ih =>
    rw [fillsSlots, Bool.and_eq_true, Bool.and_eq_true] at h
    obtain ⟨⟨hslot, hproduct⟩, hrest⟩ := h
    obtain ⟨hfirst, hslots, hproducts⟩ := ih hrest
    refine ⟨fun hpending => ?_, fun k instr hk hslot => ?_, fun k instr hk hreads => ?_⟩
    · rw [hpending, Bool.not_true, Bool.false_or, beq_iff_eq] at hslot
      rw [hslot]
      rfl
    · cases k with
      | zero =>
        obtain rfl := Option.some.inj hk
        exact hfirst hslot
      | succ k => exact hslots k instr hk hslot
    · cases k with
      | zero =>
        obtain rfl := Option.some.inj hk
        rw [hreads, Bool.not_true, Bool.or_false] at hproduct
        exact .inl ⟨rfl, hproduct⟩
      | succ k =>
        rcases hproducts k instr hk hreads with ⟨rfl, huses⟩ | ⟨j, before, rfl, hbefore, huses⟩
        · exact .inr ⟨0, head, rfl, rfl, huses⟩
        · exact .inr ⟨j + 1, before, rfl, hbefore, huses⟩

theorem of_eval (h : fillsSlots false false code = true) : Filled code where
  slot := (of_fillsSlots h).2.1
  product k instr hk hreads := ((of_fillsSlots h).2.2 k instr hk hreads).resolve_left fun hfirst =>
    Bool.false_ne_true hfirst.2

theorem nil : Filled [] := .of_eval rfl

theorem append (h : Filled code) (h' : Filled code') : Filled (code ++ code') := by
  constructor
  · intro k instr hk hslot
    rcases Nat.lt_or_ge k code.length with hlt | hge
    · rw [List.getElem?_append_left hlt] at hk
      have hnop := h.slot k instr hk hslot
      have hnext : k + 1 < code.length := (List.getElem?_eq_some_iff.mp hnop).1
      rwa [List.getElem?_append_left hnext]
    · rw [List.getElem?_append_right hge] at hk
      rw [List.getElem?_append_right (Nat.le_succ_of_le hge), Nat.succ_sub hge]
      exact h'.slot _ instr hk hslot
  · intro k instr hk hreads
    rcases Nat.lt_or_ge k code.length with hlt | hge
    · rw [List.getElem?_append_left hlt] at hk
      obtain ⟨j, before, rfl, hbefore, huses⟩ := h.product k instr hk hreads
      exact ⟨j, before, rfl, by rwa [List.getElem?_append_left (Nat.lt_of_succ_lt hlt)], huses⟩
    · rw [List.getElem?_append_right hge] at hk
      obtain ⟨j, before, hj, hbefore, huses⟩ := h'.product _ instr hk hreads
      refine ⟨code.length + j, before, by omega, ?_, huses⟩
      rwa [List.getElem?_append_right (Nat.le_add_right _ _), Nat.add_sub_cancel_left]

theorem cons {instr : Instr} (hplain : fillsSlots false false [instr] = true) (h : Filled code) :
    Filled (instr :: code) := (of_eval hplain).append h

theorem flatMap {α : Type} {f : α → List Instr} (xs : List α) (h : ∀ x ∈ xs, Filled (f x)) :
    Filled (xs.flatMap f) := by
  induction xs with
  | nil => exact .nil
  | cons x xs ih =>
    rw [List.flatMap_cons]
    rw [List.forall_mem_cons] at h
    exact h.1.append (ih h.2)

theorem replicate (n : Nat) (h : Filled code) : Filled (List.replicate n code).flatten := by
  rw [← List.flatMap_id]
  exact flatMap _ fun part hpart => List.eq_of_mem_replicate hpart ▸ h

theorem ite {p : Prop} [Decidable p] (h : Filled code) (h' : Filled code') :
    Filled (if p then code else code') := by
  split
  · exact h
  · exact h'

theorem ofExcept {answer : Except CompileError (List Instr)}
    (h : ∀ code, answer = .ok code → Filled code) : Filled (Template.ofExcept answer).code := by
  cases answer with
  | error e => exact .nil
  | ok code => exact h code rfl

end Filled

/-! ## Parts of templates -/

section Parts

variable (ctx : EmitContext) (i : Instruction)

theorem drop_filled (bytes : Nat) : Filled (Instr.drop bytes) := .ite .nil (.of_eval rfl)

theorem reserve_filled (bytes : Nat) : Filled (Instr.reserve bytes) := .ite .nil (.of_eval rfl)

theorem pushImm_filled (imm : Int32) : Filled (Instr.pushImm imm) := .ite (.of_eval rfl) (.of_eval rfl)

theorem nullCheck_filled (reg : Reg) : Filled (nullCheck ctx i reg) := .of_eval rfl

theorem guardIndirect_filled (reg : Reg) : Filled (guardIndirect ctx i reg) :=
  .ite (nullCheck_filled ctx i reg) .nil

theorem elementBase_filled (array index : Reg) (stride : Nat) :
    Filled (elementBase ctx i array index stride) := by
  refine ((nullCheck_filled ctx i array).append (.of_eval rfl)).append ?_
  unfold scaleIndex
  split
  · split <;> exact .of_eval rfl
  · exact .of_eval rfl

theorem loadValue_filled (base : Reg) (offset : Int32) (bytes : Nat) (signed : Bool) (align : Nat) :
    Filled (loadValue base offset bytes signed align) := by
  unfold loadValue
  split
  · exact .of_eval rfl
  · exact .cons rfl (.flatMap _ fun _ _ => .of_eval rfl)

theorem storeValue_filled (base : Reg) (offset : Int32) (bytes align : Nat) :
    Filled (storeValue base offset bytes align) := by
  unfold storeValue
  split
  · exact .of_eval rfl
  · exact .cons rfl (.flatMap _ fun _ _ => .of_eval rfl)

theorem pushFromMemory_filled (base : Reg) (offset : Int32) (storage : Nat) (signed : Bool) (align : Nat) :
    Filled (pushFromMemory base offset storage signed align) :=
  .flatMap _ fun _ _ => (loadValue_filled _ _ _ _ _).append (.of_eval rfl)

theorem popToMemory_filled (base : Reg) (offset : Int32) (storage align : Nat) :
    Filled (popToMemory base offset storage align) :=
  .flatMap _ fun _ _ => .append (.of_eval rfl) (storeValue_filled _ _ _ _)

theorem zeroFrom_filled (base : Reg) (offset : Int32) (align done left : Nat) :
    Filled (zeroFrom base offset align done left) := by
  fun_induction zeroFrom base offset align done left with
  | case1 done left _ width ih => exact .cons rfl ih
  | case2 => exact .nil

theorem afterCall_filled (ret args : Nat) : Filled (afterCall ret args) := by
  have hdrop := drop_filled args
  unfold afterCall
  split
  · exact .nil
  · split
    · exact hdrop
    · exact .append (.append (.of_eval rfl) hdrop) (.of_eval rfl)
    · exact .append (.append (.append (.of_eval rfl) hdrop) (.of_eval rfl)) (.of_eval rfl)
    · exact .append (.flatMap _ fun _ _ => .of_eval rfl) hdrop

end Parts

/-! ## Integers and decisions -/

section Integers

variable (ctx : EmitContext) (i : Instruction) (e : Effect)

theorem binary_filled {op : BinaryOp} {code : List Instr} (hcode : binary i e op = .ok code) :
    Filled code := by
  unfold binary at hcode
  split at hcode <;> cases op <;> cases hcode <;> exact .of_eval rfl

theorem unary_filled (op : UnaryOp) : Filled (unary e op) := by
  unfold unary
  cases isWide (e.operand 0) <;> cases op <;> exact .of_eval rfl

theorem shiftWord_filled (op : Stencil.ShiftOp) (wideCount : Bool) :
    Filled (shiftWord ctx i op wideCount) := by
  cases wideCount <;> cases op <;> exact .of_eval rfl

theorem shiftWide_filled (op : Stencil.ShiftOp) (wideCount : Bool) :
    Filled (shiftWide ctx i op wideCount) := by
  have hcount : Filled (if wideCount then Instr.bne .t3 .zero (ctx.inside i "Saturate" 0) else []) :=
    .ite (.of_eval rfl) .nil
  have hacross : Filled (shiftAcross op) := by cases op <;> exact .of_eval rfl
  have hover : Filled (shiftOver op) := by cases op <;> exact .of_eval rfl
  have hout : Filled (shiftOut op) := by cases op <;> exact .of_eval rfl
  refine (((((((((((((hcount.append ?_).append ?_).append ?_).append ?_).append ?_).append ?_).append
    hacross).append ?_).append ?_).append hover).append ?_).append ?_).append hout).append ?_ <;>
    exact .of_eval rfl

theorem shift_filled (op : Stencil.ShiftOp) : Filled (shift ctx i e op) := by
  refine .append (.append (.append (.append (.of_eval rfl) ?_) (.of_eval rfl)) ?_) ?_
  · exact .ite (.of_eval rfl) .nil
  · exact .ite (.append (.of_eval rfl) (shiftWide_filled ctx i op _)) (shiftWord_filled ctx i op _)
  · exact .ite (.of_eval rfl) (.of_eval rfl)

theorem convertTo_filled (pointerSize size : Nat) (target : ConvTarget) :
    Filled (convertTo pointerSize size target) := by
  unfold convertTo
  split
  · exact .nil
  · exact .nil
  · generalize target.isSigned = signed
    cases signed <;> exact .of_eval rfl
  · refine .append (.append (.append (.of_eval rfl) (.ite (drop_filled 4) .nil)) ?_) (.of_eval rfl)
    exact .ite (.ite (.of_eval rfl) (.of_eval rfl)) .nil

theorem jumpIf_filled (c : Comparison) (a b : Reg) (target : Label) : Filled (jumpIf c a b target) := by
  unfold jumpIf
  split <;> exact .of_eval rfl

theorem jumpIfWide_filled (c : Comparison) (taken notTaken : Label) :
    Filled (jumpIfWide c taken notTaken) := by
  refine .append (.append ?_ (.of_eval rfl)) (jumpIf_filled _ _ _ _)
  split
  · exact jumpIf_filled _ _ _ _
  · exact .nil

theorem popOperands_filled (wide : Bool) : Filled (popOperands wide) := by
  cases wide <;> exact .of_eval rfl

theorem compare_filled (op : CompareOp) : Filled (compare ctx i e op) := by
  have hjump : Filled (if isWide (e.operand 0) then
      jumpIfWide (.ofCompare op) (ctx.inside i "True" 0) (ctx.inside i "False" 1)
      else jumpIf (.ofCompare op) .t0 .t2 (ctx.inside i "True" 0)) :=
    .ite (jumpIfWide_filled _ _ _) (jumpIf_filled _ _ _ _)
  refine ((((((((popOperands_filled _).append hjump).append ?_).append ?_).append ?_).append ?_).append
    ?_).append ?_) <;> exact .of_eval rfl

theorem branchTo_filled (wide : Bool) (condition : BranchCondition) (target : Label) :
    Filled (branchTo ctx i wide condition target) := by
  unfold branchTo
  split
  · exact (popOperands_filled wide).append
      (.ite ((jumpIfWide_filled _ _ _).append (.of_eval rfl)) (jumpIf_filled _ _ _ _))
  · refine .ite (.of_eval rfl) ?_
    unfold branchZero
    cases wide <;> cases condition <;> exact .of_eval rfl

theorem switchCases_filled (targets : List Int) (case : Nat) :
    Filled (switchCases ctx i case targets).code := by
  induction targets generalizing case with
  | nil => exact .nil
  | cons target rest ih =>
    unfold switchCases
    split
    · exact .nil
    · exact .cons rfl (.append (.of_eval rfl) (ih (case + 1)))

theorem switch_filled : Filled (switch ctx i).code := by
  unfold switch
  split
  · exact .nil
  · exact .append (.of_eval rfl) (switchCases_filled ctx i _ 0)

end Integers

/-! ## Returns, loads and stores -/

section Storage

variable {ctx : EmitContext} {i : Instruction} {e : Effect} {code : List Instr}

theorem leave_filled (hcode : leave ctx i e = .ok code) : Filled code := by
  obtain ⟨t, -, hcode⟩ := answer_bind.mp hcode
  obtain ⟨target, -, hcode⟩ := answer_bind.mp hcode
  obtain rfl := Except.ok.inj hcode
  exact (drop_filled _).append (.of_eval rfl)

theorem ret_filled (hcode : ret ctx i e = .ok code) : Filled code := by
  obtain ⟨value, hvalue, hcode⟩ := answer_bind.mp hcode
  obtain rfl := Except.ok.inj hcode
  refine .append ?_ (.of_eval rfl)
  unfold returnValue at hvalue
  split at hvalue
  · obtain rfl := Except.ok.inj hvalue
    exact .nil
  · obtain rfl := Except.ok.inj hvalue
    exact .of_eval rfl
  · obtain rfl := Except.ok.inj hvalue
    exact .of_eval rfl
  · obtain ⟨_, -, hvalue⟩ := answer_bind.mp hvalue
    obtain rfl := Except.ok.inj hvalue
    exact .flatMap _ fun _ _ => .of_eval rfl

theorem loadSlot_filled {isArg : Bool} (hcode : loadSlot ctx i isArg = .ok code) : Filled code := by
  obtain ⟨⟨words, base⟩, -, hcode⟩ := answer_bind.mp hcode
  obtain rfl := Except.ok.inj hcode
  exact .flatMap _ fun _ _ => .of_eval rfl

theorem storeSlot_filled {isArg : Bool} (hcode : storeSlot ctx i isArg = .ok code) : Filled code := by
  obtain ⟨⟨words, base⟩, -, hcode⟩ := answer_bind.mp hcode
  obtain rfl := Except.ok.inj hcode
  exact .flatMap _ fun _ _ => .of_eval rfl

theorem slotAddress_filled {isArg : Bool} (hcode : slotAddress ctx i isArg = .ok code) : Filled code := by
  obtain ⟨⟨words, base⟩, -, hcode⟩ := answer_bind.mp hcode
  obtain rfl := Except.ok.inj hcode
  exact .of_eval rfl

theorem loadConst_filled (hcode : loadConst i = .ok code) : Filled code := by
  unfold loadConst at hcode
  split at hcode
  · obtain ⟨value, -, rfl⟩ := answer_map.mp hcode
    exact (pushImm_filled _).append (pushImm_filled _)
  · obtain ⟨value, -, rfl⟩ := answer_map.mp hcode
    exact pushImm_filled value

theorem loadSymbol_filled {symbol : Except CompileError Symbol} (hcode : loadSymbol symbol = .ok code) :
    Filled code := by
  obtain ⟨s, -, rfl⟩ := answer_map.mp hcode
  exact .of_eval rfl

theorem sizeOf_filled (hcode : sizeOf ctx i = .ok code) : Filled code := by
  obtain ⟨access, -, rfl⟩ := answer_map.mp hcode
  exact pushImm_filled _

theorem dup_filled (hcode : dup i e = .ok code) : Filled code := by
  obtain ⟨offset, -, hcode⟩ := answer_bind.mp hcode
  obtain rfl := Except.ok.inj hcode
  exact .replicate _ (.of_eval rfl)

theorem pop_filled (e : Effect) : Filled (pop e) := .append (.ite (.of_eval rfl) .nil) (drop_filled _)

/-- Code that checks a pointer and then moves a value through it. -/
theorem checked_filled {front move : List Instr} (hfront : Filled front) (hmove : Filled move) :
    Filled (front ++ nullCheck ctx i .t0 ++ move) := (hfront.append (nullCheck_filled ctx i .t0)).append hmove

theorem loadField_filled (hcode : loadField ctx i = .ok code) : Filled code := by
  obtain ⟨⟨field, access, offset⟩, -, hcode⟩ := answer_bind.mp hcode
  obtain rfl := Except.ok.inj hcode
  exact checked_filled (.of_eval rfl) (pushFromMemory_filled _ _ _ _ _)

theorem loadFieldAddress_filled (hcode : loadFieldAddress ctx i = .ok code) : Filled code := by
  obtain ⟨⟨field, access, offset⟩, -, hcode⟩ := answer_bind.mp hcode
  obtain rfl := Except.ok.inj hcode
  exact (checked_filled (.of_eval rfl) (.of_eval rfl)).append (.of_eval rfl)

theorem storeField_filled (hcode : storeField ctx i e = .ok code) : Filled code := by
  obtain ⟨⟨field, access, offset⟩, -, hcode⟩ := answer_bind.mp hcode
  obtain ⟨value, -, hcode⟩ := answer_bind.mp hcode
  obtain rfl := Except.ok.inj hcode
  exact (checked_filled (.of_eval rfl) (popToMemory_filled _ _ _ _)).append (drop_filled 4)

theorem loadStatic_filled (hcode : loadStatic ctx i = .ok code) : Filled code := by
  obtain ⟨⟨field, access, offset⟩, -, hcode⟩ := answer_bind.mp hcode
  obtain rfl := Except.ok.inj hcode
  exact .cons rfl (pushFromMemory_filled _ _ _ _ _)

theorem loadStaticAddress_filled (hcode : loadStaticAddress ctx i = .ok code) : Filled code := by
  obtain ⟨⟨field, access, offset⟩, -, hcode⟩ := answer_bind.mp hcode
  obtain rfl := Except.ok.inj hcode
  exact .of_eval rfl

theorem storeStatic_filled (hcode : storeStatic ctx i = .ok code) : Filled code := by
  obtain ⟨⟨field, access, offset⟩, -, hcode⟩ := answer_bind.mp hcode
  obtain rfl := Except.ok.inj hcode
  exact .cons rfl (popToMemory_filled _ _ _ _)

theorem loadIndirect_filled {kind : ValueKind} (hcode : loadIndirect ctx i kind = .ok code) :
    Filled code := by
  obtain ⟨access, -, hcode⟩ := answer_bind.mp hcode
  obtain rfl := Except.ok.inj hcode
  exact .append (.append (.of_eval rfl) (guardIndirect_filled ctx i .t0)) (pushFromMemory_filled _ _ _ _ _)

theorem storeIndirect_filled {kind : ValueKind} (hcode : storeIndirect ctx i e kind = .ok code) :
    Filled code := by
  obtain ⟨access, -, hcode⟩ := answer_bind.mp hcode
  obtain ⟨value, -, hcode⟩ := answer_bind.mp hcode
  obtain rfl := Except.ok.inj hcode
  exact .append (.append (.append (.of_eval rfl) (guardIndirect_filled ctx i .t0))
    (popToMemory_filled _ _ _ _)) (drop_filled 4)

theorem initObject_filled (hcode : initObject ctx i = .ok code) : Filled code := by
  obtain ⟨access, -, hcode⟩ := answer_bind.mp hcode
  obtain rfl := Except.ok.inj hcode
  exact .append (.append (.of_eval rfl) (guardIndirect_filled ctx i .t0)) (zeroFrom_filled _ _ _ _ _)

theorem loadLength_filled : Filled (loadLength ctx i) :=
  .append (checked_filled (.of_eval rfl) (.of_eval rfl)) (.of_eval rfl)

theorem loadElement_filled {kind : ValueKind} (hcode : loadElement ctx i kind = .ok code) :
    Filled code := by
  obtain ⟨access, -, hcode⟩ := answer_bind.mp hcode
  obtain ⟨header, -, hcode⟩ := answer_bind.mp hcode
  obtain rfl := Except.ok.inj hcode
  exact .append (.append (.of_eval rfl) (elementBase_filled ctx i _ _ _)) (pushFromMemory_filled _ _ _ _ _)

theorem loadElementAddress_filled (hcode : loadElementAddress ctx i = .ok code) : Filled code := by
  obtain ⟨access, -, hcode⟩ := answer_bind.mp hcode
  obtain ⟨header, -, hcode⟩ := answer_bind.mp hcode
  obtain rfl := Except.ok.inj hcode
  exact .append (.append (.append (.of_eval rfl) (elementBase_filled ctx i _ _ _)) (.cons rfl .nil))
    (.of_eval rfl)

theorem storeElement_filled {kind : ValueKind} (hcode : storeElement ctx i e kind = .ok code) :
    Filled code := by
  obtain ⟨access, -, hcode⟩ := answer_bind.mp hcode
  obtain ⟨header, -, hcode⟩ := answer_bind.mp hcode
  obtain ⟨value, -, hcode⟩ := answer_bind.mp hcode
  obtain rfl := Except.ok.inj hcode
  exact .append (.append (.append (.of_eval rfl) (elementBase_filled ctx i _ _ _))
    (popToMemory_filled _ _ _ _)) (drop_filled 8)

end Storage

/-! ## Calls and allocation -/

section Calls

variable {ctx : EmitContext} {i : Instruction} {e : Effect} {code : List Instr}

theorem prologue_filled : Filled (prologue ctx) := .append (.of_eval rfl) (.replicate _ (.of_eval rfl))

theorem epilogue_filled : Filled (epilogue ctx) := by
  unfold epilogue
  split <;> exact .of_eval rfl

theorem call_filled (hcode : call ctx i e = .ok code) : Filled code := by
  obtain ⟨m, -, hcode⟩ := answer_bind.mp hcode
  obtain rfl := Except.ok.inj hcode
  exact .append (.append (reserve_filled _) (.of_eval rfl)) (afterCall_filled _ _)

theorem callIndirect_filled (e : Effect) : Filled (callIndirect e) :=
  .append (.append (.append (.of_eval rfl) (reserve_filled _)) (.of_eval rfl)) (afterCall_filled _ _)

theorem dispatch_filled (slot ret : Nat) : Filled (dispatch ctx i slot ret) := by
  have hhalt : Filled (Instr.pushImm HaltReason.missingVirtualMethod.code.toInt32) := pushImm_filled _
  refine ((((((((((Filled.append ?_ ?_).append ?_).append ?_).append ?_).append hhalt).append ?_).append
    ?_).append ?_).append ?_).append (reserve_filled ret)).append ?_ <;> exact .of_eval rfl

theorem callVirtual_filled (hcode : callVirtual ctx i e = .ok code) : Filled code := by
  obtain ⟨⟨m, declaring⟩, -, hcode⟩ := answer_bind.mp hcode
  obtain ⟨this, -, hcode⟩ := answer_bind.mp hcode
  obtain rfl := Except.ok.inj hcode
  refine .append (.ite ?_ (.ite ?_ ?_)) (afterCall_filled _ _)
  · exact .append (.append (.append (.of_eval rfl) (nullCheck_filled ctx i .t9)) (reserve_filled _))
      (.of_eval rfl)
  · exact .append (checked_filled (.of_eval rfl) (reserve_filled _)) (.of_eval rfl)
  · exact checked_filled (.of_eval rfl) (dispatch_filled _ _)

theorem allocate_filled (allocator : Intrinsic) (descriptor : Symbol) :
    Filled (allocate ctx i allocator descriptor) := by
  refine .append (.append (.append (.append (.append ?_ (reserve_filled _)) ?_) ?_) (drop_filled _)) ?_ <;>
    exact .of_eval rfl

theorem newObject_filled (hcode : newObject ctx i = .ok code) : Filled code := by
  obtain ⟨⟨ctor, declaring⟩, -, hcode⟩ := answer_bind.mp hcode
  dsimp only at hcode
  split at hcode
  · obtain rfl := Except.ok.inj hcode
    exact .of_eval rfl
  · obtain ⟨params, -, hcode⟩ := answer_bind.mp hcode
    obtain ⟨_, -, hcode⟩ := answer_bind.mp hcode
    obtain rfl := Except.ok.inj hcode
    refine .append (.append (.append (.append (.append (allocate_filled _ _) (reserve_filled 8))
      (.flatMap _ fun _ _ => ?_)) ?_) ?_) (drop_filled _) <;> exact .of_eval rfl

theorem newArray_filled (hcode : newArray ctx i = .ok code) : Filled code := by
  obtain ⟨t, -, hcode⟩ := answer_bind.mp hcode
  obtain rfl := Except.ok.inj hcode
  exact (allocate_filled _ _).append (.of_eval rfl)

theorem typeTest_filled {isCast : Bool} (hcode : typeTest ctx i isCast = .ok code) : Filled code := by
  obtain ⟨t, -, hcode⟩ := answer_bind.mp hcode
  obtain rfl := Except.ok.inj hcode
  have hanswer : Filled (if isCast then throwHere .throwInvalidCast else [Instr.move .t0 .zero]) :=
    .ite (.of_eval rfl) (.of_eval rfl)
  refine (((((((((Filled.append ?_ ?_).append ?_).append ?_).append ?_).append ?_).append ?_).append
    ?_).append hanswer).append ?_).append ?_ <;> exact .of_eval rfl

end Calls

/-! ## Methods -/

/-- Every template fills its delay slots, whatever it is made for. -/
theorem emit_filled (ctx : EmitContext) (i : Instruction) (e : Effect) : Filled (emit ctx i e).code := by
  unfold emit
  cases i.op.operation with
  | nop | throw => exact .of_eval rfl
  | loadNull => exact pushImm_filled 0
  | methodStart => exact prologue_filled
  | methodEnd => exact epilogue_filled
  | ret => exact .ofExcept fun _ => ret_filled
  | loadArg | loadLocal => exact .ofExcept fun _ => loadSlot_filled
  | storeArg | storeLocal => exact .ofExcept fun _ => storeSlot_filled
  | loadArgAddress | loadLocalAddress => exact .ofExcept fun _ => slotAddress_filled
  | loadConst => exact .ofExcept fun _ => loadConst_filled
  | loadString | loadToken | loadFunction => exact .ofExcept fun _ => loadSymbol_filled
  | sizeOf => exact .ofExcept fun _ => sizeOf_filled
  | dup => exact .ofExcept fun _ => dup_filled
  | pop => exact pop_filled e
  | binary op => exact .ofExcept fun _ => binary_filled i e
  | unary op => exact unary_filled e op
  | shift op => exact shift_filled ctx i e op
  | compare op => exact compare_filled ctx i e op
  | convert target =>
    refine .ofExcept fun code hcode => ?_
    cases target with
    | none => cases hcode
    | some target =>
      obtain rfl := Except.ok.inj hcode
      exact convertTo_filled _ _ target
  | branch condition =>
    refine .ofExcept fun code hcode => ?_
    obtain ⟨t, -, hcode⟩ := answer_bind.mp hcode
    obtain ⟨target, -, hcode⟩ := answer_bind.mp hcode
    obtain rfl := Except.ok.inj hcode
    exact branchTo_filled ctx i _ condition target
  | switch => exact switch_filled ctx i
  | leave => exact .ofExcept fun _ => leave_filled
  | loadField => exact .ofExcept fun _ => loadField_filled
  | loadFieldAddress => exact .ofExcept fun _ => loadFieldAddress_filled
  | storeField => exact .ofExcept fun _ => storeField_filled
  | loadStatic => exact .ofExcept fun _ => loadStatic_filled
  | loadStaticAddress => exact .ofExcept fun _ => loadStaticAddress_filled
  | storeStatic => exact .ofExcept fun _ => storeStatic_filled
  | loadIndirect kind => exact .ofExcept fun _ => loadIndirect_filled
  | storeIndirect kind => exact .ofExcept fun _ => storeIndirect_filled
  | initObject => exact .ofExcept fun _ => initObject_filled
  | loadLength => exact loadLength_filled
  | loadElement kind => exact .ofExcept fun _ => loadElement_filled
  | loadElementAddress => exact .ofExcept fun _ => loadElementAddress_filled
  | storeElement kind => exact .ofExcept fun _ => storeElement_filled
  | call => exact .ofExcept fun _ => call_filled
  | callIndirect => exact callIndirect_filled e
  | callVirtual => exact .ofExcept fun _ => callVirtual_filled
  | newObject => exact .ofExcept fun _ => newObject_filled
  | newArray => exact .ofExcept fun _ => newArray_filled
  | isInstance | castClass => exact .ofExcept fun _ => typeTest_filled

end Mips

section Methods

variable {tables : Table} {options : Options} {body : MethodBody} {m : CompiledMethod Mips.Instr}

/-- In a compiled method every branch and every jump has `nop` behind it. -/
theorem delay_slots_filled (h : compileMethod Mips.backend tables options body = .ok m) {k : Nat}
    {instr : Mips.Instr} (hinstr : m.code[k]? = some instr) (hslot : instr.hasDelaySlot = true) :
    m.code[k + 1]? = some .nop := by
  obtain ⟨c⟩ := compileMethod_ok h
  have hfilled : Mips.Filled m.code := by
    rw [c.code_eq]
    exact c.selected.code_of_closed .nil .append (fun _ => .of_eval rfl)
      fun pair _ _ => Mips.emit_filled _ pair.1 pair.2.effect
  exact hfilled.slot k instr hinstr hslot

end Methods

/-! ### A method that only returns -/

def idleTable : Table := Table.addMethod {} (.ofName ⟨1, Nat.one_pos⟩ 0 "idle")

def idleBody : MethodBody where
  method := ⟨1, Nat.one_pos⟩
  instructions := [.placed 0 .ret []]

/-- The return jumps to the method end, and the method end to the caller. -/
theorem delay_slots_filled_idle :
    ∃ m, compileMethod Mips.backend idleTable {} idleBody = .ok m ∧
      m.code[13]? = some (.jr .ra) ∧ m.code[14]? = some .nop := by
  have hcode : (compileMethod Mips.backend idleTable {} idleBody).toOption.any
      (fun m => m.code[13]? == some (.jr .ra)) = true := rfl
  cases hm : compileMethod Mips.backend idleTable {} idleBody with
  | error e =>
    rw [hm] at hcode
    cases hcode
  | ok m =>
    rw [hm] at hcode
    have hjump : m.code[13]? = some (.jr .ra) := beq_iff_eq.mp hcode
    exact ⟨m, rfl, hjump, delay_slots_filled hm hjump rfl⟩

end Stencil
