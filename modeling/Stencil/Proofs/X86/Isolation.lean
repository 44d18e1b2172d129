import Stencil.Proofs.X86.Cells

/-!
# x86 templates need no register

Every cell that a template reads it has set before, on every path through it. Only a return leaves
registers for what follows: those that hold its result.
-/

namespace Stencil.X86

open Stateful

/-- The cells that hold the result of a return when it goes to the method end. -/
def returnCells (bytes : Nat) : List Cell :=
  match bytes with
  | 4 => [.reg .eax]
  | 8 => [.reg .eax, .reg .edx]
  | _ => []

/-! ## Moving values -/

section Transfer

variable {live : Label → List Cell}

theorem drop_needs (bytes : Nat) : Needs live [] (Instr.drop bytes) [] := by
  unfold Instr.drop
  split
  · exact .nil (List.Subset.refl _)
  · exact .of_eval rfl

/-- A memory operand that templates move values through: on its own or based at `eax`. -/
def Mem.isPlain (m : Mem) : Prop := m.base = none ∨ m.base = some .eax

variable {m : Mem}

theorem pushFromMemory_needs (hm : m.isPlain) (storage : Nat) (signed : Bool) :
    Needs live m.cells (pushFromMemory m storage signed) m.cells := by
  obtain ⟨base, symbol, disp⟩ := m
  refine .flatMap _ fun k _ => ?_
  generalize wordBytes storage k = bytes
  unfold pushWord
  split
  · rcases hm with rfl | rfl <;> exact .of_eval rfl
  · unfold loadTail
    split <;> rcases hm with rfl | rfl <;> cases signed && decide (storage < 4) <;>
      exact .of_eval rfl

theorem popToMemory_needs (hm : m.isPlain) (storage : Nat) :
    Needs live m.cells (popToMemory m storage) m.cells := by
  obtain ⟨base, symbol, disp⟩ := m
  refine .flatMap _ fun k _ => ?_
  generalize wordBytes storage k = bytes
  unfold popWord
  split <;> rcases hm with rfl | rfl <;> exact .of_eval rfl

theorem zeroMemory_needs (disp : Int32) (storage : Nat) :
    Needs live [.reg .eax] (zeroMemory (.based .eax disp) storage) [] := by
  have hwords : Needs live [.reg .eax] ((List.range (storage / 4)).map fun k =>
      Instr.mov (.mem .dword ((Mem.based .eax disp).offset (Int32.ofNat (4 * k)))) (.imm 0))
      [.reg .eax] := .map _ fun k => .of_eval rfl
  refine hwords.append ?_
  split <;> exact .of_eval rfl

end Transfer

/-! ## Guards -/

section Guards

variable (ctx : EmitContext) (i : Instruction) {after : List Cell}

theorem throwHere_needs {live : Label → List Cell} (intrinsic : Intrinsic) :
    Needs live [.reg .eax, .reg .ebx] (throwHere intrinsic) [.reg .eax, .reg .ebx] := by
  cases intrinsic <;> exact .of_eval rfl

theorem nullCheck_needs :
    Needs (liveInside [.reg .eax] after) [.reg .eax] (nullCheck ctx i .eax) [.reg .eax] :=
  .of_eval rfl

theorem guardIndirect_needs :
    Needs (liveInside [.reg .eax] after) [.reg .eax] (guardIndirect ctx i .eax) [.reg .eax] :=
  .ite (nullCheck_needs ctx i) (.nil (List.Subset.refl _))

theorem boundsCheck_needs :
    Needs (liveInside [.reg .eax, .reg .ebx] after) [.reg .eax, .reg .ebx]
      (boundsCheck ctx i .eax .ebx) [.reg .eax, .reg .ebx] := by
  refine .append (.append ?_ (throwHere_needs _)) ?_ <;> exact .of_eval rfl

theorem elementBase_needs (stride : Nat) :
    Needs (liveInside [.reg .eax, .reg .ebx] after) [.reg .eax, .reg .ebx]
      (elementBase ctx i .eax .ebx stride) [.reg .eax] := by
  have hnull : Needs (liveInside [.reg .eax, .reg .ebx] after) [.reg .eax, .reg .ebx]
      (nullCheck ctx i .eax) [.reg .eax, .reg .ebx] := .of_eval rfl
  refine (hnull.append (boundsCheck_needs ctx i)).append ?_
  unfold scaleIndex
  split <;> exact .of_eval rfl

end Guards

/-! ## Integers -/

section Integers

variable (ctx : EmitContext) (i : Instruction) (e : Effect)

theorem binary_isolated {op : BinaryOp} (hfailure : (binary i e op).failure = none) :
    Isolated (binary i e op).code ([] : List Cell) := by
  unfold binary at hfailure ⊢
  generalize isWide (e.operand 0) = wide at hfailure ⊢
  cases wide with
  | false => cases op <;> exact .of_plain (.of_eval rfl)
  | true =>
    cases op with
    | div | divUn | rem | remUn => cases hfailure
    | _ => exact .of_plain (.of_eval rfl)

theorem unary_isolated (op : UnaryOp) : Isolated (unary e op) ([] : List Cell) := by
  unfold unary
  generalize isWide (e.operand 0) = wide
  cases wide <;> cases op <;> exact .of_plain (.of_eval rfl)

def countCells (wideCount : Bool) : List Cell :=
  if wideCount then [.reg .ecx, .reg .esi] else [.reg .ecx]

theorem popCount_needs {live : Label → List Cell} (wideCount : Bool) :
    Needs live [] ([Instr.popReg .ecx] ++ if wideCount then [Instr.popReg .esi] else [])
      (countCells wideCount) := by
  cases wideCount <;> exact .of_eval rfl

theorem shiftWord_needs (op : ShiftOp) (wideCount : Bool) :
    Needs (liveInside [.reg .eax] []) (.reg .eax :: countCells wideCount)
      (shiftWord ctx i op wideCount) [.reg .eax] := by
  cases wideCount <;> cases op <;> exact .of_eval rfl

/-- The cells of a double word and of the low word of its count. -/
def wideCells : List Cell := [.reg .eax, .reg .edx, .reg .ecx]

section Wide

variable {live : Label → List Cell} (op : ShiftOp)

theorem shiftAcross_needs : Needs live wideCells (shiftAcross op) wideCells := by
  cases op <;> exact .of_eval rfl

theorem shiftOver_needs : Needs live wideCells (shiftOver op) wideCells := by
  cases op <;> exact .of_eval rfl

theorem shiftOut_needs : Needs live wideCells (shiftOut op) wideCells := by
  cases op <;> exact .of_eval rfl

end Wide

theorem shiftWide_needs (op : ShiftOp) (wideCount : Bool) :
    Needs (liveInside wideCells []) (.reg .eax :: .reg .edx :: countCells wideCount)
      (shiftWide ctx i op wideCount) [.reg .eax, .reg .edx] := by
  have hcount : Needs (liveInside wideCells []) (.reg .eax :: .reg .edx :: countCells wideCount)
      (if wideCount then [Instr.testReg .esi, .jcc .ne (ctx.inside i "Saturate" 0)] else [])
      wideCells := by
    cases wideCount <;> exact .of_eval rfl
  refine .append (.append (.append (.append (.append (.append (hcount.append ?_)
    (shiftAcross_needs op)) ?_) (shiftOver_needs op)) ?_) (shiftOut_needs op)) ?_ <;>
    exact .of_eval rfl

theorem shift_isolated (op : ShiftOp) : Isolated (shift ctx i e op) ([] : List Cell) := by
  unfold shift
  generalize isWide (e.operand 0) = wideCount, isWide (e.operand 1) = wide
  cases wide with
  | false =>
    have hvalue : Needs (liveInside [.reg .eax] []) (countCells wideCount) [Instr.popReg .eax]
        (.reg .eax :: countCells wideCount) := by
      cases wideCount <;> exact .of_eval rfl
    exact .of_needs [.reg .eax] ((((popCount_needs wideCount).append hvalue).append
      (shiftWord_needs ctx i op wideCount)).append (.of_eval rfl))
  | true =>
    have hlow : Needs (liveInside wideCells []) (countCells wideCount) [Instr.popReg .eax]
        (.reg .eax :: countCells wideCount) := by
      cases wideCount <;> exact .of_eval rfl
    have hhigh : Needs (liveInside wideCells []) (.reg .eax :: countCells wideCount)
        [Instr.popReg .edx] (.reg .eax :: .reg .edx :: countCells wideCount) := by
      cases wideCount <;> exact .of_eval rfl
    exact .of_needs wideCells ((((popCount_needs wideCount).append hlow).append
      (hhigh.append (shiftWide_needs ctx i op wideCount))).append (.of_eval rfl))

theorem narrow_needs (signed : Bool) (size : Nat) :
    Needs (fun _ => []) [.reg .eax] (narrow signed size) [.reg .eax] := by
  unfold narrow
  split
  · exact .nil (List.Subset.refl _)
  · exact .nil (List.Subset.refl _)
  · split <;> exact .of_eval rfl

theorem convertTo_isolated (pointerSize size : Nat) (target : ConvTarget) :
    Isolated (convertTo pointerSize size target) ([] : List Cell) := by
  refine .of_plain ?_
  unfold convertTo
  split
  · exact .nil (List.Subset.refl _)
  · exact .nil (List.Subset.refl _)
  · split <;> exact .of_eval rfl
  · have hpop : ∀ size : Nat, Needs (fun _ => []) []
        ([Instr.popReg .eax] ++ if size = 8 then Instr.drop 4 else []) [.reg .eax] := by
      intro size
      split <;> exact .of_eval rfl
    have hpush : Needs (fun _ => []) [.reg .eax] [Instr.pushReg .eax] [] := .of_eval rfl
    exact ((hpop _).append (narrow_needs _ _)).append hpush

end Integers

/-! ## Comparisons and branches -/

section Decisions

variable (ctx : EmitContext) (i : Instruction) (e : Effect)

def operandCells (wide : Bool) : List Cell :=
  if wide then [.reg .eax, .reg .edx, .reg .ebx, .reg .ecx] else [.reg .eax, .reg .ebx]

section Jumps

variable {live : Label → List Cell}

theorem popOperands_needs (wide : Bool) : Needs live [] (popOperands wide) (operandCells wide) := by
  cases wide <;> exact .of_eval rfl

theorem jumpIf_needs (c : Comparison) (target : Label) :
    Needs (fun _ => []) (operandCells false) (jumpIf c .eax .ebx target) [] := .of_eval rfl

theorem jumpIfWide_needs (c : Comparison) (taken notTaken : Label) :
    Needs (fun _ => []) (operandCells true) (jumpIfWide c taken notTaken) [] := by
  unfold jumpIfWide
  cases c.highWord? <;> exact .of_eval rfl

end Jumps

theorem compare_isolated (op : CompareOp) : Isolated (compare ctx i e op) ([] : List Cell) := by
  unfold compare
  generalize isWide (e.operand 0) = wide
  have hpush : Needs (fun _ => []) [] [Instr.label (ctx.inside i "False" 1), .pushImm 0,
      .jump (ctx.inside i "End" 2), .label (ctx.inside i "True" 0), .pushImm 1,
      .label (ctx.inside i "End" 2)] [] := .of_eval rfl
  refine .of_plain (((popOperands_needs wide).append ?_).append hpush)
  cases wide with
  | false => exact jumpIf_needs _ _
  | true => exact jumpIfWide_needs _ _ _

theorem branchTo_isolated (wide : Bool) (condition : BranchCondition) (target : Label) :
    Isolated (branchTo ctx i wide condition target) ([] : List Cell) := by
  unfold branchTo
  split
  · refine .of_plain ((popOperands_needs wide).append ?_)
    cases wide with
    | false => exact jumpIf_needs _ _
    | true => exact (jumpIfWide_needs _ _ _).append (.of_eval rfl)
  · split
    · exact .of_plain (.of_eval rfl)
    · cases wide <;> exact .of_plain (.of_eval rfl)

theorem switchCases_needs (targets : List Int) (case : Nat)
    (hfailure : (switchCases ctx i case targets).failure = none) :
    Needs (fun _ => []) [.reg .eax] (switchCases ctx i case targets).code ([] : List Cell) := by
  induction targets generalizing case with
  | nil => exact .nil (List.nil_subset _)
  | cons target rest ih =>
    unfold switchCases at hfailure ⊢
    cases hlabel : ctx.targetLabel i target with
    | error err =>
      rw [hlabel] at hfailure
      cases hfailure
    | ok label =>
      rw [hlabel] at hfailure
      have hcase : Needs (fun _ => []) [.reg .eax]
          [Instr.aluImm .cmp .eax (Int32.ofNat case), .jcc .e label] [.reg .eax] :=
        .of_eval rfl
      exact hcase.append (ih (case + 1) hfailure)

theorem switch_isolated (hfailure : (switch ctx i).failure = none) :
    Isolated (switch ctx i).code ([] : List Cell) := by
  unfold switch at hfailure ⊢
  cases htargets : i.switchTargets with
  | error err =>
    rw [htargets] at hfailure
    cases hfailure
  | ok targets =>
    rw [htargets] at hfailure
    have hpop : Needs (fun _ => []) [] [Instr.popReg .eax] [.reg .eax] := .of_eval rfl
    exact .of_plain (hpop.append (switchCases_needs ctx i targets 0 hfailure))

theorem leave_isolated {code : List Instr} (hcode : leave ctx i e = .ok code) :
    Isolated code ([] : List Cell) := by
  obtain ⟨t, -, hcode⟩ := answer_bind.mp hcode
  obtain ⟨target, -, hcode⟩ := answer_bind.mp hcode
  obtain rfl := Except.ok.inj hcode
  exact .of_plain ((drop_needs e.poppedBytes).append (.of_eval rfl))

/-- A return leaves its result in the registers that the method end reads. -/
theorem ret_isolated : Isolated (ret ctx e) (returnCells e.poppedBytes) := by
  unfold ret
  generalize e.poppedBytes = bytes
  refine .of_needs [] ?_
  split
  · exact .of_eval rfl
  · exact .of_eval rfl
  · exact .of_eval rfl
  · rename_i h0 h4 h8
    have hcells : returnCells bytes = [] := by
      unfold returnCells
      split
      · exact absurd rfl h4
      · exact absurd rfl h8
      · rfl
    rw [hcells]
    have hpops : Needs (liveInside [] []) [] ((List.range (bytes / 4)).map fun k =>
        Instr.popMem (returnSlot.offset (Int32.ofNat (4 * k)))) [] :=
      .map _ fun k => .of_eval rfl
    exact hpops.append (.of_eval rfl)

end Decisions

/-! ## Loads and stores -/

section Storage

variable {ctx : EmitContext} {i : Instruction} {e : Effect} {code : List Instr}

theorem loadSlot_isolated {isArg : Bool} (hcode : loadSlot ctx i isArg = .ok code) :
    Isolated code ([] : List Cell) := by
  obtain ⟨slot, -, hcode⟩ := answer_bind.mp hcode
  obtain rfl := Except.ok.inj hcode
  exact .of_plain (.map _ fun k => .of_eval rfl)

theorem storeSlot_isolated {isArg : Bool} (hcode : storeSlot ctx i isArg = .ok code) :
    Isolated code ([] : List Cell) := by
  obtain ⟨slot, -, hcode⟩ := answer_bind.mp hcode
  obtain rfl := Except.ok.inj hcode
  exact .of_plain (.map _ fun k => .of_eval rfl)

theorem slotAddress_isolated {isArg : Bool} (hcode : slotAddress ctx i isArg = .ok code) :
    Isolated code ([] : List Cell) := by
  obtain ⟨slot, -, hcode⟩ := answer_bind.mp hcode
  obtain rfl := Except.ok.inj hcode
  exact .of_plain (.of_eval rfl)

theorem loadConst_isolated (hcode : loadConst i = .ok code) : Isolated code ([] : List Cell) := by
  unfold loadConst at hcode
  split at hcode
  · obtain ⟨value, -, rfl⟩ := answer_map.mp hcode
    unfold pushLong
    generalize (value.toUInt64 >>> 32).toUInt32.toInt32 = high, value.toUInt64.toUInt32.toInt32 = low
    exact .of_plain (.of_eval rfl)
  · obtain ⟨value, -, rfl⟩ := answer_map.mp hcode
    exact .of_plain (.of_eval rfl)

theorem loadSymbol_isolated {symbol : Except CompileError Symbol}
    (hcode : loadSymbol symbol = .ok code) : Isolated code ([] : List Cell) := by
  obtain ⟨s, -, rfl⟩ := answer_map.mp hcode
  exact .of_plain (.of_eval rfl)

theorem sizeOf_isolated (hcode : sizeOf ctx i = .ok code) : Isolated code ([] : List Cell) := by
  obtain ⟨access, -, rfl⟩ := answer_map.mp hcode
  exact .of_plain (.of_eval rfl)

theorem dup_isolated : Isolated (dup e) ([] : List Cell) := by
  unfold dup
  have hword : Needs (fun _ => []) []
      [Instr.pushMem (.based .esp (Int32.ofNat e.result.size - 4))] ([] : List Cell) :=
    .of_eval rfl
  have hwords := Needs.replicate (e.result.size / 4) hword
  rw [List.flatten_replicate_singleton] at hwords
  exact .of_plain hwords

theorem pop_isolated : Isolated (pop e) ([] : List Cell) := by
  have hrelease : Needs (fun _ => []) []
      (if (e.operand 0).isNew then [Instr.callSymbol Intrinsic.release.symbol] else [])
      ([] : List Cell) := by
    split
    · exact .of_eval rfl
    · exact .nil (List.Subset.refl _)
  exact .of_plain (hrelease.append (drop_needs _))

/-- Code that has a checked pointer in `eax` and then moves a value through it. -/
theorem checked_isolated {before after : List Instr}
    (hbefore : Needs (liveInside [.reg .eax] []) [] before [.reg .eax])
    (hafter : Needs (liveInside [.reg .eax] []) [.reg .eax] after []) :
    Isolated (before ++ after) ([] : List Cell) := .of_needs _ (hbefore.append hafter)

theorem popCheck_needs :
    Needs (liveInside [.reg .eax] []) [] ([Instr.popReg .eax] ++ nullCheck ctx i .eax)
      [.reg .eax] := by
  have hpop : Needs (liveInside [.reg .eax] []) [] [Instr.popReg .eax] [.reg .eax] :=
    .of_eval rfl
  exact hpop.append (nullCheck_needs ctx i)

theorem based_isPlain (disp : Int32) : (Mem.based .eax disp).isPlain := .inr rfl

theorem global_isPlain (symbol : Symbol) : (Mem.global symbol).isPlain := .inl rfl

theorem loadField_isolated (hcode : loadField ctx i = .ok code) : Isolated code ([] : List Cell) := by
  obtain ⟨⟨field, access⟩, -, hcode⟩ := answer_bind.mp hcode
  obtain rfl := Except.ok.inj hcode
  exact checked_isolated popCheck_needs
    ((pushFromMemory_needs (based_isPlain _) _ _).forget (List.nil_subset _))

theorem loadFieldAddress_isolated (hcode : loadFieldAddress ctx i = .ok code) :
    Isolated code ([] : List Cell) := by
  obtain ⟨⟨field, access⟩, -, hcode⟩ := answer_bind.mp hcode
  obtain rfl := Except.ok.inj hcode
  exact checked_isolated popCheck_needs (.of_eval rfl)

/-- The pointer lies under a value that is stored through it. -/
theorem storeThrough_isolated {disp offset : Int32} {guard : List Instr} {storage bytes : Nat}
    (hguard : Needs (liveInside [.reg .eax] []) [.reg .eax] guard [.reg .eax]) :
    Isolated ([Instr.load .eax (.based .esp disp)] ++ guard ++
      popToMemory (.based .eax offset) storage ++ Instr.drop bytes) ([] : List Cell) := by
  have hload : Needs (liveInside [.reg .eax] []) [] [Instr.load .eax (.based .esp disp)]
      [.reg .eax] := .of_eval rfl
  have hstore : Needs (liveInside [.reg .eax] []) [.reg .eax] (popToMemory (.based .eax offset) storage)
      [] := (popToMemory_needs (based_isPlain offset) storage).forget (List.nil_subset _)
  exact .of_needs _ (((hload.append hguard).append hstore).append (drop_needs bytes))

theorem storeField_isolated (hcode : storeField ctx i e = .ok code) :
    Isolated code ([] : List Cell) := by
  obtain ⟨⟨field, access⟩, -, hcode⟩ := answer_bind.mp hcode
  obtain rfl := Except.ok.inj hcode
  exact storeThrough_isolated (nullCheck_needs ctx i)

theorem loadStatic_isolated (hcode : loadStatic ctx i = .ok code) :
    Isolated code ([] : List Cell) := by
  obtain ⟨⟨field, access⟩, -, hcode⟩ := answer_bind.mp hcode
  obtain rfl := Except.ok.inj hcode
  exact .of_plain (pushFromMemory_needs (global_isPlain _) _ _)

theorem loadStaticAddress_isolated (hcode : loadStaticAddress ctx i = .ok code) :
    Isolated code ([] : List Cell) := by
  obtain ⟨⟨field, access⟩, -, hcode⟩ := answer_bind.mp hcode
  obtain rfl := Except.ok.inj hcode
  exact .of_plain (.of_eval rfl)

theorem storeStatic_isolated (hcode : storeStatic ctx i = .ok code) :
    Isolated code ([] : List Cell) := by
  obtain ⟨⟨field, access⟩, -, hcode⟩ := answer_bind.mp hcode
  obtain rfl := Except.ok.inj hcode
  exact .of_plain (popToMemory_needs (global_isPlain _) _)

theorem popGuard_needs :
    Needs (liveInside [.reg .eax] []) [] ([Instr.popReg .eax] ++ guardIndirect ctx i .eax)
      [.reg .eax] := by
  have hpop : Needs (liveInside [.reg .eax] []) [] [Instr.popReg .eax] [.reg .eax] :=
    .of_eval rfl
  exact hpop.append (guardIndirect_needs ctx i)

theorem loadIndirect_isolated {kind : ValueKind} (hcode : loadIndirect ctx i kind = .ok code) :
    Isolated code ([] : List Cell) := by
  obtain ⟨access, -, hcode⟩ := answer_bind.mp hcode
  obtain rfl := Except.ok.inj hcode
  exact checked_isolated popGuard_needs
    ((pushFromMemory_needs (based_isPlain _) _ _).forget (List.nil_subset _))

theorem storeIndirect_isolated {kind : ValueKind} (hcode : storeIndirect ctx i e kind = .ok code) :
    Isolated code ([] : List Cell) := by
  obtain ⟨access, -, hcode⟩ := answer_bind.mp hcode
  obtain rfl := Except.ok.inj hcode
  exact storeThrough_isolated (guardIndirect_needs ctx i)

theorem initObject_isolated (hcode : initObject ctx i = .ok code) :
    Isolated code ([] : List Cell) := by
  obtain ⟨access, -, hcode⟩ := answer_bind.mp hcode
  obtain rfl := Except.ok.inj hcode
  exact checked_isolated popGuard_needs (zeroMemory_needs _ _)

theorem loadLength_isolated : Isolated (loadLength ctx i) ([] : List Cell) :=
  checked_isolated popCheck_needs (.of_eval rfl)

/-- An array and an index are in `eax` and `ebx`, and then the element in front of `eax`. -/
theorem element_isolated {before after : List Instr} {stride : Nat}
    (hbefore : Needs (liveInside [.reg .eax, .reg .ebx] []) [] before [.reg .eax, .reg .ebx])
    (hafter : Needs (liveInside [.reg .eax, .reg .ebx] []) [.reg .eax] after []) :
    Isolated (before ++ elementBase ctx i .eax .ebx stride ++ after) ([] : List Cell) :=
  .of_needs _ ((hbefore.append (elementBase_needs ctx i stride)).append hafter)

theorem loadElement_isolated {kind : ValueKind} (hcode : loadElement ctx i kind = .ok code) :
    Isolated code ([] : List Cell) := by
  obtain ⟨access, -, hcode⟩ := answer_bind.mp hcode
  obtain rfl := Except.ok.inj hcode
  exact element_isolated (.of_eval rfl)
    ((pushFromMemory_needs (based_isPlain _) _ _).forget (List.nil_subset _))

theorem loadElementAddress_isolated (hcode : loadElementAddress ctx i = .ok code) :
    Isolated code ([] : List Cell) := by
  obtain ⟨access, -, hcode⟩ := answer_bind.mp hcode
  obtain rfl := Except.ok.inj hcode
  exact element_isolated (.of_eval rfl) (.of_eval rfl)

theorem storeElement_isolated {kind : ValueKind} (hcode : storeElement ctx i e kind = .ok code) :
    Isolated code ([] : List Cell) := by
  obtain ⟨access, -, hcode⟩ := answer_bind.mp hcode
  obtain rfl := Except.ok.inj hcode
  have hstore : Needs (liveInside [.reg .eax, .reg .ebx] []) [.reg .eax]
      (popToMemory (element ctx) access.storage) [] :=
    (popToMemory_needs (based_isPlain _) _).forget (List.nil_subset _)
  rw [List.append_assoc]
  exact element_isolated (.of_eval rfl) (hstore.append (drop_needs 8))

end Storage

/-! ## Allocation and type tests -/

section Allocation

variable {ctx : EmitContext} {i : Instruction} {code : List Instr}

theorem newArray_isolated (hcode : newArray ctx i = .ok code) : Isolated code ([] : List Cell) := by
  obtain ⟨t, -, hcode⟩ := answer_bind.mp hcode
  obtain rfl := Except.ok.inj hcode
  exact .of_needs [.reg .eax] (.of_eval rfl)

/-- The chain of base types is in `ecx` while it is followed. -/
def typeTestLive (l : Label) : List Cell :=
  if l.extension = some "Scan0" then [.reg .eax, .reg .ecx] else liveInside [.reg .eax] [] l

theorem typeTest_isolated {isCast : Bool} (hcode : typeTest ctx i isCast = .ok code) :
    Isolated code ([] : List Cell) := by
  obtain ⟨t, -, hcode⟩ := answer_bind.mp hcode
  obtain rfl := Except.ok.inj hcode
  refine ⟨typeTestLive, fun _ _ => List.nil_subset _, ?_⟩
  have hfail : Needs typeTestLive [.reg .eax]
      (if isCast then throwHere .throwInvalidCast else [Instr.aluReg .xor .eax .eax]) [.reg .eax] := by
    cases isCast <;> exact .of_eval rfl
  refine .append (.append ?_ hfail) (.of_eval rfl)
  exact .split 5 [.reg .eax, .reg .ecx] (.of_eval rfl) (.of_eval rfl)

end Allocation

/-- The template of every instruction that calls no method needs no cell, and leaves those of its
result if it is a return. -/
theorem emit_isolated {ctx : EmitContext} {i : Instruction} {e : Effect}
    (hcalls : i.op.operation.entersMethods = false) (hfailure : (emit ctx i e).failure = none) :
    Isolated (emit ctx i e).code
      (if i.op.operation = .ret then returnCells e.poppedBytes else []) := by
  unfold emit at hfailure ⊢
  cases hop : i.op.operation with
  | call | callIndirect | callVirtual | newObject | methodStart | methodEnd =>
    rw [hop] at hcalls
    cases hcalls
  | ret => exact ret_isolated ctx e
  | nop | loadNull | throw => exact .of_plain (.of_eval rfl)
  | loadArg | loadLocal => exact .ofExcept (by rwa [hop] at hfailure) fun _ => loadSlot_isolated
  | loadArgAddress | loadLocalAddress =>
    exact .ofExcept (by rwa [hop] at hfailure) fun _ => slotAddress_isolated
  | storeArg | storeLocal => exact .ofExcept (by rwa [hop] at hfailure) fun _ => storeSlot_isolated
  | loadConst => exact .ofExcept (by rwa [hop] at hfailure) fun _ => loadConst_isolated
  | loadString | loadToken | loadFunction =>
    exact .ofExcept (by rwa [hop] at hfailure) fun _ => loadSymbol_isolated
  | sizeOf => exact .ofExcept (by rwa [hop] at hfailure) fun _ => sizeOf_isolated
  | dup => exact dup_isolated
  | pop => exact pop_isolated
  | binary op => exact binary_isolated i e (by rwa [hop] at hfailure)
  | unary op => exact unary_isolated e op
  | shift op => exact shift_isolated ctx i e op
  | compare op => exact compare_isolated ctx i e op
  | convert target =>
    refine .ofExcept (by rwa [hop] at hfailure) fun code hcode => ?_
    cases target with
    | none => cases hcode
    | some target =>
      obtain rfl := Except.ok.inj hcode
      exact convertTo_isolated _ _ target
  | branch condition =>
    refine .ofExcept (by rwa [hop] at hfailure) fun code hcode => ?_
    obtain ⟨t, -, hcode⟩ := answer_bind.mp hcode
    obtain ⟨target, -, hcode⟩ := answer_bind.mp hcode
    obtain rfl := Except.ok.inj hcode
    exact branchTo_isolated ctx i _ condition target
  | switch => exact switch_isolated ctx i (by rwa [hop] at hfailure)
  | leave => exact .ofExcept (by rwa [hop] at hfailure) fun _ => leave_isolated ctx i e
  | loadField => exact .ofExcept (by rwa [hop] at hfailure) fun _ => loadField_isolated
  | loadFieldAddress =>
    exact .ofExcept (by rwa [hop] at hfailure) fun _ => loadFieldAddress_isolated
  | storeField => exact .ofExcept (by rwa [hop] at hfailure) fun _ => storeField_isolated
  | loadStatic => exact .ofExcept (by rwa [hop] at hfailure) fun _ => loadStatic_isolated
  | loadStaticAddress =>
    exact .ofExcept (by rwa [hop] at hfailure) fun _ => loadStaticAddress_isolated
  | storeStatic => exact .ofExcept (by rwa [hop] at hfailure) fun _ => storeStatic_isolated
  | loadIndirect kind => exact .ofExcept (by rwa [hop] at hfailure) fun _ => loadIndirect_isolated
  | storeIndirect kind => exact .ofExcept (by rwa [hop] at hfailure) fun _ => storeIndirect_isolated
  | loadLength => exact loadLength_isolated
  | loadElement kind => exact .ofExcept (by rwa [hop] at hfailure) fun _ => loadElement_isolated
  | loadElementAddress =>
    exact .ofExcept (by rwa [hop] at hfailure) fun _ => loadElementAddress_isolated
  | storeElement kind => exact .ofExcept (by rwa [hop] at hfailure) fun _ => storeElement_isolated
  | newArray => exact .ofExcept (by rwa [hop] at hfailure) fun _ => newArray_isolated
  | isInstance | castClass => exact .ofExcept (by rwa [hop] at hfailure) fun _ => typeTest_isolated
  | initObject => exact .ofExcept (by rwa [hop] at hfailure) fun _ => initObject_isolated

end Stencil.X86
