import Stencil.Proofs.Mips.Cells

/-!
# MIPS32 templates need no register

Every cell that a template reads it has set before, on every path through it. Only a return leaves
registers for what follows: those that hold its result.
-/

namespace Stencil.Mips

open Stateful

/-- The cells that hold the result of a return when it goes to the method end. -/
def returnCells (bytes : Nat) : List Cell :=
  match bytes with
  | 4 => [.reg .v0]
  | 8 => [.reg .v0, .reg .v1]
  | _ => []

/-! ## Moving values -/

section Transfer

variable {live : Label → List Cell}

theorem drop_needs (bytes : Nat) : Needs live [] (Instr.drop bytes) [] := by
  unfold Instr.drop
  split
  · exact .nil (List.Subset.refl _)
  · exact .of_eval rfl

theorem pushImm_needs (imm : Int32) : Needs live [] (Instr.pushImm imm) [] := by
  unfold Instr.pushImm
  split <;> exact .of_eval rfl

theorem loadValue_needs (offset : Int32) (bytes : Nat) (signed : Bool) (align : Nat) :
    Needs live [.reg .t0] (loadValue .t0 offset bytes signed align) [.reg .t0, .reg .t6] := by
  unfold loadValue
  split
  · exact .of_eval rfl
  · have htop : Needs live [.reg .t0]
        [Instr.load .byte signed .t6 (offset + Int32.ofNat (bytes - 1)) .t0]
        [.reg .t0, .reg .t6] := .of_eval rfl
    exact htop.append (.flatMap _ fun k _ => .of_eval rfl)

theorem pushFromMemory_needs (offset : Int32) (storage : Nat) (signed : Bool) (align : Nat) :
    Needs live [.reg .t0] (pushFromMemory .t0 offset storage signed align) [] := by
  refine .forget (.flatMap _ fun k _ => ?_) (List.nil_subset [Cell.reg .t0])
  exact (loadValue_needs _ _ _ _).append (.of_eval rfl)

theorem popToMemory_needs (offset : Int32) (storage align : Nat) :
    Needs live [.reg .t0] (popToMemory .t0 offset storage align) [] := by
  refine .forget (.flatMap _ fun k _ => ?_) (List.nil_subset [Cell.reg .t0])
  have hpop : Needs live [.reg .t0] (Instr.pop .t6) [.reg .t0, .reg .t6] := .of_eval rfl
  refine hpop.append ?_
  unfold storeValue
  split
  · exact .of_eval rfl
  · have hlow : Needs live [.reg .t0, .reg .t6]
        [Instr.store .byte .t6 (offset + Int32.ofNat (4 * k)) .t0] [.reg .t0, .reg .t6] :=
      .of_eval rfl
    have hbytes : Needs live [.reg .t0, .reg .t6]
        ((List.range' 1 (wordBytes storage k - 1)).flatMap
          (storeByte .t0 (offset + Int32.ofNat (4 * k)))) [.reg .t0, .reg .t6] := by
      refine .flatMap _ fun j _ => ?_
      unfold storeByte
      generalize UInt8.ofNat (8 * j) = amount
      exact .of_eval rfl
    exact (hlow.append hbytes).forget (List.cons_subset_cons _ (List.nil_subset _))

theorem zeroFrom_needs (offset : Int32) (align done left : Nat) :
    Needs live [.reg .t0] (zeroFrom .t0 offset align done left) [] := by
  fun_induction zeroFrom .t0 offset align done left with
  | case1 done left _ width ih =>
    have hstore : Needs live [.reg .t0] [Instr.store width .zero (offset + Int32.ofNat done) .t0]
        [.reg .t0] := .of_eval rfl
    exact hstore.append ih
  | case2 => exact .nil (List.nil_subset _)

end Transfer

/-! ## Guards -/

section Guards

variable (ctx : EmitContext) (i : Instruction) {after : List Cell}

theorem throwHere_needs {live : Label → List Cell} (intrinsic : Intrinsic) :
    Needs live [.reg .t0, .reg .t2] (throwHere intrinsic) [.reg .t0, .reg .t2] := by
  cases intrinsic <;> exact .of_eval rfl

theorem nullCheck_needs :
    Needs (liveInside [.reg .t0] after) [.reg .t0] (nullCheck ctx i .t0) [.reg .t0] :=
  .of_eval rfl

theorem guardIndirect_needs :
    Needs (liveInside [.reg .t0] after) [.reg .t0] (guardIndirect ctx i .t0) [.reg .t0] :=
  .ite (nullCheck_needs ctx i) (.nil (List.Subset.refl _))

theorem boundsCheck_needs :
    Needs (liveInside [.reg .t0, .reg .t2] after) [.reg .t0, .reg .t2] (boundsCheck ctx i .t0 .t2)
      [.reg .t0, .reg .t2] := by
  refine .append (.append ?_ (throwHere_needs _)) ?_ <;> exact .of_eval rfl

theorem elementBase_needs (stride : Nat) :
    Needs (liveInside [.reg .t0, .reg .t2] after) [.reg .t0, .reg .t2]
      (elementBase ctx i .t0 .t2 stride) [.reg .t0] := by
  have hnull : Needs (liveInside [.reg .t0, .reg .t2] after) [.reg .t0, .reg .t2]
      (nullCheck ctx i .t0) [.reg .t0, .reg .t2] := .of_eval rfl
  refine (hnull.append (boundsCheck_needs ctx i)).append ?_
  unfold scaleIndex
  split
  · rename_i k _
    generalize UInt8.ofNat k = amount
    split <;> exact .of_eval rfl
  · exact .of_eval rfl

end Guards

/-! ## Integers -/

section Integers

variable (ctx : EmitContext) (i : Instruction) (e : Effect)

theorem binary_isolated {op : BinaryOp} {code : List Instr} (hcode : binary i e op = .ok code) :
    Isolated code ([] : List Cell) := by
  unfold binary at hcode
  generalize isWide (e.operand 0) = wide at hcode
  cases wide with
  | false =>
    obtain rfl := Except.ok.inj hcode
    cases op <;> exact .of_plain (.of_eval rfl)
  | true =>
    cases op with
    | div | divUn | rem | remUn => cases hcode
    | _ =>
      obtain rfl := Except.ok.inj hcode
      exact .of_plain (.of_eval rfl)

theorem unary_isolated (op : UnaryOp) : Isolated (unary e op) ([] : List Cell) := by
  unfold unary
  generalize isWide (e.operand 0) = wide
  cases wide <;> cases op <;> exact .of_plain (.of_eval rfl)

def countCells (wideCount : Bool) : List Cell :=
  if wideCount then [.reg .t2, .reg .t3] else [.reg .t2]

theorem popCount_needs {live : Label → List Cell} (wideCount : Bool) :
    Needs live [] (Instr.pop .t2 ++ if wideCount then Instr.pop .t3 else []) (countCells wideCount) := by
  cases wideCount <;> exact .of_eval rfl

theorem shiftWord_needs (op : Stencil.ShiftOp) (wideCount : Bool) :
    Needs (liveInside [.reg .t0] []) (.reg .t0 :: countCells wideCount)
      (shiftWord ctx i op wideCount) [.reg .t0] := by
  cases wideCount <;> cases op <;> exact .of_eval rfl

/-- The cells of a double word and of the low word of its count. -/
def wideCells : List Cell := [.reg .t0, .reg .t1, .reg .t2]

section Wide

variable {live : Label → List Cell} (op : Stencil.ShiftOp)

theorem shiftAcross_needs : Needs live (.reg .t4 :: wideCells) (shiftAcross op) wideCells := by
  cases op <;> exact .of_eval rfl

theorem shiftOver_needs : Needs live wideCells (shiftOver op) wideCells := by
  cases op <;> exact .of_eval rfl

theorem shiftOut_needs : Needs live wideCells (shiftOut op) wideCells := by
  cases op <;> exact .of_eval rfl

end Wide

/-- The count is compared with a bound, and control may go to a label that needs the double word. -/
theorem bound_needs (bound : Int32) (name : String) (n : Nat) :
    Needs (liveInside wideCells []) wideCells
      ([Instr.aluImm .sltiu .t8 .t2 bound] ++ Instr.beq .t8 .zero (ctx.inside i name n)) wideCells :=
  .of_eval rfl

theorem shiftWide_needs (op : Stencil.ShiftOp) (wideCount : Bool) :
    Needs (liveInside wideCells []) (.reg .t0 :: .reg .t1 :: countCells wideCount)
      (shiftWide ctx i op wideCount) [.reg .t0, .reg .t1] := by
  have hcount : Needs (liveInside wideCells []) (.reg .t0 :: .reg .t1 :: countCells wideCount)
      (if wideCount then Instr.bne .t3 .zero (ctx.inside i "Saturate" 0) else []) wideCells := by
    cases wideCount <;> exact .of_eval rfl
  have hnone : Needs (liveInside wideCells []) wideCells
      (Instr.beq .t2 .zero (ctx.inside i "Done" 2)) wideCells := .of_eval rfl
  have hrest : Needs (liveInside wideCells []) wideCells
      [Instr.addiu .t4 .zero 32, .alu .subu .t4 .t4 .t2] (.reg .t4 :: wideCells) := .of_eval rfl
  have hbig : Needs (liveInside wideCells []) wideCells (Instr.jump (ctx.inside i "Done" 2) ++
      [Instr.label (ctx.inside i "Big" 1), .addiu .t2 .t2 (-32)]) wideCells := .of_eval rfl
  have hsaturate : Needs (liveInside wideCells []) wideCells (Instr.jump (ctx.inside i "Done" 2) ++
      [Instr.label (ctx.inside i "Saturate" 0)]) wideCells := .of_eval rfl
  have hdone : Needs (liveInside wideCells []) wideCells [Instr.label (ctx.inside i "Done" 2)]
      [.reg .t0, .reg .t1] := .of_eval rfl
  have hbounds := ((hcount.append (bound_needs ctx i 64 "Saturate" 0)).append hnone).append
    (bound_needs ctx i 32 "Big" 1)
  have hall := ((((((hbounds.append hrest).append (shiftAcross_needs op)).append hbig).append
    (shiftOver_needs op)).append hsaturate).append (shiftOut_needs op)).append hdone
  unfold shiftWide
  simp only [← List.append_assoc] at hall ⊢
  exact hall

theorem shift_isolated (op : Stencil.ShiftOp) : Isolated (shift ctx i e op) ([] : List Cell) := by
  unfold shift
  generalize isWide (e.operand 0) = wideCount, isWide (e.operand 1) = wide
  cases wide with
  | false =>
    have hvalue : Needs (liveInside [.reg .t0] []) (countCells wideCount) (Instr.pop .t0)
        (.reg .t0 :: countCells wideCount) := by
      cases wideCount <;> exact .of_eval rfl
    exact .of_needs [.reg .t0] ((((popCount_needs wideCount).append hvalue).append
      (shiftWord_needs ctx i op wideCount)).append (.of_eval rfl))
  | true =>
    have hlow : Needs (liveInside wideCells []) (countCells wideCount) (Instr.pop .t0)
        (.reg .t0 :: countCells wideCount) := by
      cases wideCount <;> exact .of_eval rfl
    have hhigh : Needs (liveInside wideCells []) (.reg .t0 :: countCells wideCount) (Instr.pop .t1)
        (.reg .t0 :: .reg .t1 :: countCells wideCount) := by
      cases wideCount <;> exact .of_eval rfl
    exact .of_needs wideCells ((((popCount_needs wideCount).append hlow).append
      (hhigh.append (shiftWide_needs ctx i op wideCount))).append (.of_eval rfl))

theorem narrow_needs (signed : Bool) (size : Nat) :
    Needs (fun _ => []) [.reg .t0] (narrow signed size) [.reg .t0] := by
  unfold narrow
  split
  · split
    · dsimp only
      generalize UInt8.ofNat (32 - 8 * size) = rest
      exact .of_eval rfl
    · generalize Int32.ofNat (Word.modulus (8 * size) - 1) = mask
      exact .of_eval rfl
  · exact .nil (List.Subset.refl _)

theorem convertTo_isolated (pointerSize size : Nat) (target : ConvTarget) :
    Isolated (convertTo pointerSize size target) ([] : List Cell) := by
  refine .of_plain ?_
  unfold convertTo
  split
  · exact .nil (List.Subset.refl _)
  · exact .nil (List.Subset.refl _)
  · split <;> exact .of_eval rfl
  · have hpop : ∀ size : Nat, Needs (fun _ => []) []
        (Instr.pop .t0 ++ if size = 8 then Instr.drop 4 else []) [.reg .t0] := by
      intro size
      split <;> exact .of_eval rfl
    have hpush : Needs (fun _ => []) [.reg .t0] (Instr.push .t0) [] := .of_eval rfl
    exact ((hpop _).append (narrow_needs _ _)).append hpush

end Integers

/-! ## Comparisons and branches -/

section Decisions

variable (ctx : EmitContext) (i : Instruction) (e : Effect)

def operandCells (wide : Bool) : List Cell :=
  if wide then [.reg .t0, .reg .t1, .reg .t2, .reg .t3] else [.reg .t0, .reg .t2]

section Jumps

variable {live : Label → List Cell}

theorem popOperands_needs (wide : Bool) : Needs live [] (popOperands wide) (operandCells wide) := by
  cases wide <;> exact .of_eval rfl

theorem jumpIf_needs (c : Comparison) (target : Label) :
    Needs (fun _ => []) (operandCells false) (jumpIf c .t0 .t2 target) [] := by
  unfold jumpIf
  cases c.relation <;> exact .of_eval rfl

theorem jumpIfWide_needs (c : Comparison) (taken notTaken : Label) :
    Needs (fun _ => []) (operandCells true) (jumpIfWide c taken notTaken) [] := by
  have hlow : Needs (fun _ => []) (operandCells true) (jumpIf c.lowWord .t0 .t2 taken) [] :=
    (jumpIf_needs _ _).weaken (by decide)
  have hequal : Needs (fun _ => []) (operandCells true) (Instr.bne .t1 .t3 notTaken)
      (operandCells true) := .of_eval rfl
  refine .append (.append ?_ hequal) hlow
  cases c.highWord? with
  | none => exact .of_eval rfl
  | some high =>
    change Needs _ _ (jumpIf high .t1 .t3 taken) _
    unfold jumpIf
    split <;> exact .of_eval rfl

end Jumps

theorem compare_isolated (op : CompareOp) : Isolated (compare ctx i e op) ([] : List Cell) := by
  unfold compare
  generalize isWide (e.operand 0) = wide
  have hpush : Needs (fun _ => []) [] ([Instr.label (ctx.inside i "False" 1)] ++ Instr.push .zero ++
      Instr.jump (ctx.inside i "End" 2) ++ [Instr.label (ctx.inside i "True" 0), .addiu .t8 .zero 1] ++
      Instr.push .t8 ++ [Instr.label (ctx.inside i "End" 2)]) [] := .of_eval rfl
  have hjump : Needs (fun _ => []) (operandCells wide)
      (if wide then jumpIfWide (.ofCompare op) (ctx.inside i "True" 0) (ctx.inside i "False" 1)
        else jumpIf (.ofCompare op) .t0 .t2 (ctx.inside i "True" 0)) [] := by
    cases wide with
    | false => exact jumpIf_needs _ _
    | true => exact jumpIfWide_needs _ _ _
  have hall := ((popOperands_needs wide).append hjump).append hpush
  simp only [← List.append_assoc] at hall
  exact .of_plain hall

theorem branchTo_isolated (wide : Bool) (condition : BranchCondition) (target : Label) :
    Isolated (branchTo ctx i wide condition target) ([] : List Cell) := by
  unfold branchTo
  split
  · refine .of_plain ((popOperands_needs wide).append ?_)
    cases wide with
    | false => exact jumpIf_needs _ _
    | true => exact (jumpIfWide_needs _ _ _).append (.of_eval rfl)
  · split
    · exact .of_plain (.of_eval rfl)
    · cases wide <;> cases condition <;> exact .of_plain (.of_eval rfl)

theorem switchCases_needs (targets : List Int) (case : Nat)
    (hfailure : (switchCases ctx i case targets).failure = none) :
    Needs (fun _ => []) [.reg .t0] (switchCases ctx i case targets).code ([] : List Cell) := by
  induction targets generalizing case with
  | nil => exact .nil (List.nil_subset _)
  | cons target rest ih =>
    unfold switchCases at hfailure ⊢
    cases hlabel : ctx.targetLabel i target with
    | error err =>
      rw [hlabel] at hfailure
      cases hfailure
    | ok label =>
      rw [hlabel] at hfailure
      have hcase : Needs (fun _ => []) [.reg .t0]
          (.li .t5 (Int32.ofNat case) :: Instr.beq .t0 .t5 label) [.reg .t0] :=
        .of_eval rfl
      exact hcase.append (ih (case + 1) hfailure)

theorem switch_isolated (hfailure : (switch ctx i).failure = none) :
    Isolated (switch ctx i).code ([] : List Cell) := by
  unfold switch at hfailure ⊢
  cases htargets : i.switchTargets with
  | error err =>
    rw [htargets] at hfailure
    cases hfailure
  | ok targets =>
    rw [htargets] at hfailure
    have hpop : Needs (fun _ => []) [] (Instr.pop .t0) [.reg .t0] := .of_eval rfl
    exact .of_plain (hpop.append (switchCases_needs ctx i targets 0 hfailure))

theorem leave_isolated {code : List Instr} (hcode : leave ctx i e = .ok code) :
    Isolated code ([] : List Cell) := by
  obtain ⟨t, -, hcode⟩ := answer_bind.mp hcode
  obtain ⟨target, -, hcode⟩ := answer_bind.mp hcode
  obtain rfl := Except.ok.inj hcode
  exact .of_plain ((drop_needs e.poppedBytes).append (.of_eval rfl))

/-- A return leaves its result in the registers that the method end reads. -/
theorem ret_isolated {code : List Instr} (hcode : ret ctx i e = .ok code) :
    Isolated code (returnCells e.poppedBytes) := by
  obtain ⟨value, hvalue, hcode⟩ := answer_bind.mp hcode
  obtain rfl := Except.ok.inj hcode
  generalize e.poppedBytes = bytes at hvalue
  refine .of_needs [] ?_
  unfold returnValue at hvalue
  split at hvalue
  · obtain rfl := Except.ok.inj hvalue
    exact .of_eval rfl
  · obtain rfl := Except.ok.inj hvalue
    exact .of_eval rfl
  · obtain rfl := Except.ok.inj hvalue
    exact .of_eval rfl
  · rename_i h0 h4 h8
    obtain ⟨_, -, hvalue⟩ := answer_bind.mp hvalue
    obtain rfl := Except.ok.inj hvalue
    have hcells : returnCells bytes = [] := by
      unfold returnCells
      split
      · exact absurd rfl h4
      · exact absurd rfl h8
      · rfl
    rw [hcells]
    have hpops : Needs (liveInside [] []) [] ((List.range (bytes / 4)).flatMap returnWord) [] :=
      .flatMap _ fun k _ => .of_eval rfl
    exact hpops.append (.of_eval rfl)

end Decisions

/-! ## Loads and stores -/

section Storage

variable {ctx : EmitContext} {i : Instruction} {e : Effect} {code : List Instr}

theorem loadSlot_isolated {isArg : Bool} (hcode : loadSlot ctx i isArg = .ok code) :
    Isolated code ([] : List Cell) := by
  obtain ⟨⟨words, base⟩, -, hcode⟩ := answer_bind.mp hcode
  obtain rfl := Except.ok.inj hcode
  exact .of_plain (.flatMap _ fun k _ => .of_eval rfl)

theorem storeSlot_isolated {isArg : Bool} (hcode : storeSlot ctx i isArg = .ok code) :
    Isolated code ([] : List Cell) := by
  obtain ⟨⟨words, base⟩, -, hcode⟩ := answer_bind.mp hcode
  obtain rfl := Except.ok.inj hcode
  exact .of_plain (.flatMap _ fun k _ => .of_eval rfl)

theorem slotAddress_isolated {isArg : Bool} (hcode : slotAddress ctx i isArg = .ok code) :
    Isolated code ([] : List Cell) := by
  obtain ⟨⟨words, base⟩, -, hcode⟩ := answer_bind.mp hcode
  obtain rfl := Except.ok.inj hcode
  exact .of_plain (.of_eval rfl)

theorem loadConst_isolated (hcode : loadConst i = .ok code) : Isolated code ([] : List Cell) := by
  unfold loadConst at hcode
  split at hcode
  · obtain ⟨value, -, rfl⟩ := answer_map.mp hcode
    exact .of_plain ((pushImm_needs _).append (pushImm_needs _))
  · obtain ⟨value, -, rfl⟩ := answer_map.mp hcode
    exact .of_plain (pushImm_needs value)

theorem loadSymbol_isolated {symbol : Except CompileError Symbol}
    (hcode : loadSymbol symbol = .ok code) : Isolated code ([] : List Cell) := by
  obtain ⟨s, -, rfl⟩ := answer_map.mp hcode
  exact .of_plain (.of_eval rfl)

theorem sizeOf_isolated (hcode : sizeOf ctx i = .ok code) : Isolated code ([] : List Cell) := by
  obtain ⟨access, -, rfl⟩ := answer_map.mp hcode
  exact .of_plain (pushImm_needs _)

theorem dup_isolated (hcode : dup i e = .ok code) : Isolated code ([] : List Cell) := by
  obtain ⟨offset, -, hcode⟩ := answer_bind.mp hcode
  obtain rfl := Except.ok.inj hcode
  exact .of_plain (.replicate _ (.of_eval rfl))

theorem pop_isolated : Isolated (pop e) ([] : List Cell) := by
  have hrelease : Needs (fun _ => []) []
      (if (e.operand 0).isNew then Instr.callSymbol Intrinsic.release.symbol else [])
      ([] : List Cell) := by
    split
    · exact .of_eval rfl
    · exact .nil (List.Subset.refl _)
  exact .of_plain (hrelease.append (drop_needs _))

/-- Code that has a checked pointer in `$t0` and then moves a value through it. -/
theorem checked_isolated {before after : List Instr}
    (hbefore : Needs (liveInside [.reg .t0] []) [] before [.reg .t0])
    (hafter : Needs (liveInside [.reg .t0] []) [.reg .t0] after []) :
    Isolated (before ++ after) ([] : List Cell) := .of_needs _ (hbefore.append hafter)

theorem popCheck_needs :
    Needs (liveInside [.reg .t0] []) [] (Instr.pop .t0 ++ nullCheck ctx i .t0) [.reg .t0] := by
  have hpop : Needs (liveInside [.reg .t0] []) [] (Instr.pop .t0) [.reg .t0] := .of_eval rfl
  exact hpop.append (nullCheck_needs ctx i)

theorem popGuard_needs :
    Needs (liveInside [.reg .t0] []) [] (Instr.pop .t0 ++ guardIndirect ctx i .t0)
      [.reg .t0] := by
  have hpop : Needs (liveInside [.reg .t0] []) [] (Instr.pop .t0) [.reg .t0] := .of_eval rfl
  exact hpop.append (guardIndirect_needs ctx i)

theorem loadField_isolated (hcode : loadField ctx i = .ok code) : Isolated code ([] : List Cell) := by
  obtain ⟨⟨field, access, offset⟩, -, hcode⟩ := answer_bind.mp hcode
  obtain rfl := Except.ok.inj hcode
  exact checked_isolated popCheck_needs (pushFromMemory_needs _ _ _ _)

theorem loadFieldAddress_isolated (hcode : loadFieldAddress ctx i = .ok code) :
    Isolated code ([] : List Cell) := by
  obtain ⟨⟨field, access, offset⟩, -, hcode⟩ := answer_bind.mp hcode
  obtain rfl := Except.ok.inj hcode
  rw [List.append_assoc]
  exact checked_isolated popCheck_needs (.of_eval rfl)

/-- The pointer lies under a value that is stored through it. -/
theorem storeThrough_isolated {disp offset : Int32} {guard : List Instr} {storage align bytes : Nat}
    (hguard : Needs (liveInside [.reg .t0] []) [.reg .t0] guard [.reg .t0]) :
    Isolated ([Instr.lw .t0 disp .sp] ++ guard ++ popToMemory .t0 offset storage align ++
      Instr.drop bytes) ([] : List Cell) := by
  have hload : Needs (liveInside [.reg .t0] []) [] [Instr.lw .t0 disp .sp] [.reg .t0] :=
    .of_eval rfl
  exact .of_needs _ (((hload.append hguard).append (popToMemory_needs _ _ _)).append (drop_needs bytes))

theorem storeField_isolated (hcode : storeField ctx i e = .ok code) :
    Isolated code ([] : List Cell) := by
  obtain ⟨⟨field, access, offset⟩, -, hcode⟩ := answer_bind.mp hcode
  obtain ⟨value, -, hcode⟩ := answer_bind.mp hcode
  obtain rfl := Except.ok.inj hcode
  exact storeThrough_isolated (nullCheck_needs ctx i)

/-- Code that moves a value through the address of a symbol. -/
theorem global_isolated {symbol : Symbol} {move : List Instr}
    (hmove : Needs (fun _ => []) [.reg .t0] move []) :
    Isolated (.la .t0 symbol :: move) ([] : List Cell) := by
  have hload : Needs (fun _ => []) [] [Instr.la .t0 symbol] [.reg .t0] := .of_eval rfl
  exact .of_plain (hload.append hmove)

theorem loadStatic_isolated (hcode : loadStatic ctx i = .ok code) :
    Isolated code ([] : List Cell) := by
  obtain ⟨⟨field, access, offset⟩, -, hcode⟩ := answer_bind.mp hcode
  obtain rfl := Except.ok.inj hcode
  exact global_isolated (pushFromMemory_needs _ _ _ _)

theorem loadStaticAddress_isolated (hcode : loadStaticAddress ctx i = .ok code) :
    Isolated code ([] : List Cell) := by
  obtain ⟨⟨field, access, offset⟩, -, hcode⟩ := answer_bind.mp hcode
  obtain rfl := Except.ok.inj hcode
  exact .of_plain (.of_eval rfl)

theorem storeStatic_isolated (hcode : storeStatic ctx i = .ok code) :
    Isolated code ([] : List Cell) := by
  obtain ⟨⟨field, access, offset⟩, -, hcode⟩ := answer_bind.mp hcode
  obtain rfl := Except.ok.inj hcode
  exact global_isolated (popToMemory_needs _ _ _)

theorem loadIndirect_isolated {kind : ValueKind} (hcode : loadIndirect ctx i kind = .ok code) :
    Isolated code ([] : List Cell) := by
  obtain ⟨access, -, hcode⟩ := answer_bind.mp hcode
  obtain rfl := Except.ok.inj hcode
  exact checked_isolated popGuard_needs (pushFromMemory_needs _ _ _ _)

theorem storeIndirect_isolated {kind : ValueKind} (hcode : storeIndirect ctx i e kind = .ok code) :
    Isolated code ([] : List Cell) := by
  obtain ⟨access, -, hcode⟩ := answer_bind.mp hcode
  obtain ⟨value, -, hcode⟩ := answer_bind.mp hcode
  obtain rfl := Except.ok.inj hcode
  exact storeThrough_isolated (guardIndirect_needs ctx i)

theorem initObject_isolated (hcode : initObject ctx i = .ok code) :
    Isolated code ([] : List Cell) := by
  obtain ⟨access, -, hcode⟩ := answer_bind.mp hcode
  obtain rfl := Except.ok.inj hcode
  exact checked_isolated popGuard_needs (zeroFrom_needs _ _ _ _)

theorem loadLength_isolated : Isolated (loadLength ctx i) ([] : List Cell) := by
  unfold loadLength
  rw [List.append_assoc]
  exact checked_isolated popCheck_needs (.of_eval rfl)

/-- An array and an index are in `$t0` and `$t2`, and then the element in front of `$t0`. -/
theorem element_isolated {before after : List Instr} {stride : Nat}
    (hbefore : Needs (liveInside [.reg .t0, .reg .t2] []) [] before [.reg .t0, .reg .t2])
    (hafter : Needs (liveInside [.reg .t0, .reg .t2] []) [.reg .t0] after []) :
    Isolated (before ++ elementBase ctx i .t0 .t2 stride ++ after) ([] : List Cell) :=
  .of_needs _ ((hbefore.append (elementBase_needs ctx i stride)).append hafter)

theorem loadElement_isolated {kind : ValueKind} (hcode : loadElement ctx i kind = .ok code) :
    Isolated code ([] : List Cell) := by
  obtain ⟨access, -, hcode⟩ := answer_bind.mp hcode
  obtain ⟨header, -, hcode⟩ := answer_bind.mp hcode
  obtain rfl := Except.ok.inj hcode
  exact element_isolated (.of_eval rfl) (pushFromMemory_needs _ _ _ _)

theorem loadElementAddress_isolated (hcode : loadElementAddress ctx i = .ok code) :
    Isolated code ([] : List Cell) := by
  obtain ⟨access, -, hcode⟩ := answer_bind.mp hcode
  obtain ⟨header, -, hcode⟩ := answer_bind.mp hcode
  obtain rfl := Except.ok.inj hcode
  rw [List.append_assoc]
  exact element_isolated (.of_eval rfl) (.of_eval rfl)

theorem storeElement_isolated {kind : ValueKind} (hcode : storeElement ctx i e kind = .ok code) :
    Isolated code ([] : List Cell) := by
  obtain ⟨access, -, hcode⟩ := answer_bind.mp hcode
  obtain ⟨header, -, hcode⟩ := answer_bind.mp hcode
  obtain ⟨value, -, hcode⟩ := answer_bind.mp hcode
  obtain rfl := Except.ok.inj hcode
  rw [List.append_assoc]
  exact element_isolated (.of_eval rfl) ((popToMemory_needs _ _ _).append (drop_needs 8))

end Storage

/-! ## Allocation and type tests -/

section Allocation

variable {ctx : EmitContext} {i : Instruction} {code : List Instr}

theorem allocate_needs (allocator : Intrinsic) (descriptor : Symbol) :
    Needs (liveInside [.reg .t0] []) [] (allocate ctx i allocator descriptor) [.reg .t0] := by
  have hcheck : Needs (liveInside [.reg .t0] []) [.reg .t0] (checkAllocation ctx i) [.reg .t0] :=
    .of_eval rfl
  refine .append ?_ hcheck
  cases allocator <;> exact .of_eval rfl

theorem newArray_isolated (hcode : newArray ctx i = .ok code) : Isolated code ([] : List Cell) := by
  obtain ⟨t, -, hcode⟩ := answer_bind.mp hcode
  obtain rfl := Except.ok.inj hcode
  have hpush : Needs (liveInside [.reg .t0] []) [.reg .t0] (Instr.push .t0) [] := .of_eval rfl
  exact .of_needs [.reg .t0] ((allocate_needs _ _).append hpush)

/-- The chain of base types is in `$t4` while it is followed, and the type looked for in `$t5`. -/
def typeTestLive (l : Label) : List Cell :=
  if l.extension = some "Scan0" then [.reg .t0, .reg .t4, .reg .t5] else liveInside [.reg .t0] [] l

theorem typeTest_isolated {isCast : Bool} (hcode : typeTest ctx i isCast = .ok code) :
    Isolated code ([] : List Cell) := by
  obtain ⟨t, -, hcode⟩ := answer_bind.mp hcode
  obtain rfl := Except.ok.inj hcode
  refine ⟨typeTestLive, fun _ _ => List.nil_subset _, ?_⟩
  have hfail : Needs typeTestLive [.reg .t0]
      (if isCast then throwHere .throwInvalidCast else [Instr.move .t0 .zero]) [.reg .t0] := by
    cases isCast <;> exact .of_eval rfl
  have hdone : Needs typeTestLive [.reg .t0] [Instr.label (ctx.inside i "Done" 2)] [.reg .t0] :=
    .of_eval rfl
  refine .append (.append (.append ?_ hfail) hdone) (.of_eval rfl)
  exact .split 7 [.reg .t0, .reg .t4, .reg .t5] (.of_eval rfl) (.of_eval rfl)

end Allocation

/-- The template of every instruction that calls no method needs no cell, and leaves those of its
result if it is a return. -/
theorem emit_isolated {ctx : EmitContext} {i : Instruction} {e : Effect}
    (hcalls : i.op.operation.entersMethods = false) (hfailure : (emit ctx i e).failure = none) :
    Isolated (emit ctx i e).code
      (if i.op.operation = .ret then returnCells e.poppedBytes else []) := by
  unfold emit at hfailure ⊢
  cases hop : i.op.operation with
  | call | callIndirect | callVirtual | newObject | methodStart | methodEnd =>
    rw [hop] at hcalls
    cases hcalls
  | ret => exact .ofExcept (by rwa [hop] at hfailure) fun _ => ret_isolated ctx i e
  | nop | loadNull | throw => exact .of_plain (.of_eval rfl)
  | loadArg | loadLocal => exact .ofExcept (by rwa [hop] at hfailure) fun _ => loadSlot_isolated
  | loadArgAddress | loadLocalAddress =>
    exact .ofExcept (by rwa [hop] at hfailure) fun _ => slotAddress_isolated
  | storeArg | storeLocal => exact .ofExcept (by rwa [hop] at hfailure) fun _ => storeSlot_isolated
  | loadConst => exact .ofExcept (by rwa [hop] at hfailure) fun _ => loadConst_isolated
  | loadString | loadToken | loadFunction =>
    exact .ofExcept (by rwa [hop] at hfailure) fun _ => loadSymbol_isolated
  | sizeOf => exact .ofExcept (by rwa [hop] at hfailure) fun _ => sizeOf_isolated
  | dup => exact .ofExcept (by rwa [hop] at hfailure) fun _ => dup_isolated
  | pop => exact pop_isolated
  | binary op => exact .ofExcept (by rwa [hop] at hfailure) fun _ => binary_isolated i e
  | unary op => exact unary_isolated e op
  | shift op => exact shift_isolated ctx i e op
  | compare op => exact compare_isolated ctx i e op
  | convert target =>
    refine .ofExcept (by rwa [hop] at hfailure) fun code hcode => ?_
    cases target with
    | none => cases hcode
    | some target =>
      obtain rfl := Except.ok.inj hcode
      exact convertTo_isolated _ _ target
  | branch condition =>
    refine .ofExcept (by rwa [hop] at hfailure) fun code hcode => ?_
    obtain ⟨t, -, hcode⟩ := answer_bind.mp hcode
    obtain ⟨target, -, hcode⟩ := answer_bind.mp hcode
    obtain rfl := Except.ok.inj hcode
    exact branchTo_isolated ctx i _ condition target
  | switch => exact switch_isolated ctx i (by rwa [hop] at hfailure)
  | leave => exact .ofExcept (by rwa [hop] at hfailure) fun _ => leave_isolated ctx i e
  | loadField => exact .ofExcept (by rwa [hop] at hfailure) fun _ => loadField_isolated
  | loadFieldAddress =>
    exact .ofExcept (by rwa [hop] at hfailure) fun _ => loadFieldAddress_isolated
  | storeField => exact .ofExcept (by rwa [hop] at hfailure) fun _ => storeField_isolated
  | loadStatic => exact .ofExcept (by rwa [hop] at hfailure) fun _ => loadStatic_isolated
  | loadStaticAddress =>
    exact .ofExcept (by rwa [hop] at hfailure) fun _ => loadStaticAddress_isolated
  | storeStatic => exact .ofExcept (by rwa [hop] at hfailure) fun _ => storeStatic_isolated
  | loadIndirect kind => exact .ofExcept (by rwa [hop] at hfailure) fun _ => loadIndirect_isolated
  | storeIndirect kind => exact .ofExcept (by rwa [hop] at hfailure) fun _ => storeIndirect_isolated
  | loadLength => exact loadLength_isolated
  | loadElement kind => exact .ofExcept (by rwa [hop] at hfailure) fun _ => loadElement_isolated
  | loadElementAddress =>
    exact .ofExcept (by rwa [hop] at hfailure) fun _ => loadElementAddress_isolated
  | storeElement kind => exact .ofExcept (by rwa [hop] at hfailure) fun _ => storeElement_isolated
  | newArray => exact .ofExcept (by rwa [hop] at hfailure) fun _ => newArray_isolated
  | isInstance | castClass => exact .ofExcept (by rwa [hop] at hfailure) fun _ => typeTest_isolated
  | initObject => exact .ofExcept (by rwa [hop] at hfailure) fun _ => initObject_isolated

end Stencil.Mips
