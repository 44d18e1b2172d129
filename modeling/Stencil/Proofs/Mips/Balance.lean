import Stencil.Proofs.Height.Place
import Stencil.Proofs.Mips.Height
import Stencil.Proofs.Simulation.Effects

/-!
# Checks, integers and branches are balanced on MIPS32

Template by template: what it adds to the stack pointer is what the simulation popped less what it
pushed.
-/

namespace Stencil.Mips

open Stateful

/-! ## Common forms -/

section Forms

variable {heights : Label → UInt32} {h : UInt32} {l : Label}

theorem push_shifts (r : Reg) : Shifts (Instr.push r) (-4) := shifts_of_movesAll rfl

theorem pop_shifts {r : Reg} (hr : r.sparesStack = true) : Shifts (Instr.pop r) 4 := by
  refine shifts_of_movesAll ?_
  simp only [Instr.pop, Instr.lw, movesAll, StackUse.moves?, Instr.moves?, hr, if_true]
  rfl

theorem pushImm_shifts (imm : Int32) : Shifts (Instr.pushImm imm) (-4) := by
  unfold Instr.pushImm
  split <;> exact shifts_of_movesAll rfl

theorem pushAddr_shifts (symbol : Symbol) : Shifts (Instr.pushAddr symbol) (-4) :=
  shifts_of_movesAll rfl

theorem drop_shifts (bytes : Nat) : Shifts (Instr.drop bytes) (UInt32.ofNat bytes) := by
  unfold Instr.drop
  split
  · rename_i hzero
    rw [hzero]
    exact shifts_nil
  · refine shifts_of_movesAll ?_
    show some ((Int32.ofNat bytes).toUInt32 + 0) = _
    rw [UInt32.add_zero]
    rfl

theorem reserve_shifts (bytes : Nat) : Shifts (Instr.reserve bytes) (-UInt32.ofNat bytes) := by
  unfold Instr.reserve
  split
  · rename_i hzero
    rw [hzero]
    exact shifts_nil
  · refine shifts_of_movesAll ?_
    show some ((-Int32.ofNat bytes).toUInt32 + 0) = _
    rw [UInt32.add_zero]
    rfl

theorem callSymbol_shifts (s : Symbol) : Shifts (Instr.callSymbol s) 0 :=
  shifts_call ⟨.jal s, rfl, rfl⟩

theorem callReg_shifts (r : Reg) : Shifts (Instr.callReg r) 0 := shifts_call ⟨.jalr r, rfl, rfl⟩

theorem beq_track (lhs rhs : Reg) (hheight : heights l = h) :
    Track heights (some h) (Instr.beq lhs rhs l) (some h) :=
  .branch_one ⟨.branch true lhs rhs l, rfl, rfl⟩ hheight

theorem bne_track (lhs rhs : Reg) (hheight : heights l = h) :
    Track heights (some h) (Instr.bne lhs rhs l) (some h) :=
  .branch_one ⟨.branch false lhs rhs l, rfl, rfl⟩ hheight

theorem bltz_track (src : Reg) (hheight : heights l = h) :
    Track heights (some h) (Instr.bltz src l) (some h) :=
  .branch_one ⟨.branchZero .ltz src l, rfl, rfl⟩ hheight

theorem jump_track (hheight : heights l = h) : Track heights (some h) (Instr.jump l) none :=
  .jump_one rfl hheight

theorem stop_track {intrinsic : Intrinsic} (hnever : intrinsic.neverReturns = true) :
    Track heights (some h) (Instr.callSymbol intrinsic.symbol) none :=
  .stop_one ⟨intrinsic, hnever, rfl⟩

theorem land_track (hheight : heights l = h) : Track heights none [Instr.label l] (some h) := by
  subst hheight
  exact .land rfl .nil

theorem label_track (hheight : heights l = h) : Track heights (some h) [Instr.label l] (some h) :=
  .label rfl hheight .nil

end Forms

/-! ## Checks -/

section Checks

variable {ctx : EmitContext} {i : Instruction} {c d : UInt32}

theorem throwHere_track {heights : Label → UInt32} {h : UInt32} {intrinsic : Intrinsic}
    (hnever : intrinsic.neverReturns = true) :
    Track heights (some h) (throwHere intrinsic) none :=
  ((callSymbol_shifts _).keep.append ((push_shifts .v0).track rfl)).append (stop_track hnever)

theorem nullCheck_track (reg : Reg) :
    Track (levels c d) (some c) (nullCheck ctx i reg) (some c) := by
  have hnotNull := levels_inside c d ctx i "NotNull" 0
  have hthrow : Track (levels c d) (some c) (throwHere .throwNullReference) none :=
    throwHere_track rfl
  exact ((bne_track reg .zero hnotNull).append hthrow).append (land_track hnotNull)

theorem boundsCheck_track (array index : Reg) :
    Track (levels c d) (some c) (boundsCheck ctx i array index) (some c) := by
  have hloads : Shifts [Instr.lw .t4 (Int32.ofNat ctx.options.layout.arrayLength) array,
      .setLess false .t8 index .t4] 0 := shifts_of_movesAll rfl
  have houtOfRange := levels_inside c d ctx i "OutOfRange" 1
  have hinRange := levels_inside c d ctx i "InRange" 2
  have hthrow : Track (levels c d) (some c) (throwHere .throwIndexOutOfRange) none :=
    throwHere_track rfl
  exact (((((bltz_track index houtOfRange).append hloads.keep).append (bne_track .t8 .zero hinRange)).append
    (label_track houtOfRange)).append hthrow).append (land_track hinRange)

theorem scaleIndex_shifts {array index : Reg} (harray : array.sparesStack = true)
    (hindex : index.sparesStack = true) (stride : Nat) :
    Shifts (scaleIndex array index stride) 0 := by
  refine shifts_of_movesAll ?_
  unfold scaleIndex
  split
  · split <;> simp [movesAll, StackUse.moves?, Instr.moves?, harray, hindex]
  · simp [movesAll, StackUse.moves?, Instr.moves?, harray, show Reg.sparesStack .t5 = true from rfl]

theorem elementBase_track {array index : Reg} (harray : array.sparesStack = true)
    (hindex : index.sparesStack = true) (stride : Nat) :
    Track (levels c d) (some c) (elementBase ctx i array index stride) (some c) :=
  ((nullCheck_track array).append (boundsCheck_track array index)).append
    (scaleIndex_shifts harray hindex stride).keep

theorem guardIndirect_track (reg : Reg) :
    Track (levels c d) (some c) (guardIndirect ctx i reg) (some c) := by
  unfold guardIndirect
  split
  · exact nullCheck_track reg
  · exact .nil

end Checks

/-! ## Transfers -/

theorem loadValue_shifts (base : Reg) (offset : Int32) (bytes : Nat) (signed : Bool) (align : Nat) :
    Shifts (loadValue base offset bytes signed align) 0 := by
  unfold loadValue
  split
  · exact shifts_of_movesAll rfl
  · have hfirst : Shifts [Instr.load .byte signed .t6 (offset + Int32.ofNat (bytes - 1)) base] 0 :=
      shifts_of_movesAll rfl
    have hbytes := shifts_flatMap (List.range (bytes - 1)).reverse fun k _ =>
      (shifts_of_movesAll rfl : Shifts (loadByte base (offset + Int32.ofNat k)) 0)
    rw [UInt32.mul_zero] at hbytes
    exact hfirst.after hbytes

theorem storeValue_shifts (base : Reg) (offset : Int32) (bytes align : Nat) :
    Shifts (storeValue base offset bytes align) 0 := by
  unfold storeValue
  split
  · exact shifts_of_movesAll rfl
  · have hfirst : Shifts [Instr.store .byte .t6 offset base] 0 := shifts_of_movesAll rfl
    have hbytes := shifts_flatMap (List.range' 1 (bytes - 1)) fun k _ =>
      (shifts_of_movesAll rfl : Shifts (storeByte base offset k) 0)
    rw [UInt32.mul_zero] at hbytes
    exact hfirst.after hbytes

theorem pushFromMemory_shifts (base : Reg) (offset : Int32) (storage : Nat) (signed : Bool)
    (align : Nat) :
    Shifts (pushFromMemory base offset storage signed align)
      (-UInt32.ofNat (4 * wordCount storage)) := by
  have hwords := shifts_flatMap (List.range (wordCount storage)).reverse fun k _ =>
    (loadValue_shifts base (offset + Int32.ofNat (4 * k)) (wordBytes storage k)
      (signed && storage < 4) align).after (push_shifts .t6)
  rwa [List.length_reverse, List.length_range, ofNat_mul_neg_four] at hwords

theorem popToMemory_shifts (base : Reg) (offset : Int32) (storage align : Nat) :
    Shifts (popToMemory base offset storage align) (UInt32.ofNat (4 * wordCount storage)) := by
  have hwords := shifts_flatMap (List.range (wordCount storage)) fun k _ =>
    (pop_shifts (r := .t6) rfl).before
      (storeValue_shifts base (offset + Int32.ofNat (4 * k)) (wordBytes storage k) align)
  rwa [List.length_range, ofNat_mul_four] at hwords

theorem zeroFrom_shifts (base : Reg) (offset : Int32) (align done left : Nat) :
    Shifts (zeroFrom base offset align done left) 0 := by
  fun_induction zeroFrom base offset align done left with
  | case1 done left hleft width ih =>
    have hstore : Shifts [Instr.store width .zero (offset + Int32.ofNat done) base] 0 :=
      shifts_of_movesAll rfl
    exact hstore.after ih
  | case2 => exact shifts_nil

/-! ## Integers -/

section Integers

variable {ctx : EmitContext} {i : Instruction} {e : Effect} {n : Nat}

theorem isWide_of_size {item : StackItem} (h : item.size = n) : isWide item = (n == 8) := by
  rw [isWide, h]

theorem binary_conserves {op : BinaryOp} {code : List Instr} (hn : IntegerSize n)
    (hsizes : e.Sizes [n, n] [n]) (hcode : binary i e op = .ok code) : Conserves code e.rise := by
  rw [hsizes.rise]
  unfold binary at hcode
  rw [isWide_of_size (hsizes.operand 0 rfl)] at hcode
  rcases hn with rfl | rfl
  · obtain rfl := Except.ok.inj hcode
    cases op <;> exact .of_shifts (shifts_of_movesAll rfl)
  · cases op with
    | div | divUn | rem | remUn => cases hcode
    | add | sub | mul | and | or | xor =>
      obtain rfl := Except.ok.inj hcode
      exact .of_shifts (shifts_of_movesAll rfl)

theorem unary_conserves (op : UnaryOp) (hn : IntegerSize n) (hsizes : e.Sizes [n] [n]) :
    Conserves (unary e op) e.rise := by
  rw [hsizes.rise]
  unfold unary
  rw [isWide_of_size (hsizes.operand 0 rfl)]
  rcases hn with rfl | rfl
  · cases op <;> exact .of_shifts (shifts_of_movesAll rfl)
  · cases op <;> exact .of_shifts (shifts_of_movesAll rfl)

variable (ctx i) in
theorem shiftWord_track (op : Stencil.ShiftOp) (wideCount : Bool) {c d : UInt32} :
    Track (levels c d) (some c) (shiftWord ctx i op wideCount) (some c) := by
  have hshift : Shifts [Instr.alu (shiftVar op) .t0 .t0 .t2] 0 := shifts_of_movesAll rfl
  cases wideCount with
  | false => exact hshift.keep
  | true =>
    have hword := ((bne_track .t3 .zero
      (levels_inside c d ctx i "Saturate" 0)).append hshift.keep).append
      (jump_track (levels_inside c d ctx i "Done" 1))
    refine hword.append ?_
    cases op <;> exact .land rfl (.keep rfl (.label rfl rfl .nil))

variable (ctx i) in
theorem shiftWide_track (op : Stencil.ShiftOp) (wideCount : Bool) {c d : UInt32} :
    Track (levels c d) (some c) (shiftWide ctx i op wideCount) (some c) := by
  have hcheck : Track (levels c d) (some c)
      (if wideCount then Instr.bne .t3 .zero (ctx.inside i "Saturate" 0) else []) (some c) := by
    cases wideCount with
    | false => exact .nil
    | true => exact bne_track .t3 .zero rfl
  have hset : ∀ imm, Shifts [Instr.aluImm .sltiu .t8 .t2 imm] 0 := fun imm => shifts_of_movesAll rfl
  have hrest : Shifts [Instr.addiu .t4 .zero 32, .alu .subu .t4 .t4 .t2] 0 := shifts_of_movesAll rfl
  have hbig : Track (levels c d) none [Instr.label (ctx.inside i "Big" 1), .addiu .t2 .t2 (-32)]
      (some c) := .land rfl (.keep rfl .nil)
  have hacross : Shifts (shiftAcross op) 0 := by cases op <;> exact shifts_of_movesAll rfl
  have hover : Shifts (shiftOver op) 0 := by cases op <;> exact shifts_of_movesAll rfl
  have hout : Shifts (shiftOut op) 0 := by cases op <;> exact shifts_of_movesAll rfl
  have hcompare := ((((hcheck.append (hset 64).keep).append
    (beq_track .t8 .zero (levels_inside c d ctx i "Saturate" 0))).append
    (beq_track .t2 .zero (levels_inside c d ctx i "Done" 2))).append
    (hset 32).keep).append
    (beq_track .t8 .zero (levels_inside c d ctx i "Big" 1))
  have hsmall := ((hcompare.append hrest.keep).append hacross.keep).append
    (jump_track (levels_inside c d ctx i "Done" 2))
  have hlarge := ((hsmall.append hbig).append hover.keep).append
    (jump_track (levels_inside c d ctx i "Done" 2))
  exact ((hlarge.append (land_track (levels_inside c d ctx i "Saturate" 0))).append
    hout.keep).append (label_track (levels_inside c d ctx i "Done" 2))

theorem pushResult_shifts (wide : Bool) : Shifts (pushResult wide) (if wide then -8 else -4) := by
  cases wide <;> exact shifts_of_movesAll rfl

theorem shift_conserves (op : Stencil.ShiftOp) {count : Nat} (hn : IntegerSize n)
    (hcount : IntegerSize count) (hsizes : e.Sizes [count, n] [n]) :
    Conserves (shift ctx i e op) e.rise := by
  rw [hsizes.rise]
  unfold shift
  dsimp only
  rw [isWide_of_size (hsizes.operand 0 rfl),
    isWide_of_size (hsizes.operand 1 rfl)]
  rcases hn with rfl | rfl
  · rcases hcount with rfl | rfl
    · have hpops : Shifts (Instr.pop .t2 ++ [] ++ Instr.pop .t0) 8 := shifts_of_movesAll rfl
      exact .around hpops (shiftWord_track ctx i op false) (pushResult_shifts false) rfl
    · have hpops : Shifts (Instr.pop .t2 ++ Instr.pop .t3 ++ Instr.pop .t0) 12 :=
        shifts_of_movesAll rfl
      exact .around hpops (shiftWord_track ctx i op true) (pushResult_shifts false) rfl
  · rcases hcount with rfl | rfl
    · have hpops : Shifts (Instr.pop .t2 ++ [] ++ Instr.pop .t0 ++ Instr.pop .t1) 12 :=
        shifts_of_movesAll rfl
      have hall := Conserves.around hpops (shiftWide_track ctx i op false) (pushResult_shifts true) rfl
      rw [List.append_assoc _ (Instr.pop .t1)] at hall
      exact hall
    · have hpops : Shifts (Instr.pop .t2 ++ Instr.pop .t3 ++ Instr.pop .t0 ++ Instr.pop .t1) 16 :=
        shifts_of_movesAll rfl
      have hall := Conserves.around hpops (shiftWide_track ctx i op true) (pushResult_shifts true) rfl
      rw [List.append_assoc _ (Instr.pop .t1)] at hall
      exact hall

theorem convert_conserves {target : ConvTarget} (hn : IntegerSize n)
    (hsizes : e.Sizes [n] [if target.valueSize 4 = 8 then 8 else 4]) :
    Conserves (convertTo 4 (e.operand 0).size target) e.rise := by
  rw [hsizes.rise, hsizes.operand 0 rfl]
  rcases hn with rfl | rfl
  · cases target <;> exact .of_shifts (shifts_of_movesAll rfl)
  · cases target <;> exact .of_shifts (shifts_of_movesAll rfl)

end Integers

/-! ## Comparisons and branches -/

section Decisions

variable {ctx : EmitContext} {i : Instruction} {e : Effect} {n : Nat} {heights : Label → UInt32}
  {h : UInt32}

theorem popOperands_shifts (wide : Bool) : Shifts (popOperands wide) (if wide then 16 else 8) := by
  cases wide <;> exact shifts_of_movesAll rfl

theorem jumpIf_track (c : Comparison) (a b : Reg) {target : Label} (htarget : heights target = h) :
    Track heights (some h) (jumpIf c a b target) (some h) := by
  unfold jumpIf
  cases c.relation with
  | eq => exact beq_track a b htarget
  | ne => exact bne_track a b htarget
  | lt | gt => exact .keep rfl (bne_track .t8 .zero htarget)
  | ge | le => exact .keep rfl (beq_track .t8 .zero htarget)

theorem jumpIfWide_track (c : Comparison) {taken notTaken : Label} (htaken : heights taken = h)
    (hnotTaken : heights notTaken = h) :
    Track heights (some h) (jumpIfWide c taken notTaken) (some h) := by
  refine (Track.append ?_ (bne_track .t1 .t3 hnotTaken)).append (jumpIf_track c.lowWord .t0 .t2 htaken)
  cases c.highWord? with
  | none => exact .nil
  | some high => exact jumpIf_track high .t1 .t3 htaken

theorem compare_conserves (op : CompareOp) (hn : IntegerSize n) (hsizes : e.Sizes [n, n] [4]) :
    Conserves (compare ctx i e op) e.rise := by
  have hwide := isWide_of_size (hsizes.operand 0 rfl)
  have hrise : (if isWide (e.operand 0) then 16 else 8) + (-4) = e.rise := by
    rw [hsizes.rise, hwide]
    rcases hn with rfl | rfl <;> rfl
  generalize hc : (if isWide (e.operand 0) then (16 : UInt32) else 8) = c at hrise
  have htrue := compareLevels_true ctx i c e.rise
  have hfalse := compareLevels_false ctx i c e.rise
  have hend := compareLevels_end ctx i c e.rise
  have hpops : Track (compareLevels ctx i c e.rise) (some 0) (popOperands (isWide (e.operand 0)))
      (some c) := by
    rw [← hc]
    exact (popOperands_shifts _).track (UInt32.zero_add _)
  have hjumps : Track (compareLevels ctx i c e.rise) (some c)
      (if isWide (e.operand 0) then
        jumpIfWide (Comparison.ofCompare op) (ctx.inside i "True" 0) (ctx.inside i "False" 1)
      else jumpIf (Comparison.ofCompare op) .t0 .t2 (ctx.inside i "True" 0)) (some c) := by
    split
    · exact jumpIfWide_track _ htrue hfalse
    · exact jumpIf_track _ .t0 .t2 htrue
  have hone : Track (compareLevels ctx i c e.rise) none
      [Instr.label (ctx.inside i "True" 0), .addiu .t8 .zero 1] (some c) := by
    refine .land rfl ?_
    rw [htrue]
    exact .keep rfl .nil
  have hno := ((hpops.append hjumps).append (label_track hfalse)).append
    ((push_shifts .zero).track hrise)
  have hyes := ((hno.append (jump_track hend)).append hone).append ((push_shifts .t8).track hrise)
  exact ⟨compareLevels ctx i c e.rise, some e.rise, fun _ => compareLevels_outside ctx i c e.rise,
    .inr rfl, hyes.append (label_track hend)⟩

theorem branchTo_conserves {condition : BranchCondition} (target : Label)
    (hexchanges : match condition.operandCount with
      | 0 => e.Sizes [] []
      | 1 => ∃ n, IntegerSize n ∧ e.Sizes [n] []
      | _ => ∃ n, IntegerSize n ∧ e.Sizes [n, n] []) :
    Conserves (branchTo ctx i (isWide (e.operand 0)) condition target) e.rise := by
  have hsame : ∀ l, levels e.rise e.rise l = e.rise := levels_same e.rise
  cases condition with
  | always =>
    have hsizes : e.Sizes [] [] := hexchanges
    rw [hsizes.rise]
    exact .of_jump shifts_nil (l := target) rfl
  | isTrue | isFalse =>
    obtain ⟨n, hn, hsizes⟩ := hexchanges
    rw [isWide_of_size (hsizes.operand 0 rfl)]
    have hpops : Shifts (if n == 8 then Instr.pop .t0 ++ Instr.pop .t1 ++ [Instr.alu .or .t0 .t0 .t1]
        else Instr.pop .t0) e.rise := by
      rw [hsizes.rise]
      rcases hn with rfl | rfl <;> exact shifts_of_movesAll rfl
    first
    | exact .of_branches hpops (bne_track .t0 .zero (hsame target))
    | exact .of_branches hpops (beq_track .t0 .zero (hsame target))
  | eq | neUn | ge | gt | le | lt | geUn | gtUn | leUn | ltUn =>
    obtain ⟨n, hn, hsizes⟩ := hexchanges
    rw [isWide_of_size (hsizes.operand 0 rfl)]
    have hpops : Shifts (popOperands (n == 8)) e.rise := by
      rw [hsizes.rise]
      rcases hn with rfl | rfl <;> exact shifts_of_movesAll rfl
    refine .of_branches hpops ?_
    split
    · exact (jumpIfWide_track _ (hsame target) (hsame _)).append (label_track (hsame _))
    · exact jumpIf_track _ .t0 .t2 (hsame target)

theorem switchCases_track {d : UInt32} (targets : List Int) (case : Nat)
    (hfailure : (switchCases ctx i case targets).failure = none) :
    Track (levels d d) (some d) (switchCases ctx i case targets).code (some d) := by
  induction targets generalizing case with
  | nil => exact .nil
  | cons target rest ih =>
    unfold switchCases at hfailure ⊢
    cases hlabel : ctx.targetLabel i target with
    | error err =>
      rw [hlabel] at hfailure
      cases hfailure
    | ok label =>
      rw [hlabel] at hfailure
      exact .keep rfl ((beq_track .t0 .t5 (levels_same d label)).append (ih (case + 1) hfailure))

theorem switch_conserves (hsizes : e.Sizes [4] []) (hfailure : (switch ctx i).failure = none) :
    Conserves (switch ctx i).code e.rise := by
  rw [hsizes.rise]
  unfold switch at hfailure ⊢
  cases htargets : i.switchTargets with
  | error err =>
    rw [htargets] at hfailure
    cases hfailure
  | ok targets =>
    rw [htargets] at hfailure
    exact .of_branches (pop_shifts (r := .t0) rfl) (switchCases_track targets 0 hfailure)

theorem leave_conserves {code : List Instr} (hpushed : e.pushed = [])
    (hcode : leave ctx i e = .ok code) : Conserves code e.rise := by
  obtain ⟨t, -, hcode⟩ := answer_bind.mp hcode
  obtain ⟨target, -, hcode⟩ := answer_bind.mp hcode
  obtain rfl := Except.ok.inj hcode
  rw [Effect.rise_of_pushed_nil hpushed]
  exact .of_jump (drop_shifts e.poppedBytes) (l := target) rfl

theorem ret_conserves {code : List Instr} (hpushed : e.pushed = []) (hwords : 4 ∣ e.poppedBytes)
    (hcode : ret ctx i e = .ok code) : Conserves code e.rise := by
  rw [Effect.rise_of_pushed_nil hpushed]
  obtain ⟨value, hvalue, hcode⟩ := answer_bind.mp hcode
  obtain rfl := Except.ok.inj hcode
  generalize e.poppedBytes = bytes at hwords hvalue ⊢
  refine .of_jump ?_ (l := ctx.endLabel) rfl
  unfold returnValue at hvalue
  split at hvalue
  · obtain rfl := Except.ok.inj hvalue
    exact shifts_nil
  · obtain rfl := Except.ok.inj hvalue
    exact shifts_of_movesAll rfl
  · obtain rfl := Except.ok.inj hvalue
    exact shifts_of_movesAll rfl
  · obtain ⟨_, -, hvalue⟩ := answer_bind.mp hvalue
    obtain rfl := Except.ok.inj hvalue
    have hpops := shifts_flatMap (List.range (bytes / 4)) fun k _ =>
      (shifts_of_movesAll rfl : Shifts (returnWord k) 4)
    rwa [List.length_range, ofNat_mul_four, Nat.mul_div_cancel' hwords] at hpops

end Decisions

end Stencil.Mips
