import Stencil.Proofs.Height.Place
import Stencil.Proofs.Simulation.Effects
import Stencil.Proofs.X86.Height

/-!
# Every x86 template is balanced

Template by template: what it adds to the stack pointer is what the simulation popped less what it
pushed (`emit_conserves`). Values move between memory and the stack by whole words, so this needs
the size of a value on the stack to be that of its words in memory.
-/

namespace Stencil.X86

open Stateful

/-! ## Single instructions -/

section Instructions

variable {heights : Label → UInt32} {h : UInt32} {rest : List Instr} {t : Option UInt32}

theorem track_jcc {cond : Cond} {l : Label} (hheight : heights l = h)
    (hrest : Track heights (some h) rest t) : Track heights (some h) (.jcc cond l :: rest) t := by
  have hbranches : StackUse.Branches [Instr.jcc cond l] l := ⟨cond, rfl⟩
  exact .branch hbranches hheight hrest

theorem track_jump {l : Label} (hheight : heights l = h) (hrest : Track heights none rest t) :
    Track heights (some h) (Instr.jump l :: rest) t := by
  have hjumps : StackUse.Jumps [Instr.jump l] l := rfl
  exact .jump hjumps hheight hrest

theorem track_callSymbol {s : Symbol} (hrest : Track heights (some h) rest t) :
    Track heights (some h) (Instr.callSymbol s :: rest) t := by
  have hcalls : StackUse.Calls [Instr.callSymbol s] := ⟨.symbol s, rfl, fun _ heq => nomatch heq⟩
  exact .call hcalls hrest

theorem track_stop {intrinsic : Intrinsic} (hnever : intrinsic.neverReturns = true)
    (hrest : Track heights none rest t) :
    Track heights (some h) (Instr.callSymbol intrinsic.symbol :: rest) t := by
  have hstops : StackUse.Stops [Instr.callSymbol intrinsic.symbol] :=
    ⟨_, rfl, intrinsic, hnever, rfl⟩
  exact .stop hstops hrest

end Instructions

theorem callSymbol_shifts (s : Symbol) : Shifts [Instr.callSymbol s] 0 :=
  shifts_call ⟨.symbol s, rfl, fun _ heq => nomatch heq⟩

theorem callReg_shifts (r : Reg) : Shifts [Instr.callReg r] 0 :=
  shifts_call ⟨.reg r, rfl, fun _ heq => nomatch heq⟩

theorem drop_shifts (bytes : Nat) : Shifts (Instr.drop bytes) (UInt32.ofNat bytes) := by
  unfold Instr.drop
  split
  · rename_i hzero
    rw [hzero]
    exact shifts_nil
  · refine shifts_of_movesAll ?_
    show some ((Int32.ofNat bytes).toUInt32 + 0) = _
    rw [UInt32.add_zero]
    rfl

theorem reserve_shifts (bytes : Nat) : Shifts (Instr.reserve bytes) (-UInt32.ofNat bytes) := by
  unfold Instr.reserve
  split
  · rename_i hzero
    rw [hzero]
    exact shifts_nil
  · refine shifts_of_movesAll ?_
    show some (-(Int32.ofNat bytes).toUInt32 + 0) = _
    rw [UInt32.add_zero]
    rfl

/-! ## Checks -/

section Checks

variable {ctx : EmitContext} {i : Instruction} {c d : UInt32}

theorem throwHere_track {heights : Label → UInt32} {h : UInt32} {intrinsic : Intrinsic}
    (hnever : intrinsic.neverReturns = true) :
    Track heights (some h) (throwHere intrinsic) none :=
  track_callSymbol (.move rfl (track_stop hnever .nil))

theorem nullCheck_track (reg : Reg) :
    Track (levels c d) (some c) (nullCheck ctx i reg) (some c) :=
  .keep rfl (track_jcc rfl ((throwHere_track rfl).append (.land rfl .nil)))

theorem boundsCheck_track (array index : Reg) :
    Track (levels c d) (some c) (boundsCheck ctx i array index) (some c) :=
  .keep rfl (track_jcc rfl (.keep rfl (track_jcc rfl (.label rfl rfl
    ((throwHere_track rfl).append (.land rfl .nil))))))

theorem scaleIndex_shifts {array index : Reg} (harray : array.sparesStack = true)
    (hindex : index.sparesStack = true) (stride : Nat) :
    Shifts (scaleIndex array index stride) 0 := by
  refine shifts_of_movesAll ?_
  have harray' : Operand.sparesStack (.reg array) = true := harray
  unfold scaleIndex
  split <;>
    simp [movesAll, StackUse.moves?, Instr.moves?, Instr.aluReg, Instr.aluMoves?, harray', hindex]

theorem elementBase_track {array index : Reg} (harray : array.sparesStack = true)
    (hindex : index.sparesStack = true) (stride : Nat) :
    Track (levels c d) (some c) (elementBase ctx i array index stride) (some c) :=
  ((nullCheck_track array).append (boundsCheck_track array index)).append
    (scaleIndex_shifts harray hindex stride).keep

theorem guardIndirect_track (reg : Reg) :
    Track (levels c d) (some c) (guardIndirect ctx i reg) (some c) := by
  unfold guardIndirect
  split
  · exact nullCheck_track reg
  · exact .nil

end Checks

/-! ## Transfers -/

theorem pushWord_shifts (m : Mem) (bytes : Nat) (signed : Bool) :
    Shifts (pushWord m bytes signed) (-4) := by
  unfold pushWord
  split
  · exact shifts_of_movesAll rfl
  · have htail : Shifts (loadTail m bytes signed) 0 := by
      unfold loadTail
      split
      · cases signed <;> exact shifts_of_movesAll rfl
      · cases signed <;> exact shifts_of_movesAll rfl
      · exact shifts_of_movesAll rfl
    exact htail.after (shifts_of_movesAll rfl)

theorem pushFromMemory_shifts (m : Mem) (storage : Nat) (signed : Bool) :
    Shifts (pushFromMemory m storage signed) (-UInt32.ofNat (4 * wordCount storage)) := by
  have hwords := shifts_flatMap (List.range (wordCount storage)).reverse fun k _ =>
    pushWord_shifts (m.word k) (wordBytes storage k) (signed && storage < 4)
  rwa [List.length_reverse, List.length_range, ofNat_mul_neg_four] at hwords

theorem popWord_shifts (m : Mem) (bytes : Nat) : Shifts (popWord m bytes) 4 := by
  unfold popWord
  split <;> exact shifts_of_movesAll rfl

theorem popToMemory_shifts (m : Mem) (storage : Nat) :
    Shifts (popToMemory m storage) (UInt32.ofNat (4 * wordCount storage)) := by
  have hwords := shifts_flatMap (List.range (wordCount storage)) fun k _ =>
    popWord_shifts (m.word k) (wordBytes storage k)
  rwa [List.length_range, ofNat_mul_four] at hwords

theorem zeroMemory_shifts (m : Mem) (storage : Nat) : Shifts (zeroMemory m storage) 0 := by
  unfold zeroMemory
  dsimp only
  have hwords := shifts_map (I := Instr) (List.range (storage / 4)) (d := 0)
    (f := fun k => .mov (.mem .dword (m.offset (Int32.ofNat (4 * k)))) (.imm 0))
    fun k => shifts_of_movesAll rfl
  rw [UInt32.mul_zero] at hwords
  refine hwords.after ?_
  split <;> exact shifts_of_movesAll rfl

/-! ## Integers -/

section Integers

variable {ctx : EmitContext} {i : Instruction} {e : Effect} {n : Nat}

theorem isWide_of_size {item : StackItem} (h : item.size = n) : isWide item = (n == 8) := by
  rw [isWide, h]

theorem binary_conserves {op : BinaryOp} (hn : IntegerSize n) (hsizes : e.Sizes [n, n] [n])
    (hfailure : (binary i e op).failure = none) : Conserves (binary i e op).code e.rise := by
  rw [hsizes.rise]
  unfold binary at hfailure ⊢
  rw [isWide_of_size (hsizes.operand 0 rfl)] at hfailure ⊢
  rcases hn with rfl | rfl
  · cases op <;> exact .of_shifts (shifts_of_movesAll rfl)
  · cases op with
    | div | divUn | rem | remUn => cases hfailure
    | add | sub | mul | and | or | xor => exact .of_shifts (shifts_of_movesAll rfl)

theorem unary_conserves (op : UnaryOp) (hn : IntegerSize n) (hsizes : e.Sizes [n] [n]) :
    Conserves (unary e op) e.rise := by
  rw [hsizes.rise]
  unfold unary
  rw [isWide_of_size (hsizes.operand 0 rfl)]
  rcases hn with rfl | rfl
  · cases op <;> exact .of_shifts (shifts_of_movesAll rfl)
  · cases op <;> exact .of_shifts (shifts_of_movesAll rfl)

variable (ctx i) in
theorem shiftWord_track (op : ShiftOp) (wideCount : Bool) {c d : UInt32} :
    Track (levels c d) (some c) (shiftWord ctx i op wideCount) (some c) := by
  cases wideCount with
  | false => cases op <;> exact .keep rfl .nil
  | true =>
    cases op <;>
      exact .keep rfl (track_jcc rfl (.keep rfl (track_jump rfl (.land rfl (.keep rfl
        (.label rfl rfl .nil))))))

variable (ctx i) in
theorem shiftWide_track (op : ShiftOp) (wideCount : Bool) {c d : UInt32} :
    Track (levels c d) (some c) (shiftWide ctx i op wideCount) (some c) := by
  have hcheck : Track (levels c d) (some c)
      (if wideCount then [Instr.testReg .esi, .jcc .ne (ctx.inside i "Saturate" 0)] else [])
      (some c) := by
    cases wideCount with
    | false => exact .nil
    | true => exact .keep rfl (track_jcc rfl .nil)
  have hacross : Shifts (shiftAcross op) 0 := by cases op <;> exact shifts_of_movesAll rfl
  have hover : Shifts (shiftOver op) 0 := by cases op <;> exact shifts_of_movesAll rfl
  have hout : Shifts (shiftOut op) 0 := by cases op <;> exact shifts_of_movesAll rfl
  have hcompare : Track (levels c d) (some c)
      [Instr.aluImm .cmp .ecx 64, .jcc .ae (ctx.inside i "Saturate" 0), .aluImm .cmp .ecx 32,
        .jcc .ae (ctx.inside i "Big" 1)] (some c) :=
    .keep rfl (track_jcc rfl (.keep rfl (track_jcc rfl .nil)))
  have hbig : Track (levels c d) (some c)
      [Instr.jump (ctx.inside i "Done" 2), .label (ctx.inside i "Big" 1), .aluImm .sub .ecx 32]
      (some c) :=
    track_jump rfl (.land rfl (.keep rfl .nil))
  have hsaturate : Track (levels c d) (some c)
      [Instr.jump (ctx.inside i "Done" 2), .label (ctx.inside i "Saturate" 0)] (some c) :=
    track_jump rfl (.land rfl .nil)
  exact ((((((hcheck.append hcompare).append hacross.keep).append hbig).append hover.keep).append
    hsaturate).append hout.keep).append (.label rfl rfl .nil)

theorem shift_conserves (op : ShiftOp) {count : Nat} (hn : IntegerSize n)
    (hcount : IntegerSize count) (hsizes : e.Sizes [count, n] [n]) :
    Conserves (shift ctx i e op) e.rise := by
  rw [hsizes.rise]
  unfold shift
  dsimp only
  rw [isWide_of_size (hsizes.operand 0 rfl),
    isWide_of_size (hsizes.operand 1 rfl)]
  have hword : Shifts (pushResult false) (-4) := shifts_of_movesAll rfl
  have hwide : Shifts (pushResult true) (-8) := shifts_of_movesAll rfl
  rcases hn with rfl | rfl
  · rcases hcount with rfl | rfl
    · have hpops : Shifts [Instr.popReg .ecx, .popReg .eax] 8 := shifts_of_movesAll rfl
      exact .around hpops (shiftWord_track ctx i op false) hword rfl
    · have hpops : Shifts [Instr.popReg .ecx, .popReg .esi, .popReg .eax] 12 :=
        shifts_of_movesAll rfl
      exact .around hpops (shiftWord_track ctx i op true) hword rfl
  · rcases hcount with rfl | rfl
    · have hpops : Shifts [Instr.popReg .ecx, .popReg .eax, .popReg .edx] 12 :=
        shifts_of_movesAll rfl
      show Conserves ([Instr.popReg .ecx, .popReg .eax, .popReg .edx] ++ shiftWide ctx i op false ++
        pushResult true) _
      exact .around hpops (shiftWide_track ctx i op false) hwide rfl
    · have hpops : Shifts [Instr.popReg .ecx, .popReg .esi, .popReg .eax, .popReg .edx] 16 :=
        shifts_of_movesAll rfl
      show Conserves ([Instr.popReg .ecx, .popReg .esi, .popReg .eax, .popReg .edx] ++
        shiftWide ctx i op true ++ pushResult true) _
      exact .around hpops (shiftWide_track ctx i op true) hwide rfl

theorem convert_conserves {target : ConvTarget} (hn : IntegerSize n)
    (hsizes : e.Sizes [n] [if target.valueSize 4 = 8 then 8 else 4]) :
    Conserves (convertTo 4 (e.operand 0).size target) e.rise := by
  rw [hsizes.rise, hsizes.operand 0 rfl]
  rcases hn with rfl | rfl
  · cases target <;> exact .of_shifts (shifts_of_movesAll rfl)
  · cases target <;> exact .of_shifts (shifts_of_movesAll rfl)

end Integers

/-! ## Comparisons and branches -/

section Decisions

variable {ctx : EmitContext} {i : Instruction} {e : Effect} {n : Nat} {heights : Label → UInt32}
  {h : UInt32}

theorem popOperands_shifts (wide : Bool) : Shifts (popOperands wide) (if wide then 16 else 8) := by
  cases wide <;> exact shifts_of_movesAll rfl

theorem jumpIf_track (c : Comparison) (a b : Reg) {target : Label} (htarget : heights target = h) :
    Track heights (some h) (jumpIf c a b target) (some h) :=
  .keep rfl (track_jcc htarget .nil)

theorem jumpIfWide_track (c : Comparison) {taken notTaken : Label} (htaken : heights taken = h)
    (hnotTaken : heights notTaken = h) :
    Track heights (some h) (jumpIfWide c taken notTaken) (some h) := by
  have hcompare : Track heights (some h) [Instr.aluReg .cmp .edx .ecx] (some h) := .keep rfl .nil
  refine ((hcompare.append ?_).append (track_jcc hnotTaken .nil)).append
    (jumpIf_track c.lowWord .eax .ebx htaken)
  cases c.highWord? with
  | none => exact .nil
  | some high => exact track_jcc htaken .nil

theorem compare_conserves (op : CompareOp) (hn : IntegerSize n) (hsizes : e.Sizes [n, n] [4]) :
    Conserves (compare ctx i e op) e.rise := by
  have hwide := isWide_of_size (hsizes.operand 0 rfl)
  have hrise : (if isWide (e.operand 0) then 16 else 8) + (-4) = e.rise := by
    rw [hsizes.rise, hwide]
    rcases hn with rfl | rfl <;> rfl
  generalize hc : (if isWide (e.operand 0) then (16 : UInt32) else 8) = c at hrise
  have htrue := compareLevels_true ctx i c e.rise
  have hfalse := compareLevels_false ctx i c e.rise
  have hend := compareLevels_end ctx i c e.rise
  have hpops : Track (compareLevels ctx i c e.rise) (some 0) (popOperands (isWide (e.operand 0)))
      (some c) := by
    rw [← hc]
    exact (popOperands_shifts _).track (UInt32.zero_add _)
  have hjumps : Track (compareLevels ctx i c e.rise) (some c)
      (if isWide (e.operand 0) then
        jumpIfWide (Comparison.ofCompare op) (ctx.inside i "True" 0) (ctx.inside i "False" 1)
      else jumpIf (Comparison.ofCompare op) .eax .ebx (ctx.inside i "True" 0)) (some c) := by
    split
    · exact jumpIfWide_track _ htrue hfalse
    · exact jumpIf_track _ .eax .ebx htrue
  refine ⟨compareLevels ctx i c e.rise, some e.rise, fun _ => compareLevels_outside ctx i c e.rise,
    .inr rfl,
    (hpops.append hjumps).append (.label rfl hfalse (.move rfl (track_jump ?_ (.land rfl ?_))))⟩
  · rw [hend, ← hrise]
  · rw [htrue]
    refine .move rfl (.label rfl ?_ ?_)
    · rw [hend, ← hrise]
    · rw [hrise]
      exact .nil

theorem branchTo_conserves {condition : BranchCondition} (target : Label)
    (hexchanges : match condition.operandCount with
      | 0 => e.Sizes [] []
      | 1 => ∃ n, IntegerSize n ∧ e.Sizes [n] []
      | _ => ∃ n, IntegerSize n ∧ e.Sizes [n, n] []) :
    Conserves (branchTo ctx i (isWide (e.operand 0)) condition target) e.rise := by
  have hsame : ∀ l, levels e.rise e.rise l = e.rise := levels_same e.rise
  cases condition with
  | always =>
    have hsizes : e.Sizes [] [] := hexchanges
    rw [hsizes.rise]
    exact .of_jump shifts_nil (l := target) rfl
  | isTrue | isFalse =>
    obtain ⟨n, hn, hsizes⟩ := hexchanges
    rw [isWide_of_size (hsizes.operand 0 rfl)]
    have hpops : Shifts (if n == 8 then [Instr.popReg .eax, .popReg .edx, .aluReg .or .eax .edx]
        else [Instr.popReg .eax, .testReg .eax]) e.rise := by
      rw [hsizes.rise]
      rcases hn with rfl | rfl <;> exact shifts_of_movesAll rfl
    exact .of_branches hpops (track_jcc (hsame target) .nil)
  | eq | neUn | ge | gt | le | lt | geUn | gtUn | leUn | ltUn =>
    obtain ⟨n, hn, hsizes⟩ := hexchanges
    rw [isWide_of_size (hsizes.operand 0 rfl)]
    have hpops : Shifts (popOperands (n == 8)) e.rise := by
      rw [hsizes.rise]
      rcases hn with rfl | rfl <;> exact shifts_of_movesAll rfl
    refine .of_branches hpops ?_
    split
    · exact (jumpIfWide_track _ (hsame target) (hsame _)).append (.label rfl (hsame _) .nil)
    · exact jumpIf_track _ .eax .ebx (hsame target)

theorem switchCases_track {d : UInt32} (targets : List Int) (case : Nat)
    (hfailure : (switchCases ctx i case targets).failure = none) :
    Track (levels d d) (some d) (switchCases ctx i case targets).code (some d) := by
  induction targets generalizing case with
  | nil => exact .nil
  | cons target rest ih =>
    unfold switchCases at hfailure ⊢
    cases hlabel : ctx.targetLabel i target with
    | error err =>
      rw [hlabel] at hfailure
      cases hfailure
    | ok label =>
      rw [hlabel] at hfailure
      exact .keep rfl (track_jcc (levels_same d label) (ih (case + 1) hfailure))

theorem switch_conserves (hsizes : e.Sizes [4] []) (hfailure : (switch ctx i).failure = none) :
    Conserves (switch ctx i).code e.rise := by
  rw [hsizes.rise]
  unfold switch at hfailure ⊢
  cases htargets : i.switchTargets with
  | error err =>
    rw [htargets] at hfailure
    cases hfailure
  | ok targets =>
    rw [htargets] at hfailure
    have hpop : Shifts [Instr.popReg .eax] 4 := shifts_of_movesAll rfl
    exact .of_branches hpop (switchCases_track targets 0 hfailure)

theorem leave_conserves {code : List Instr} (hpushed : e.pushed = [])
    (hcode : leave ctx i e = .ok code) : Conserves code e.rise := by
  obtain ⟨t, -, hcode⟩ := answer_bind.mp hcode
  obtain ⟨target, -, hcode⟩ := answer_bind.mp hcode
  obtain rfl := Except.ok.inj hcode
  rw [Effect.rise_of_pushed_nil hpushed]
  exact .of_jump (drop_shifts e.poppedBytes) (l := target) rfl

theorem ret_conserves (hpushed : e.pushed = []) (hwords : 4 ∣ e.poppedBytes) :
    Conserves (ret ctx e) e.rise := by
  rw [Effect.rise_of_pushed_nil hpushed]
  unfold ret
  generalize e.poppedBytes = bytes at hwords ⊢
  refine .of_jump ?_ (l := ctx.endLabel) rfl
  split
  · exact shifts_nil
  · exact shifts_of_movesAll rfl
  · exact shifts_of_movesAll rfl
  · have hpops := shifts_map (I := Instr) (List.range (bytes / 4)) (d := 4)
      (f := fun k => .popMem (returnSlot.offset (Int32.ofNat (4 * k))))
      fun k => shifts_of_movesAll rfl
    rwa [List.length_range, ofNat_mul_four, Nat.mul_div_cancel' hwords] at hpops

end Decisions

end Stencil.X86
