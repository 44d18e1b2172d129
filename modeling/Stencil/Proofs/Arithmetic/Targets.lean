import Stencil.Proofs.Arithmetic.Computes
import Stencil.Proofs.Isolation.Targets
import Stencil.Proofs.Mips.Decision
import Stencil.Proofs.Mips.Division
import Stencil.Proofs.Mips.Integer
import Stencil.Proofs.X86.Decision
import Stencil.Proofs.X86.Division
import Stencil.Proofs.X86.Integer

/-!
# Integers on both targets

Both targets compute with integers as two's complement says. They differ in one place: of the least word
divided by minus one x86 makes a fault, and MIPS32 wraps around.
-/

namespace Stencil

open AddressMap Meaning Meaning.Value

theorem exists_comparison {condition : BranchCondition} (h : condition.operandCount = 2) :
    ∃ c, Comparison.ofBranch? condition = some c := by
  cases condition <;> first | exact ⟨_, rfl⟩ | cases h

theorem X86.emit_branch {ctx : EmitContext} {i : Instruction} {e : Effect} {condition : BranchCondition}
    {target : Int} {l : Label} (hop : i.op.operation = .branch condition)
    (htarget : i.branchTarget = .ok target) (hlabel : ctx.targetLabel i target = .ok l) :
    X86.backend.emit ctx i e =
      { code := X86.branchTo ctx i (X86.isWide (e.operand 0)) condition l } := by
  simp only [X86.backend, X86.emit, hop, X86.branch, htarget, bind, Except.bind, hlabel]
  rfl

theorem X86.computesIntegers : ComputesIntegers X86.backend where
  binary {_ i _ _ _ _ _} hop h hsize := by
    obtain ⟨code, hcode, hturns⟩ := X86.turns_binary i h hsize
    refine .of_turns code ?_ fun deep fp => ?_
    · simp only [X86.backend, X86.emit, hop, hcode]
    · rw [List.append_assoc]
      exact hturns deep fp
  unary {_ _ e op _ _} hop h hsize := by
    refine .of_turns (X86.unary e op) ?_ fun deep fp => X86.turns_unary h hsize
    simp only [X86.backend, X86.emit, hop]
  shift {ctx i e op _ _ _} hop h hcount hvalue := by
    refine .of_turns (X86.shift ctx i e op) ?_ fun deep fp => ?_
    · simp only [X86.backend, X86.emit, hop]
    · rw [List.append_assoc]
      exact X86.turns_shift op ctx i h hcount hvalue
  compare {ctx i e op _ _} hop hb hlength hsize := by
    refine .of_turns (X86.compare ctx i e op) ?_ fun deep fp => ?_
    · simp only [X86.backend, X86.emit, hop]
    · rw [List.append_assoc]
      exact X86.turns_compare ctx i op hb hlength hsize
  branch {ctx i _ _ _ l _ _} hop hcount htarget hlabel hb hlength hsize := by
    obtain ⟨c, hc⟩ := exists_comparison hcount
    refine .of_turns _ (X86.emit_branch hop htarget hlabel) fun deep fp => ?_
    rw [X86.isWide_value hb hsize, List.append_assoc]
    exact X86.turns_branchTo ctx i hc l hb hlength
  branchZero onZero {_ _ _ _ l _} hop htarget hlabel ha hsize := by
    refine .of_turns _ (X86.emit_branch hop htarget hlabel) fun deep fp => ?_
    rw [X86.isWide_value ha hsize]
    cases onZero with
    | false => exact X86.turns_branchZero false l ha
    | true => exact X86.turns_branchZero true l ha

theorem Mips.emit_branch {ctx : EmitContext} {i : Instruction} {e : Effect} {condition : BranchCondition}
    {target : Int} {l : Label} (hop : i.op.operation = .branch condition)
    (htarget : i.branchTarget = .ok target) (hlabel : ctx.targetLabel i target = .ok l) :
    Mips.backend.emit ctx i e =
      { code := Mips.branchTo ctx i (Mips.isWide (e.operand 0)) condition l } := by
  simp only [Mips.backend, Mips.emit, hop, Mips.branch, htarget, bind, Except.bind, hlabel]
  rfl

theorem Mips.computesIntegers : ComputesIntegers Mips.backend where
  binary {_ i _ _ _ _ _} hop h hsize := by
    obtain ⟨code, hcode, hturns⟩ := Mips.turns_binary i h hsize
    refine .of_turns code ?_ fun deep fp => ?_
    · simp only [Mips.backend, Mips.emit, hop, hcode]
      rfl
    · rw [List.append_assoc]
      exact hturns deep fp
  unary {_ _ e op _ _} hop h hsize := by
    refine .of_turns (Mips.unary e op) ?_ fun deep fp => Mips.turns_unary h hsize
    simp only [Mips.backend, Mips.emit, hop]
  shift {ctx i e op _ _ _} hop h hcount hvalue := by
    refine .of_turns (Mips.shift ctx i e op) ?_ fun deep fp => ?_
    · simp only [Mips.backend, Mips.emit, hop]
    · rw [List.append_assoc]
      exact Mips.turns_shift op ctx i h hcount hvalue
  compare {ctx i e op _ _} hop hb hlength hsize := by
    refine .of_turns (Mips.compare ctx i e op) ?_ fun deep fp => ?_
    · simp only [Mips.backend, Mips.emit, hop]
    · rw [List.append_assoc]
      exact Mips.turns_compare ctx i op hb hlength hsize
  branch {ctx i _ _ _ l _ _} hop hcount htarget hlabel hb hlength hsize := by
    obtain ⟨c, hc⟩ := exists_comparison hcount
    refine .of_turns _ (Mips.emit_branch hop htarget hlabel) fun deep fp => ?_
    rw [Mips.isWide_value hb hsize, List.append_assoc]
    exact Mips.turns_branchTo ctx i hc l hb hlength
  branchZero onZero {_ _ _ _ l _} hop htarget hlabel ha hsize := by
    refine .of_turns _ (Mips.emit_branch hop htarget hlabel) fun deep fp => ?_
    rw [Mips.isWide_value ha hsize]
    cases onZero with
    | false => exact Mips.turns_branchZero false l ha
    | true => exact Mips.turns_branchZero true l ha

/-! ## Templates on their own -/

section Alone

/-- Memory with these words on the stack. -/
def stackStore : List UInt32 → Store
  | [] => dropStore
  | w :: words => (stackStore words).withWord (wordAddress words.length) w

theorem holds_stackStore {words : List UInt32} (h : words.length ≤ stackCapacity) :
    (stackStore words).memory.Holds words := by
  induction words with
  | nil => trivial
  | cons w words ih =>
    rw [List.length_cons] at h
    have hlt : words.length < stackCapacity := by omega
    rw [stackStore, Store.withWord, toNat_wordAddress hlt]
    exact (ih (by omega)).put_word hlt

theorem X86.exists_poised {words : List UInt32} (h : words.length ≤ stackCapacity) {k : Nat} :
    ∃ m, Poised X86.Instr m k words 0 := by
  let m : X86.Machine := { pc := codeAddress k, store := stackStore words }
  exact ⟨m.setReg .esp (stackPointer words), X86.poised_iff.mpr ⟨rfl, rfl, rfl, holds_stackStore h⟩⟩

theorem Mips.exists_poised {words : List UInt32} (h : words.length ≤ stackCapacity) {k : Nat} :
    ∃ m, Poised Mips.Instr m k words 0 := by
  let m : Mips.Machine :=
    { pc := codeAddress k, npc := codeAddress (k + 1), store := stackStore words }
  exact ⟨m.setReg .sp (stackPointer words),
    Mips.poised_iff.mpr ⟨rfl, rfl, rfl, rfl, rfl, holds_stackStore h⟩⟩

variable {I R M : Type} [TargetInstr I] [LabelUse I] [Semantics I R M]

/-- A machine that runs the template alone starts with the first words on the stack and gets to the end
with the others. -/
def LeavesAlone (backend : Backend I) (i : Instruction) (e : Effect)
    (operands results : List UInt32) : Prop :=
  let code := (backend.emit dropContext i e).code
  ∃ m : M, Poised I m 0 operands 0 ∧
    Reaches (Semantics.cycle (Program.ofTemplate code)) m fun m' => Poised I m' code.length results 0

/-- A machine that runs the template alone starts with the words on the stack and gets to a fault. -/
def BreaksAlone (backend : Backend I) (i : Instruction) (e : Effect) (operands : List UInt32)
    (fault : Fault) : Prop :=
  ∃ m : M, Poised I m 0 operands 0 ∧
    Ends (Semantics.cycle (Program.ofTemplate (backend.emit dropContext i e).code)) fault m

/-- The template can be placed alone, below a stack that fits. -/
structure FitsAlone (backend : Backend I) (i : Instruction) (e : Effect) (operands : List UInt32) : Prop where
  short : (backend.emit dropContext i e).code.length ≤ codeLimit
  nodup : (boundLabels (backend.emit dropContext i e).code).Nodup
  starts : ∃ m : M, Poised I m 0 operands 0

variable {backend : Backend I} {i : Instruction} {e : Effect} {operands results : List UInt32}

theorem Trades.leavesAlone (h : Trades backend dropContext i e operands .next results)
    (hfits : FitsAlone backend i e operands) : LeavesAlone backend i e operands results := by
  obtain ⟨m, hm⟩ := hfits.starts
  have hm' : Poised I m 0 (operands ++ []) 0 := by rwa [List.append_nil]
  have hreaches := h.reaches_end hfits.short (ofTemplate_placed hfits.nodup) hm'
  rw [Nat.zero_add, List.append_nil] at hreaches
  exact ⟨m, hm, hreaches⟩

theorem Stops.breaksAlone {fault : Fault} (h : Stops backend dropContext i e operands fault)
    (hfits : FitsAlone backend i e operands) : BreaksAlone backend i e operands fault := by
  obtain ⟨m, hm⟩ := hfits.starts
  have hm' : Poised I m 0 (operands ++ []) 0 := by rwa [List.append_nil]
  exact ⟨m, hm, h.ends hfits.short (ofTemplate_placed hfits.nodup) hm'⟩

theorem X86.fitsAlone {i : Instruction} {e : Effect} {operands : List UInt32}
    (hemitted : (X86.backend.emit dropContext i e).failure = none)
    (hshort : (X86.backend.emit dropContext i e).code.length ≤ codeLimit)
    (hroom : operands.length ≤ stackCapacity) : FitsAlone X86.backend i e operands :=
  ⟨hshort, (X86.emit_labels dropContext i hemitted).nodup, X86.exists_poised hroom⟩

theorem Mips.fitsAlone {i : Instruction} {e : Effect} {operands : List UInt32}
    (hemitted : (Mips.backend.emit dropContext i e).failure = none)
    (hshort : (Mips.backend.emit dropContext i e).code.length ≤ codeLimit)
    (hroom : operands.length ≤ stackCapacity) : FitsAlone Mips.backend i e operands :=
  ⟨hshort, (Mips.emit_labels dropContext i hemitted).nodup, Mips.exists_poised hroom⟩

end Alone

/-! ## Arithmetic -/

/-- On both targets arithmetic wraps around. -/
theorem arithmetic_wraps_around : WrapsAround X86.backend ∧ WrapsAround Mips.backend :=
  ⟨X86.computesIntegers.wrapsAround, Mips.computesIntegers.wrapsAround⟩

def longSum : Instruction := .placed 0 .add []

def longEffect : Effect := { popped := [.int64, .int64], pushed := [.int64] }

/-- A carry goes from the low word into the high one. -/
theorem arithmetic_wraps_around_carry :
    LeavesAlone X86.backend longSum longEffect [1, 0, 0xFFFFFFFF, 0] [0, 1] ∧
    LeavesAlone Mips.backend longSum longEffect [1, 0, 0xFFFFFFFF, 0] [0, 1] := by
  have hop : longSum.op.operation = .binary .add := rfl
  have hsize : (longEffect.operand 0).size = 8 := rfl
  obtain ⟨hx86, hmips⟩ := arithmetic_wraps_around
  constructor
  · refine Trades.leavesAlone ?_ (X86.fitsAlone rfl (Nat.le_of_ble_eq_true rfl) (by decide))
    exact hx86.binary hop rfl (.inr rfl) hsize 0xFFFFFFFF 1
  · refine Trades.leavesAlone ?_ (Mips.fitsAlone rfl (Nat.le_of_ble_eq_true rfl) (by decide))
    exact hmips.binary hop rfl (.inr rfl) hsize 0xFFFFFFFF 1

/-! ## Shifts -/

/-- On both targets shifts take every count. -/
theorem shifts_take_every_count : ShiftsByAll X86.backend ∧ ShiftsByAll Mips.backend :=
  ⟨X86.computesIntegers.shiftsByAll, Mips.computesIntegers.shiftsByAll⟩

def longShift : Instruction := .placed 0 .shl []

def longShiftEffect : Effect := { popped := [.int32, .int64], pushed := [.int64] }

/-- A shift by one place more than a word. -/
theorem shifts_take_every_count_over :
    LeavesAlone X86.backend longShift longShiftEffect [33, 1, 0] [0, 2] ∧
    LeavesAlone Mips.backend longShift longShiftEffect [33, 1, 0] [0, 2] := by
  have hop : longShift.op.operation = .shift .shl := rfl
  have hsize : (longShiftEffect.operand 1).size = 8 := rfl
  obtain ⟨hx86, hmips⟩ := shifts_take_every_count
  constructor
  · refine Trades.leavesAlone ?_ (X86.fitsAlone rfl (Nat.le_of_ble_eq_true rfl) (by decide))
    exact hx86.long hop hsize (.inl rfl) rfl 1 33
  · refine Trades.leavesAlone ?_ (Mips.fitsAlone rfl (Nat.le_of_ble_eq_true rfl) (by decide))
    exact hmips.long hop hsize (.inl rfl) rfl 1 33

/-! ## Relations -/

/-- On both targets comparisons and branches decide their relations, and a relation of double words is
decided by the high words first and by the low words, without a sign, next. -/
theorem relations_are_decided : (DecidesRelations X86.backend ∧ DecidesRelations Mips.backend) ∧
    ∀ (c : Comparison) (a b : BitVec 64), c.onBits a b =
      (c.highWord?.any (·.onBits (a.extractLsb' 32 32) (b.extractLsb' 32 32)) ||
        a.extractLsb' 32 32 == b.extractLsb' 32 32 &&
          c.lowWord.onBits (a.setWidth 32) (b.setWidth 32)) := by
  refine ⟨⟨X86.computesIntegers.decidesRelations, Mips.computesIntegers.decidesRelations⟩,
    fun c a b => ?_⟩
  have hword : ∀ (c : Comparison) (x y : BitVec 32), decides c [⟨x⟩] [⟨y⟩] = c.onBits x y := by
    intro c x y
    rw [← wordsOf_word, ← wordsOf_word]
    exact decides_wordsOf (.inl rfl) x y c
  have hequal : ((⟨a.extractLsb' 32 32⟩ : UInt32) == ⟨b.extractLsb' 32 32⟩) =
      (a.extractLsb' 32 32 == b.extractLsb' 32 32) := by
    rw [Bool.eq_iff_iff, beq_iff_eq, beq_iff_eq, UInt32.ofBitVec.injEq]
  have hlong := decides_wordsOf (.inr rfl) a b c
  rw [wordsOf_long, wordsOf_long, decides_pair, hequal] at hlong
  simp only [hword] at hlong
  exact hlong.symm

def longCompareEffect : Effect := { popped := [.int64, .int64], pushed := [.int32] }

/-- Minus one is less than one, though its words are not. -/
theorem relations_are_decided_negative :
    LeavesAlone X86.backend compareInstruction longCompareEffect [1, 0, 0xFFFFFFFF, 0xFFFFFFFF] [1] ∧
    LeavesAlone Mips.backend compareInstruction longCompareEffect [1, 0, 0xFFFFFFFF, 0xFFFFFFFF] [1] := by
  have hop : compareInstruction.op.operation = .compare .lt := rfl
  have hsize : (longCompareEffect.operand 0).size = 8 := rfl
  obtain ⟨⟨hx86, hmips⟩, -⟩ := relations_are_decided
  constructor
  · refine Trades.leavesAlone ?_ (X86.fitsAlone rfl (Nat.le_of_ble_eq_true rfl) (by decide))
    exact hx86.compare hop (.inr rfl) hsize (-1) 1
  · refine Trades.leavesAlone ?_ (Mips.fitsAlone rfl (Nat.le_of_ble_eq_true rfl) (by decide))
    exact hmips.compare hop (.inr rfl) hsize (-1) 1

/-! ## Division -/

section Division

variable {ctx : EmitContext} {i : Instruction} {e : Effect} {op : BinaryOp}

/-- Both targets divide words alike, except that of a quotient that is no word x86 makes a fault and
MIPS32 leaves what wraps around. -/
theorem division_agrees (hop : i.op.operation = .binary op) (hdivision : op.isDivision = true)
    (hsize : (e.operand 0).size = 4) (a b : BitVec 32) :
    (b = 0 →
      Stops X86.backend ctx i e (wordsOf b ++ wordsOf a) .divide ∧
      Stops Mips.backend ctx i e (wordsOf b ++ wordsOf a) .divide) ∧
    (b ≠ 0 → ¬QuotientOverflows op a b →
      Trades X86.backend ctx i e (wordsOf b ++ wordsOf a) .next (wordsOf (op.onBits a b)) ∧
      Trades Mips.backend ctx i e (wordsOf b ++ wordsOf a) .next (wordsOf (op.onBits a b))) ∧
    (QuotientOverflows op a b →
      Stops X86.backend ctx i e (wordsOf b ++ wordsOf a) .divide ∧
      Trades Mips.backend ctx i e (wordsOf b ++ wordsOf a) .next (wordsOf (op.onBits a b))) := by
  refine ⟨fun hzero => ?_, fun hzero hfits => ?_, fun hoverflows => ?_⟩
  · subst hzero
    exact ⟨X86.stops_division hop hdivision hsize (.inl rfl), Mips.stops_division hop hdivision hsize a⟩
  · exact ⟨X86.trades_division hop hdivision hsize hzero hfits,
      Mips.trades_division hop hdivision hsize hzero⟩
  · have hzero : b ≠ 0 := by
      rw [hoverflows.2.2]
      decide
    exact ⟨X86.stops_division hop hdivision hsize (.inr hoverflows),
      Mips.trades_division hop hdivision hsize hzero⟩

end Division

def wordQuotient : Instruction := .placed 0 .div []

def wordEffect : Effect := { popped := [.int32, .int32], pushed := [.int32] }

/-- Minus seven divided by two is minus three on both targets, and seven cannot be divided by zero. -/
theorem division_agrees_truncated :
    (LeavesAlone X86.backend wordQuotient wordEffect [2, 0xFFFFFFF9] [0xFFFFFFFD] ∧
      LeavesAlone Mips.backend wordQuotient wordEffect [2, 0xFFFFFFF9] [0xFFFFFFFD]) ∧
    BreaksAlone X86.backend wordQuotient wordEffect [0, 7] .divide ∧
    BreaksAlone Mips.backend wordQuotient wordEffect [0, 7] .divide := by
  have hagrees := @division_agrees dropContext wordQuotient wordEffect .div rfl rfl rfl
  obtain ⟨hx86, hmips⟩ := (hagrees (-7) 2).2.1 (by decide) (by decide)
  obtain ⟨hx86', hmips'⟩ := (hagrees 7 0).1 rfl
  refine ⟨⟨?_, ?_⟩, ?_, ?_⟩
  · exact hx86.leavesAlone (X86.fitsAlone rfl (Nat.le_of_ble_eq_true rfl) (by decide))
  · exact hmips.leavesAlone (Mips.fitsAlone rfl (Nat.le_of_ble_eq_true rfl) (by decide))
  · exact hx86'.breaksAlone (X86.fitsAlone rfl (Nat.le_of_ble_eq_true rfl) (by decide))
  · exact hmips'.breaksAlone (Mips.fitsAlone rfl (Nat.le_of_ble_eq_true rfl) (by decide))

/-- The least word divided by minus one is a fault on x86, though the divisor is not zero, and the least
word again on MIPS32. -/
theorem division_disagrees_least :
    BreaksAlone X86.backend wordQuotient wordEffect [0xFFFFFFFF, 0x80000000] .divide ∧
    LeavesAlone Mips.backend wordQuotient wordEffect [0xFFFFFFFF, 0x80000000] [0x80000000] := by
  constructor
  · exact (@X86.stops_division dropContext wordQuotient wordEffect .div rfl rfl rfl (BitVec.intMin 32) (-1)
      (.inr ⟨rfl, rfl, rfl⟩)).breaksAlone
      (X86.fitsAlone rfl (Nat.le_of_ble_eq_true rfl) (by decide))
  · exact (@Mips.trades_division dropContext wordQuotient wordEffect .div rfl rfl rfl (BitVec.intMin 32) (-1)
      (by decide)).leavesAlone
      (Mips.fitsAlone rfl (Nat.le_of_ble_eq_true rfl) (by decide))

end Stencil
