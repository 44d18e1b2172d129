import Stencil.Proofs.Arithmetic.Bits
import Stencil.Proofs.Execution.Turns

/-!
# Templates that compute with integers

`ComputesIntegers` says of a target that its templates do what the operations mean on words. Then they
do what two's complement says on bits: arithmetic wraps around, shifts take every count, and comparisons
and branches decide their relations.
-/

namespace Stencil

open Meaning Meaning.Value

variable {I R M : Type} [TargetInstr I] [LabelUse I] [Semantics I R M]

/-- The templates of the integer operations do what the operations mean. -/
structure ComputesIntegers (backend : Backend I) : Prop where
  binary : ∀ {ctx : EmitContext} {i : Instruction} {e : Effect} {op : BinaryOp} {a b c : Value},
    i.op.operation = .binary op → Meaning.binary op a b = some c →
    (e.operand 0).size = 4 * b.length → Trades backend ctx i e (b ++ a) .next c
  unary : ∀ {ctx : EmitContext} {i : Instruction} {e : Effect} {op : UnaryOp} {a c : Value},
    i.op.operation = .unary op → Meaning.unary op a = some c →
    (e.operand 0).size = 4 * a.length → Trades backend ctx i e a .next c
  shift : ∀ {ctx : EmitContext} {i : Instruction} {e : Effect} {op : ShiftOp} {a count c : Value},
    i.op.operation = .shift op → Meaning.shift .saturating op a count = some c →
    (e.operand 0).size = 4 * count.length → (e.operand 1).size = 4 * a.length →
    Trades backend ctx i e (count ++ a) .next c
  compare : ∀ {ctx : EmitContext} {i : Instruction} {e : Effect} {op : CompareOp} {a b : Value},
    i.op.operation = .compare op → b.isInteger = true → a.length = b.length →
    (e.operand 0).size = 4 * b.length →
    Trades backend ctx i e (b ++ a) .next [if Meaning.compare op a b then 1 else 0]
  branch : ∀ {ctx : EmitContext} {i : Instruction} {e : Effect} {condition : BranchCondition}
    {target : Int} {l : Label} {a b : Value},
    i.op.operation = .branch condition → condition.operandCount = 2 → i.branchTarget = .ok target →
    ctx.targetLabel i target = .ok l → b.isInteger = true → a.length = b.length →
    (e.operand 0).size = 4 * b.length →
    Trades backend ctx i e (b ++ a) (branchExit (branches condition a b) l) []
  branchZero : ∀ (onZero : Bool) {ctx : EmitContext} {i : Instruction} {e : Effect} {target : Int}
    {l : Label} {a : Value},
    i.op.operation = .branch (if onZero then .isFalse else .isTrue) → i.branchTarget = .ok target →
    ctx.targetLabel i target = .ok l → a.isInteger = true → (e.operand 0).size = 4 * a.length →
    Trades backend ctx i e a (branchExit ((a.toNat == 0) == onZero) l) []

/-! ## On bits -/

/-- Arithmetic on words and double words wraps around: the result replaces the operands, the low word
lowest. -/
structure WrapsAround (backend : Backend I) : Prop where
  binary : ∀ {ctx : EmitContext} {i : Instruction} {e : Effect} {op : BinaryOp} {n : Nat},
    i.op.operation = .binary op → op.isDivision = false → IntegerSize n → (e.operand 0).size = n →
    ∀ a b : BitVec (8 * n),
      Trades backend ctx i e (wordsOf b ++ wordsOf a) .next (wordsOf (op.onBits a b))
  unary : ∀ {ctx : EmitContext} {i : Instruction} {e : Effect} {op : UnaryOp} {n : Nat},
    i.op.operation = .unary op → IntegerSize n → (e.operand 0).size = n →
    ∀ a : BitVec (8 * n), Trades backend ctx i e (wordsOf a) .next (wordsOf (op.onBits a))

/-- Double words are shifted by every count, and words by its lowest five bits unless the count has a
high word that is not zero. -/
structure ShiftsByAll (backend : Backend I) : Prop where
  long : ∀ {ctx : EmitContext} {i : Instruction} {e : Effect} {op : ShiftOp} {k : Nat},
    i.op.operation = .shift op → (e.operand 1).size = 8 → IntegerSize k → (e.operand 0).size = k →
    ∀ (a : BitVec 64) (c : BitVec (8 * k)),
      Trades backend ctx i e (wordsOf c ++ wordsOf a) .next
        (wordsOf (if c.toNat < 64 then op.onBits a c.toNat else op.allOut a))
  word : ∀ {ctx : EmitContext} {i : Instruction} {e : Effect} {op : ShiftOp},
    i.op.operation = .shift op → (e.operand 1).size = 4 → (e.operand 0).size = 4 →
    ∀ a c : BitVec 32,
      Trades backend ctx i e (wordsOf c ++ wordsOf a) .next (wordsOf (op.onBits a (c.toNat % 32)))
  wordByLong : ∀ {ctx : EmitContext} {i : Instruction} {e : Effect} {op : ShiftOp},
    i.op.operation = .shift op → (e.operand 1).size = 4 → (e.operand 0).size = 8 →
    ∀ (a : BitVec 32) (c : BitVec 64),
      Trades backend ctx i e (wordsOf c ++ wordsOf a) .next
        (wordsOf (if c.extractLsb' 32 32 = 0 then op.onBits a ((c.setWidth 32).toNat % 32)
          else op.allOut a))

/-- Comparisons push the answer, and branches go to their target when the relation holds and else to the
end of the template. -/
structure DecidesRelations (backend : Backend I) : Prop where
  compare : ∀ {ctx : EmitContext} {i : Instruction} {e : Effect} {op : CompareOp} {n : Nat},
    i.op.operation = .compare op → IntegerSize n → (e.operand 0).size = n →
    ∀ a b : BitVec (8 * n),
      Trades backend ctx i e (wordsOf b ++ wordsOf a) .next [if op.onBits a b then 1 else 0]
  branch : ∀ {ctx : EmitContext} {i : Instruction} {e : Effect} {condition : BranchCondition}
    {target : Int} {l : Label} {n : Nat},
    i.op.operation = .branch condition → i.branchTarget = .ok target →
    ctx.targetLabel i target = .ok l → IntegerSize n → (e.operand 0).size = n →
    ∀ {a b : BitVec (8 * n)} {taken : Bool}, condition.onBits? a b = some taken →
      Trades backend ctx i e (wordsOf b ++ wordsOf a) (branchExit taken l) []
  branchTrue : ∀ {ctx : EmitContext} {i : Instruction} {e : Effect} {target : Int} {l : Label} {n : Nat},
    i.op.operation = .branch .isTrue → i.branchTarget = .ok target →
    ctx.targetLabel i target = .ok l → IntegerSize n → (e.operand 0).size = n →
    ∀ a : BitVec (8 * n), Trades backend ctx i e (wordsOf a) (branchExit (a != 0) l) []
  branchFalse : ∀ {ctx : EmitContext} {i : Instruction} {e : Effect} {target : Int} {l : Label}
    {n : Nat},
    i.op.operation = .branch .isFalse → i.branchTarget = .ok target →
    ctx.targetLabel i target = .ok l → IntegerSize n → (e.operand 0).size = n →
    ∀ a : BitVec (8 * n), Trades backend ctx i e (wordsOf a) (branchExit (a == 0) l) []

namespace ComputesIntegers

variable {backend : Backend I} (h : ComputesIntegers backend)

include h

theorem wrapsAround : WrapsAround backend where
  binary hop hdivision hn hsize a b :=
    h.binary hop (binary_wordsOf hn a b hdivision) (by rw [hsize, length_wordsOf hn b])
  unary hop hn hsize a := h.unary hop (unary_wordsOf hn a _) (by rw [hsize, length_wordsOf hn a])

theorem shiftsByAll : ShiftsByAll backend where
  long {_ _ _ op _} hop hsize hk hcount a c := by
    have hshift := shift_wordsOf (.inr rfl) hk a c op .saturating
    have hamount : shiftAmount .saturating (wordsOf a).length (wordsOf c) = min c.toNat 64 :=
      congrArg (min · 64) (toNat_wordsOf hk c)
    have hbits : op.onBits a (min c.toNat 64) =
        if c.toNat < 64 then op.onBits a c.toNat else op.allOut a := by
      split
      · rw [Nat.min_eq_left (by omega)]
      · rw [Nat.min_eq_right (by omega), onBits_allOut op a (Nat.le_refl 64)]
    rw [hamount, hbits] at hshift
    exact h.shift hop hshift (by rw [hcount, length_wordsOf hk c]) (by rw [hsize]; rfl)
  word {_ _ _ op} hop hsize hcount a c := by
    have hshift := shift_wordsOf (.inl rfl) (.inl rfl) a c op .saturating
    have hamount : shiftAmount .saturating (wordsOf a).length (wordsOf c) = c.toNat % 32 := by
      rw [wordsOf_word, wordsOf_word]
      exact shiftAmount_integer false ⟨c⟩ 0
    rw [hamount] at hshift
    exact h.shift hop hshift (by rw [hcount]; rfl) (by rw [hsize]; rfl)
  wordByLong {_ _ _ op} hop hsize hcount a c := by
    have hshift := shift_wordsOf (.inl rfl) (.inr rfl) a c op .saturating
    have hamount : shiftAmount .saturating (wordsOf a).length (wordsOf c) =
        if c.extractLsb' 32 32 = 0 then (c.setWidth 32).toNat % 32 else 64 := by
      rw [wordsOf_word, wordsOf_long]
      refine (shiftAmount_integer true ⟨c.setWidth 32⟩ ⟨c.extractLsb' 32 32⟩).trans ?_
      have hzero : (⟨c.extractLsb' 32 32⟩ : UInt32) = 0 ↔ c.extractLsb' 32 32 = 0 :=
        ⟨fun hhigh => congrArg UInt32.toBitVec hhigh, fun hhigh => by rw [hhigh]; rfl⟩
      by_cases hhigh : c.extractLsb' 32 32 = 0
      · rw [if_pos hhigh, if_neg (fun hwide => hwide.2 (hzero.mpr hhigh))]
        rfl
      · rw [if_neg hhigh, if_pos ⟨rfl, fun hword => hhigh (hzero.mp hword)⟩]
    rw [hamount, apply_ite (op.onBits a), onBits_allOut op a (show 32 ≤ 64 by decide)] at hshift
    exact h.shift hop hshift (by rw [hcount]; rfl) (by rw [hsize]; rfl)

theorem decidesRelations : DecidesRelations backend where
  compare {_ _ _ op _} hop hn hsize a b := by
    rw [← compare_wordsOf hn a b op]
    refine h.compare hop (isInteger_wordsOf hn b) ?_ (by rw [hsize, length_wordsOf hn b])
    have ha := length_wordsOf hn a
    have hb := length_wordsOf hn b
    omega
  branch {_ _ _ condition _ _ _} hop htarget hlabel hn hsize {a b taken} htaken := by
    rw [← branches_wordsOf hn a b htaken]
    have hcount : condition.operandCount = 2 := by
      cases condition <;> first | rfl | cases htaken
    refine h.branch hop hcount htarget hlabel (isInteger_wordsOf hn b) ?_
      (by rw [hsize, length_wordsOf hn b])
    have ha := length_wordsOf hn a
    have hb := length_wordsOf hn b
    omega
  branchTrue hop htarget hlabel hn hsize a := by
    have hbranch := h.branchZero false hop htarget hlabel (isInteger_wordsOf hn a)
      (by rw [hsize, length_wordsOf hn a])
    rwa [beq_zero_wordsOf hn, beq_false] at hbranch
  branchFalse hop htarget hlabel hn hsize a := by
    have hbranch := h.branchZero true hop htarget hlabel (isInteger_wordsOf hn a)
      (by rw [hsize, length_wordsOf hn a])
    rwa [beq_zero_wordsOf hn, beq_true] at hbranch

end ComputesIntegers

end Stencil
