import Stencil.Proofs.Meaning.Words
import Stencil.Proofs.Simulation.Effects

/-!
# Integers as bit vectors

The operations of the bytecode on vectors of 32 or 64 bits, as two's complement has them, and the words
that such a vector takes on the stack. The meaning of each operation on words is the operation on bits.
Division rounds towards zero; the quotient of two words is a word, except that of the least number by minus
one.
-/

namespace Stencil

/-- The words of a bit vector, the low one first. -/
def wordsOf {w : Nat} (a : BitVec w) : List UInt32 :=
  (List.range (w / 32)).map fun k => ⟨a.extractLsb' (32 * k) 32⟩

/-! ## Operations on bits -/

section Operations

variable {w : Nat}

/-- Arithmetic wraps around, and quotients are truncated. -/
def BinaryOp.onBits (op : BinaryOp) (a b : BitVec w) : BitVec w :=
  match op with
  | .add => a + b
  | .sub => a - b
  | .mul => a * b
  | .and => a &&& b
  | .or => a ||| b
  | .xor => a ^^^ b
  | .div => a.sdiv b
  | .divUn => a / b
  | .rem => a.srem b
  | .remUn => a % b

def UnaryOp.onBits (op : UnaryOp) (a : BitVec w) : BitVec w :=
  match op with
  | .neg => -a
  | .not => ~~~a

def ShiftOp.onBits (op : ShiftOp) (a : BitVec w) (count : Nat) : BitVec w :=
  match op with
  | .shl => a <<< count
  | .shr => a.sshiftRight count
  | .shrUn => a >>> count

/-- What is left when everything was shifted out. -/
def ShiftOp.allOut (op : ShiftOp) (a : BitVec w) : BitVec w :=
  if op = .shr ∧ a.msb = true then BitVec.allOnes w else 0

def CompareOp.onBits (op : CompareOp) (a b : BitVec w) : Bool :=
  match op with
  | .eq => a == b
  | .gt => b.slt a
  | .gtUn => b.ult a
  | .lt => a.slt b
  | .ltUn => a.ult b

def BranchCondition.onBits? (condition : BranchCondition) (a b : BitVec w) : Option Bool :=
  match condition with
  | .eq => some (a == b)
  | .neUn => some (a != b)
  | .ge => some (b.sle a)
  | .gt => some (b.slt a)
  | .le => some (a.sle b)
  | .lt => some (a.slt b)
  | .geUn => some (b.ule a)
  | .gtUn => some (b.ult a)
  | .leUn => some (a.ule b)
  | .ltUn => some (a.ult b)
  | .always | .isTrue | .isFalse => none

def Comparison.onBits (c : Comparison) (a b : BitVec w) : Bool :=
  match c.relation, c.unsigned with
  | .eq, _ => a == b
  | .ne, _ => a != b
  | .lt, false => a.slt b
  | .le, false => a.sle b
  | .gt, false => b.slt a
  | .ge, false => b.sle a
  | .lt, true => a.ult b
  | .le, true => a.ule b
  | .gt, true => b.ult a
  | .ge, true => b.ule a

end Operations

namespace Meaning

open Value

/-! ## Words and numbers -/

theorem wordsOf_word (a : BitVec 32) : wordsOf a = [⟨a⟩] := by
  show [(⟨a.extractLsb' 0 32⟩ : UInt32)] = _
  rw [BitVec.extractLsb'_eq_self]

theorem wordsOf_long (a : BitVec 64) : wordsOf a = [⟨a.setWidth 32⟩, ⟨a.extractLsb' 32 32⟩] := by
  show [(⟨a.extractLsb' 0 32⟩ : UInt32), ⟨a.extractLsb' 32 32⟩] = _
  rw [BitVec.setWidth_eq_extractLsb' (by decide)]

section Numbers

variable {n : Nat} (hn : IntegerSize n) (a : BitVec (8 * n))

include hn

theorem length_wordsOf : 4 * (wordsOf a).length = n := by
  rcases hn with rfl | rfl <;> rfl

theorem isInteger_wordsOf : isInteger (wordsOf a) = true := by
  rcases hn with rfl | rfl <;> rfl

theorem toNat_wordsOf : toNat (wordsOf a) = a.toNat := by
  rcases hn with rfl | rfl
  · rw [wordsOf_word a, toNat_word]
    rfl
  · have ha : a.toNat < 2 ^ 64 := a.isLt
    rw [wordsOf_long a, toNat_pair]
    show (BitVec.setWidth 32 a).toNat + 0x100000000 * (a.extractLsb' 32 32).toNat = _
    rw [BitVec.toNat_setWidth, BitVec.extractLsb'_toNat, Nat.shiftRight_eq_div_pow]
    omega

theorem toInt_wordsOf : toInt (wordsOf a) = a.toInt := by
  have hlength := length_wordsOf hn a
  have hwidth : 32 * (wordsOf a).length = 8 * n := by omega
  rw [toInt, toNat_wordsOf hn, hwidth, BitVec.toInt_eq_toNat_bmod]

theorem ofInt_eq_wordsOf (k : Int) : ofInt (wordsOf a).length k = wordsOf (BitVec.ofInt (8 * n) k) := by
  rcases hn with rfl | rfl
  · rw [wordsOf_word, wordsOf_word, List.length_singleton, ofInt_word]
    refine congrArg (fun u => [u]) (UInt32.toNat_inj.mp ?_)
    show (BitVec.ofNat 32 (k % 2 ^ 32).toNat).toNat = (BitVec.ofInt 32 k).toNat
    rw [BitVec.toNat_ofNat, BitVec.toNat_ofInt]
    omega
  · rw [wordsOf_long a]
    refine ofInt_two_eq ?_ |>.trans (wordsOf_long _).symm
    rw [← wordsOf_long, toNat_wordsOf (.inr rfl) (BitVec.ofInt 64 k), BitVec.toNat_ofInt]
    omega

end Numbers

/-! ## Operations -/

theorem ofInt_toNat_bits {w : Nat} (a : BitVec w) : BitVec.ofInt w a.toNat = a := by
  rw [BitVec.ofInt_natCast, BitVec.ofNat_toNat, BitVec.setWidth_eq]

theorem ofInt_sub_bits {w : Nat} (a b : BitVec w) : BitVec.ofInt w (a.toNat - b.toNat) = a - b := by
  rw [Int.sub_eq_add_neg, BitVec.ofInt_add, BitVec.ofInt_neg, ofInt_toNat_bits, ofInt_toNat_bits,
    BitVec.sub_eq_add_neg]

section Operations

variable {n : Nat} (hn : IntegerSize n) (a b : BitVec (8 * n))

/-- Bitwise operations act word by word. -/
theorem zipWith_wordsOf {w : Nat} (f : UInt32 → UInt32 → UInt32) (g : BitVec w → BitVec w → BitVec w)
    (h : ∀ (a b : BitVec w) k, f ⟨a.extractLsb' (32 * k) 32⟩ ⟨b.extractLsb' (32 * k) 32⟩ =
      ⟨(g a b).extractLsb' (32 * k) 32⟩) (a b : BitVec w) :
    List.zipWith f (wordsOf a) (wordsOf b) = wordsOf (g a b) := by
  rw [wordsOf, wordsOf, List.zipWith_map, List.zipWith_self]
  exact List.map_congr_left fun k _ => h a b k

include hn

theorem binary_wordsOf {op : BinaryOp} (hop : op.isDivision = false) :
    binary op (wordsOf a) (wordsOf b) = some (wordsOf (op.onBits a b)) := by
  have hlength : (wordsOf a).length = (wordsOf b).length := by
    have ha := length_wordsOf hn a
    have hb := length_wordsOf hn b
    omega
  unfold binary
  rw [isInteger_wordsOf hn, hlength, beq_self_eq_true, Bool.true_and, if_pos rfl, ← hlength]
  cases op with
  | add =>
    dsimp only
    rw [toNat_wordsOf hn, toNat_wordsOf hn, ofInt_eq_wordsOf hn, BitVec.ofInt_add, ofInt_toNat_bits,
      ofInt_toNat_bits]
    rfl
  | sub =>
    dsimp only
    rw [toNat_wordsOf hn, toNat_wordsOf hn, ofInt_eq_wordsOf hn, ofInt_sub_bits]
    rfl
  | mul =>
    dsimp only
    rw [toNat_wordsOf hn, toNat_wordsOf hn, ofInt_eq_wordsOf hn, BitVec.ofInt_mul, ofInt_toNat_bits,
      ofInt_toNat_bits]
    rfl
  | and =>
    refine congrArg some (zipWith_wordsOf _ (· &&& ·) (fun a b k => ?_) a b)
    rw [BitVec.extractLsb'_and]
    rfl
  | or =>
    refine congrArg some (zipWith_wordsOf _ (· ||| ·) (fun a b k => ?_) a b)
    rw [BitVec.extractLsb'_or]
    rfl
  | xor =>
    refine congrArg some (zipWith_wordsOf _ (· ^^^ ·) (fun a b k => ?_) a b)
    rw [BitVec.extractLsb'_xor]
    rfl
  | div | divUn | rem | remUn => cases hop

theorem unary_wordsOf (op : UnaryOp) : unary op (wordsOf a) = some (wordsOf (op.onBits a)) := by
  unfold unary
  rw [isInteger_wordsOf hn, if_pos rfl]
  cases op with
  | neg =>
    dsimp only
    rw [toNat_wordsOf hn, ofInt_eq_wordsOf hn, BitVec.ofInt_neg, ofInt_toNat_bits]
    rfl
  | not =>
    refine congrArg some ?_
    show (wordsOf a).map (~~~·) = wordsOf (~~~a)
    rw [wordsOf, List.map_map]
    refine List.map_congr_left fun k hk => ?_
    have hinside : 32 * k + 32 ≤ 8 * n := by
      have := List.mem_range.mp hk
      omega
    refine UInt32.eq_of_toBitVec_eq ?_
    show ~~~(a.extractLsb' (32 * k) 32) = (~~~a).extractLsb' (32 * k) 32
    ext j hj
    simp only [BitVec.getElem_not, BitVec.getElem_extractLsb', BitVec.getLsbD_not]
    have hbit : 32 * k + j < 8 * n := by omega
    simp [hbit]

theorem compare_wordsOf (op : CompareOp) :
    compare op (wordsOf a) (wordsOf b) = op.onBits a b := by
  unfold compare CompareOp.onBits
  rw [toNat_wordsOf hn, toNat_wordsOf hn, toInt_wordsOf hn, toInt_wordsOf hn]
  cases op with
  | eq => exact Bool.eq_iff_iff.mpr (by rw [decide_eq_true_eq, beq_iff_eq, BitVec.toNat_inj])
  | gt | gtUn | lt | ltUn => rfl

theorem decides_wordsOf (c : Comparison) : decides c (wordsOf a) (wordsOf b) = c.onBits a b := by
  unfold decides Comparison.onBits
  rw [toNat_wordsOf hn, toNat_wordsOf hn, toInt_wordsOf hn, toInt_wordsOf hn]
  obtain ⟨relation, unsigned⟩ := c
  cases relation with
  | eq => exact Bool.eq_iff_iff.mpr (by simp [BitVec.toNat_inj])
  | ne => exact Bool.eq_iff_iff.mpr (by simp [BitVec.toNat_inj])
  | lt | le | gt | ge => cases unsigned <;> rfl

theorem beq_zero_wordsOf : (toNat (wordsOf a) == 0) = (a == 0) := by
  have hzero : a = 0 ↔ a.toNat = 0 := BitVec.toNat_inj.symm
  rw [toNat_wordsOf hn, Bool.eq_iff_iff, beq_iff_eq, beq_iff_eq, hzero]

theorem branches_wordsOf {condition : BranchCondition} {taken : Bool}
    (h : condition.onBits? a b = some taken) :
    branches condition (wordsOf a) (wordsOf b) = taken := by
  unfold branches
  rw [toNat_wordsOf hn, toNat_wordsOf hn, toInt_wordsOf hn, toInt_wordsOf hn]
  cases condition with
  | eq | neUn =>
    obtain rfl := Option.some.inj h
    exact Bool.eq_iff_iff.mpr (by simp [BitVec.toNat_inj])
  | ge | gt | le | lt | geUn | gtUn | leUn | ltUn =>
    obtain rfl := Option.some.inj h
    rfl
  | always | isTrue | isFalse => cases h

end Operations

/-! ## Shifts -/

section Shifts

variable {n : Nat} (hn : IntegerSize n) {k : Nat} (hk : IntegerSize k) (a : BitVec (8 * n))
  (c : BitVec (8 * k)) (op : ShiftOp)

theorem ofInt_shiftLeft {w : Nat} (a : BitVec w) (s : Nat) :
    BitVec.ofInt w (a.toNat * 2 ^ s) = a <<< s := by
  rw [← natCast_two_pow, ← Int.natCast_mul, BitVec.ofInt_natCast]
  refine BitVec.eq_of_toNat_eq ?_
  rw [BitVec.toNat_ofNat, BitVec.toNat_shiftLeft, Nat.shiftLeft_eq]

theorem ofInt_sshiftRight {w : Nat} (a : BitVec w) (s : Nat) :
    BitVec.ofInt w (a.toInt / 2 ^ s) = a.sshiftRight s := by
  rw [← natCast_two_pow, ← Int.shiftRight_eq_div_pow, ← BitVec.toInt_sshiftRight, BitVec.ofInt_toInt]

theorem ofInt_ushiftRight {w : Nat} (a : BitVec w) (s : Nat) :
    BitVec.ofInt w (a.toNat / 2 ^ s) = a >>> s := by
  rw [← natCast_two_pow, ← Int.natCast_ediv, ← Nat.shiftRight_eq_div_pow, ← BitVec.toNat_ushiftRight,
    ofInt_toNat_bits]

include hn hk

theorem shift_wordsOf (rule : CountRule) :
    shift rule op (wordsOf a) (wordsOf c) =
      some (wordsOf (op.onBits a (shiftAmount rule (wordsOf a).length (wordsOf c)))) := by
  have ha := isInteger_wordsOf hn a
  have hc := isInteger_wordsOf hk c
  cases op with
  | shl =>
    rw [shift_shl rule ha hc, toNat_wordsOf hn, ofInt_eq_wordsOf hn, ofInt_shiftLeft]
    rfl
  | shr =>
    rw [shift_shr rule ha hc, toInt_wordsOf hn, ofInt_eq_wordsOf hn, ofInt_sshiftRight]
    rfl
  | shrUn =>
    rw [shift_shrUn rule ha hc, toNat_wordsOf hn, ofInt_eq_wordsOf hn, ofInt_ushiftRight]
    rfl

end Shifts

/-- Everything is out after as many places as there are bits. -/
theorem onBits_allOut {w : Nat} (op : ShiftOp) (a : BitVec w) {s : Nat} (hs : w ≤ s) :
    op.onBits a s = op.allOut a := by
  unfold ShiftOp.onBits ShiftOp.allOut
  cases op with
  | shl => exact BitVec.shiftLeft_eq_zero hs
  | shrUn => exact BitVec.ushiftRight_eq_zero hs
  | shr =>
    ext j hj
    by_cases hmsb : a.msb = true
    · simp [hmsb, BitVec.getElem_sshiftRight, show ¬s + j < w by omega]
    · simp [hmsb, BitVec.getElem_sshiftRight, show ¬s + j < w by omega]

end Meaning

/-! ## Quotients and remainders of words -/

section Quotients

def BinaryOp.dividesSigned : BinaryOp → Bool
  | .div | .rem => true
  | _ => false

/-- The quotient of the least number by minus one is no word. -/
def QuotientOverflows (op : BinaryOp) (a b : BitVec 32) : Prop :=
  op.dividesSigned = true ∧ a = BitVec.intMin 32 ∧ b = -1

instance (op : BinaryOp) (a b : BitVec 32) : Decidable (QuotientOverflows op a b) :=
  inferInstanceAs (Decidable (_ ∧ _ ∧ _))

namespace Meaning

open Value

/-- Only one quotient of signed words is out of range. -/
theorem tdiv_in_range {x y : Int} (hlow : -0x80000000 ≤ x) (hhigh : x < 0x80000000) (hy : y ≠ 0) :
    (x.tdiv y < -0x80000000 ∨ 0x80000000 ≤ x.tdiv y) ↔ x = -0x80000000 ∧ y = -1 := by
  have habs : (x.tdiv y).natAbs = x.natAbs / y.natAbs := Int.natAbs_tdiv x y
  by_cases hunit : y.natAbs = 1
  · rcases (show y = 1 ∨ y = -1 by omega) with rfl | rfl
    · rw [Int.tdiv_one]
      omega
    · rw [Int.tdiv_neg, Int.tdiv_one]
      omega
  · have hhalf : x.natAbs / y.natAbs ≤ x.natAbs / 2 := Nat.div_le_div_left (by omega) (by decide)
    omega

section Words

variable (a b : UInt32)

theorem toInt_word_bits : toInt [a] = a.toBitVec.toInt := toInt_word_eq a

theorem ofInt_tdiv : UInt32.ofInt ((toInt [a]).tdiv (toInt [b])) = ⟨a.toBitVec.sdiv b.toBitVec⟩ := by
  rw [← toUInt32_ofInt, toInt_word_bits, toInt_word_bits]
  refine UInt32.eq_of_toBitVec_eq ?_
  show BitVec.ofInt 32 _ = _
  refine BitVec.eq_of_toInt_eq ?_
  rw [BitVec.toInt_ofInt, BitVec.toInt_sdiv]

theorem ofInt_tmod : UInt32.ofInt ((toInt [a]).tmod (toInt [b])) = ⟨a.toBitVec.srem b.toBitVec⟩ := by
  rw [← toUInt32_ofInt, toInt_word_bits, toInt_word_bits, ← BitVec.toInt_srem]
  refine UInt32.eq_of_toBitVec_eq ?_
  exact BitVec.ofInt_toInt

theorem toInt_word_eq_zero : toInt [b] = 0 ↔ b = 0 := by
  have hb := b.toNat_lt
  rw [toInt_word, ← UInt32.toNat_inj, UInt32.toNat_zero]
  omega

theorem tdiv_overflows (hb : b ≠ 0) :
    ((toInt [a]).tdiv (toInt [b]) < -0x80000000 ∨ 0x80000000 ≤ (toInt [a]).tdiv (toInt [b])) ↔
      a.toBitVec = BitVec.intMin 32 ∧ b.toBitVec = -1 := by
  have ha : -0x80000000 ≤ toInt [a] ∧ toInt [a] < 0x80000000 := by
    have ha := a.toNat_lt
    rw [toInt_word]
    omega
  rw [tdiv_in_range ha.1 ha.2 (fun hzero => hb ((toInt_word_eq_zero b).mp hzero)), toInt_word_bits,
    toInt_word_bits, ← BitVec.toInt_inj, ← BitVec.toInt_inj]
  exact Iff.rfl

end Words

end Meaning

end Quotients

end Stencil
