import Stencil.Proofs.Meaning.Interpreter
import Stencil.Target.Comparison
import Mathlib.Data.UInt
import Mathlib.Tactic.Ring

/-!
# Operations on numbers as operations on words

A machine computes with words. What the meaning of an operation is on single words and on pairs of
words is stated here as templates compute it: carries and borrows between the halves, high words that
decide a comparison, bits that cross from one word into the other.
-/

namespace Stencil.Meaning

open Value

namespace Value

@[simp] theorem toNat_word (a : UInt32) : toNat [a] = a.toNat := by
  rw [toNat, toNat, Nat.mul_zero, Nat.add_zero]

@[simp] theorem toNat_pair (a₀ a₁ : UInt32) :
    toNat [a₀, a₁] = a₀.toNat + 0x100000000 * a₁.toNat := by
  rw [toNat, toNat_word]

@[simp] theorem ofInt_word (n : Int) : ofInt 1 n = [UInt32.ofInt n] := rfl

@[simp] theorem ofInt_pair (n : Int) :
    ofInt 2 n = [UInt32.ofInt n, UInt32.ofInt (n / 0x100000000)] := rfl

theorem toInt_word (a : UInt32) :
    toInt [a] = if a.toNat < 0x80000000 then (a.toNat : Int) else a.toNat - 0x100000000 := by
  have ha := a.toNat_lt
  show Int.bmod (a.toNat : Int) (2 ^ 32) = _
  rw [Int.bmod_def]
  omega

theorem toInt_pair (a₀ a₁ : UInt32) : toInt [a₀, a₁] = a₀.toNat + 0x100000000 * toInt [a₁] := by
  have ha₀ := a₀.toNat_lt
  have ha₁ := a₁.toNat_lt
  rw [toInt_word]
  show Int.bmod ((a₀.toNat + 0x100000000 * a₁.toNat : Nat) : Int) (2 ^ 64) = _
  rw [Int.bmod_def]
  omega

theorem toInt_word_eq (a : UInt32) : toInt [a] = a.toInt32.toInt := by
  show Int.bmod (a.toNat : Int) (2 ^ 32) = a.toInt32.toBitVec.toInt
  rw [BitVec.toInt_eq_toNat_bmod]
  rfl

end Value

theorem ofInt_natCast (n : Nat) : UInt32.ofInt n = UInt32.ofNat n := UInt32.intCast_ofNat n

theorem ofInt_toNat (a : UInt32) : UInt32.ofInt a.toNat = a := by
  rw [ofInt_natCast, UInt32.ofNat_toNat]

theorem ofInt_eq_of_emod {m n : Int} (h : m % 0x100000000 = n % 0x100000000) :
    UInt32.ofInt m = UInt32.ofInt n := by
  have hsplit : ∀ k : Int, UInt32.ofInt k = UInt32.ofInt (k % 0x100000000) := by
    intro k
    have hk : UInt32.ofInt (k % 0x100000000 + 0x100000000 * (k / 0x100000000)) =
        UInt32.ofInt (k % 0x100000000) + 0 * UInt32.ofInt (k / 0x100000000) := by
      rw [UInt32.ofInt_add, UInt32.ofInt_mul]
      rfl
    rw [UInt32.zero_mul, UInt32.add_zero, Int.emod_add_mul_ediv] at hk
    exact hk
  rw [hsplit m, hsplit n, h]

theorem ofInt_toInt (a : UInt32) : UInt32.ofInt (toInt [a]) = a := by
  rw [← ofInt_toNat a]
  refine ofInt_eq_of_emod ?_
  rw [ofInt_toNat, toInt_word]
  omega

theorem ofInt_sub (m n : Int) : UInt32.ofInt (m - n) = UInt32.ofInt m - UInt32.ofInt n := by
  rw [Int.sub_eq_add_neg, UInt32.ofInt_add, UInt32.ofInt_neg, UInt32.sub_eq_add_neg]

theorem toUInt32_ofInt (n : Int) : (Int32.ofInt n).toUInt32 = UInt32.ofInt n := by
  have hofInt : UInt32.ofInt n = UInt32.ofNat (n % 2 ^ 32).toNat := rfl
  rw [hofInt, ← UInt32.toNat_inj, UInt32.toNat_ofNat', ← UInt32.toNat_toBitVec]
  show (BitVec.ofInt 32 n).toNat = _
  rw [BitVec.toNat_ofInt]
  omega

theorem ofInt_two_eq {n : Int} {w₀ w₁ : UInt32}
    (h : n % 0x10000000000000000 = (toNat [w₀, w₁] : Nat)) : ofInt 2 n = [w₀, w₁] := by
  have hw₀ := w₀.toNat_lt
  have hw₁ := w₁.toNat_lt
  rw [toNat_pair] at h
  have hlow : UInt32.ofInt n = w₀ := by
    rw [← ofInt_toNat w₀]
    refine ofInt_eq_of_emod ?_
    omega
  have hhigh : UInt32.ofInt (n / 0x100000000) = w₁ := by
    rw [← ofInt_toNat w₁]
    refine ofInt_eq_of_emod ?_
    omega
  rw [ofInt_pair, hlow, hhigh]

theorem ofInt_long (n : Int64) :
    ofInt 2 n.toInt = [n.toUInt64.toUInt32, (n.toUInt64 >>> 32).toUInt32] := by
  refine ofInt_two_eq ?_
  have hbits : n.toInt % 0x10000000000000000 = (n.toUInt64.toNat : Int) := by
    show n.toBitVec.toInt % _ = (n.toBitVec.toNat : Int)
    have hlt := n.toBitVec.isLt
    rw [BitVec.toInt_eq_toNat_bmod, Int.bmod_def]
    omega
  have hlt := n.toUInt64.toNat_lt
  rw [hbits, toNat_pair, UInt64.toNat_toUInt32, UInt64.toNat_toUInt32, UInt64.toNat_shiftRight,
    Nat.shiftRight_eq_div_pow]
  show (n.toUInt64.toNat : Int) =
    ((n.toUInt64.toNat % 2 ^ 32 + 0x100000000 * (n.toUInt64.toNat / 2 ^ 32 % 2 ^ 32) : Nat) : Int)
  omega

theorem isInteger_cases {v : Value} (h : v.isInteger = true) :
    (∃ a, v = [a]) ∨ ∃ a₀ a₁, v = [a₀, a₁] := by
  cases v with
  | nil => cases h
  | cons a rest =>
    cases rest with
    | nil => exact .inl ⟨a, rfl⟩
    | cons a₁ rest =>
      cases rest with
      | nil => exact .inr ⟨a, a₁, rfl⟩
      | cons _ _ => simp [isInteger] at h

def integer (wide : Bool) (low high : UInt32) : Value := if wide then [low, high] else [low]

theorem isInteger_integer (wide : Bool) (low high : UInt32) : (integer wide low high).isInteger = true := by
  cases wide <;> rfl

theorem toNat_integer_mod (wide : Bool) (low high : UInt32) :
    (integer wide low high).toNat % 0x100000000 = low.toNat := by
  have hlow := low.toNat_lt
  cases wide with
  | false =>
    show toNat [low] % 0x100000000 = _
    rw [toNat_word]
    omega
  | true =>
    show toNat [low, high] % 0x100000000 = _
    rw [toNat_pair]
    omega

/-- More than a word can spell takes a high word that is not zero. -/
theorem le_toNat_integer (wide : Bool) (low high : UInt32) :
    0x100000000 ≤ (integer wide low high).toNat ↔ wide = true ∧ high ≠ 0 := by
  have hlow := low.toNat_lt
  cases wide with
  | false =>
    show 0x100000000 ≤ toNat [low] ↔ _
    rw [toNat_word]
    simp
    omega
  | true =>
    show 0x100000000 ≤ toNat [low, high] ↔ _
    rw [toNat_pair, ne_eq, ← UInt32.toNat_inj, UInt32.toNat_zero]
    simp
    omega

/-- Operations on two integers take two words or two double words. -/
theorem binary_shapes {op : BinaryOp} {a b c : Value} (h : binary op a b = some c) :
    (∃ x y, a = [x] ∧ b = [y]) ∨ ∃ x₀ x₁ y₀ y₁, a = [x₀, x₁] ∧ b = [y₀, y₁] := by
  unfold binary at h
  split at h
  · rename_i hshape
    obtain ⟨ha, hlength⟩ := Bool.and_eq_true_iff.mp hshape
    have hlength := eq_of_beq hlength
    rcases isInteger_cases ha with ⟨x, rfl⟩ | ⟨x₀, x₁, rfl⟩
    · obtain ⟨y, rfl⟩ := List.length_eq_one_iff.mp hlength.symm
      exact .inl ⟨x, y, rfl, rfl⟩
    · obtain ⟨y₀, y₁, rfl⟩ := List.length_eq_two.mp hlength.symm
      exact .inr ⟨x₀, x₁, y₀, y₁, rfl, rfl⟩
  · cases h

/-- Operations on one integer take a word or a double word. -/
theorem unary_shapes {op : UnaryOp} {a c : Value} (h : unary op a = some c) :
    (∃ x, a = [x]) ∨ ∃ x₀ x₁, a = [x₀, x₁] := by
  unfold unary at h
  split at h
  · rename_i ha
    exact isInteger_cases ha
  · cases h

/-! ## Widths -/

theorem length_ofInt (words : Nat) (n : Int) : (ofInt words n).length = words := by
  induction words generalizing n with
  | zero => rfl
  | succ words ih => rw [ofInt, List.length_cons, ih]

theorem length_binary {op : BinaryOp} {a b c : Value} (h : binary op a b = some c) : c.length = a.length := by
  unfold binary at h
  split at h
  · rename_i hshape
    have hlength := eq_of_beq (Bool.and_eq_true_iff.mp hshape).2
    cases op <;> first
      | (obtain rfl := Option.some.inj h; exact length_ofInt _ _)
      | (obtain rfl := Option.some.inj h; rw [List.length_zipWith, ← hlength, Nat.min_self])
      | cases h
  · cases h

theorem length_unary {op : UnaryOp} {a c : Value} (h : unary op a = some c) : c.length = a.length := by
  unfold unary at h
  split at h
  · cases op with
    | neg =>
      obtain rfl := Option.some.inj h
      exact length_ofInt _ _
    | not =>
      obtain rfl := Option.some.inj h
      exact List.length_map _
  · cases h

theorem length_shift {rule : CountRule} {op : ShiftOp} {a count c : Value}
    (h : shift rule op a count = some c) : c.length = a.length := by
  unfold shift at h
  split at h
  · cases op <;> obtain rfl := Option.some.inj h <;> exact length_ofInt _ _
  · cases h

theorem length_convert {target : ConvTarget} {a c : Value} (h : convert target a = some c) :
    4 * c.length = if target.valueSize 4 = 8 then 8 else 4 := by
  unfold convert at h
  split at h
  · obtain rfl := Option.some.inj h
    rw [length_ofInt]
    split <;> split <;> omega
  · cases h

/-! ## Arithmetic -/

section Arithmetic

variable (a b a₀ a₁ b₀ b₁ : UInt32)

theorem binary_add_word : binary .add [a] [b] = some [a + b] := by
  show some [UInt32.ofInt (a.toNat + b.toNat)] = _
  rw [UInt32.ofInt_add, ofInt_toNat, ofInt_toNat]

theorem binary_sub_word : binary .sub [a] [b] = some [a - b] := by
  show some [UInt32.ofInt (a.toNat - b.toNat)] = _
  rw [ofInt_sub, ofInt_toNat, ofInt_toNat]

theorem binary_mul_word : binary .mul [a] [b] = some [a * b] := by
  show some [UInt32.ofInt (a.toNat * b.toNat)] = _
  rw [UInt32.ofInt_mul, ofInt_toNat, ofInt_toNat]

def carry : UInt32 := if 0x100000000 ≤ a.toNat + b.toNat then 1 else 0

def borrow : UInt32 := if a < b then 1 else 0

theorem toNat_carry_of_le (h : 0x100000000 ≤ a.toNat + b.toNat) : (carry a b).toNat = 1 := by
  rw [carry, if_pos h]
  rfl

theorem toNat_carry_of_lt (h : ¬0x100000000 ≤ a.toNat + b.toNat) : (carry a b).toNat = 0 := by
  rw [carry, if_neg h]
  rfl

theorem toNat_borrow_of_lt (h : a.toNat < b.toNat) : (borrow a b).toNat = 1 := by
  rw [borrow, if_pos (UInt32.lt_iff_toNat_lt.mpr h)]
  rfl

theorem toNat_borrow_of_ge (h : ¬a.toNat < b.toNat) : (borrow a b).toNat = 0 := by
  rw [borrow, if_neg (fun hlt => h (UInt32.lt_iff_toNat_lt.mp hlt))]
  rfl

theorem binary_add_pair :
    binary .add [a₀, a₁] [b₀, b₁] = some [a₀ + b₀, a₁ + b₁ + carry a₀ b₀] := by
  refine congrArg some (ofInt_two_eq ?_)
  have ha₀ := a₀.toNat_lt
  have hb₀ := b₀.toNat_lt
  simp only [toNat_pair, UInt32.toNat_add]
  by_cases h : 0x100000000 ≤ a₀.toNat + b₀.toNat
  · rw [toNat_carry_of_le _ _ h]
    omega
  · rw [toNat_carry_of_lt _ _ h]
    omega

theorem binary_sub_pair :
    binary .sub [a₀, a₁] [b₀, b₁] = some [a₀ - b₀, a₁ - b₁ - borrow a₀ b₀] := by
  refine congrArg some (ofInt_two_eq ?_)
  have ha₀ := a₀.toNat_lt
  have hb₀ := b₀.toNat_lt
  have ha₁ := a₁.toNat_lt
  have hb₁ := b₁.toNat_lt
  simp only [toNat_pair, UInt32.toNat_sub]
  by_cases h : a₀.toNat < b₀.toNat
  · rw [toNat_borrow_of_lt _ _ h]
    omega
  · rw [toNat_borrow_of_ge _ _ h]
    omega

def productHigh : UInt32 := UInt32.ofNat (a.toNat * b.toNat / 0x100000000)

/-- The product of the high words does not matter, and the cross products reach the high word
only. -/
theorem binary_mul_pair : binary .mul [a₀, a₁] [b₀, b₁] =
    some [a₀ * b₀, productHigh a₀ b₀ + a₁ * b₀ + a₀ * b₁] := by
  refine congrArg some (ofInt_two_eq ?_)
  have hproduct : (toNat [a₀, a₁] * toNat [b₀, b₁] : Nat) =
      a₀.toNat * b₀.toNat + 0x100000000 * (a₁.toNat * b₀.toNat + a₀.toNat * b₁.toNat) +
        0x10000000000000000 * (a₁.toNat * b₁.toNat) := by
    rw [toNat_pair, toNat_pair]
    ring
  rw [← Int.natCast_mul, hproduct]
  simp only [productHigh, toNat_pair, UInt32.toNat_add, UInt32.toNat_mul, UInt32.toNat_ofNat']
  generalize a₀.toNat * b₀.toNat = low
  generalize a₁.toNat * b₀.toNat = cross
  generalize a₀.toNat * b₁.toNat = cross'
  generalize a₁.toNat * b₁.toNat = high
  omega

theorem unary_neg_word : unary .neg [a] = some [0 - a] := by
  show some [UInt32.ofInt (-a.toNat)] = _
  rw [UInt32.ofInt_neg, ofInt_toNat, UInt32.zero_sub]

theorem unary_neg_pair :
    unary .neg [a₀, a₁] = some [0 - a₀, 0 - a₁ - borrow 0 a₀] := by
  refine congrArg some (ofInt_two_eq ?_)
  have ha₀ := a₀.toNat_lt
  have ha₁ := a₁.toNat_lt
  simp only [toNat_pair, UInt32.toNat_sub]
  by_cases h : (0 : UInt32).toNat < a₀.toNat
  · rw [toNat_borrow_of_lt _ _ h]
    rw [UInt32.toNat_zero] at h ⊢
    omega
  · rw [toNat_borrow_of_ge _ _ h]
    rw [UInt32.toNat_zero] at h ⊢
    omega

end Arithmetic

/-! ## Comparisons -/

def decides (c : Comparison) (a b : Value) : Bool :=
  match c.relation, c.unsigned with
  | .eq, _ => a.toNat = b.toNat
  | .ne, _ => a.toNat ≠ b.toNat
  | .lt, false => a.toInt < b.toInt
  | .le, false => a.toInt ≤ b.toInt
  | .gt, false => b.toInt < a.toInt
  | .ge, false => b.toInt ≤ a.toInt
  | .lt, true => a.toNat < b.toNat
  | .le, true => a.toNat ≤ b.toNat
  | .gt, true => b.toNat < a.toNat
  | .ge, true => b.toNat ≤ a.toNat

theorem compare_eq_decides (op : CompareOp) (a b : Value) :
    compare op a b = decides (.ofCompare op) a b := by
  cases op <;> rfl

theorem branches_eq_decides {condition : BranchCondition} {c : Comparison}
    (h : Comparison.ofBranch? condition = some c) (a b : Value) :
    branches condition a b = decides c a b := by
  cases condition <;> first | cases h; rfl | cases h

/-- The halves of a value, of which the high one carries the sign. -/
structure Halves (a low high : Value) : Prop where
  low_lt : low.toNat < 0x100000000
  toNat_eq : a.toNat = low.toNat + 0x100000000 * high.toNat
  toInt_eq : a.toInt = low.toNat + 0x100000000 * high.toInt

theorem halves_pair (a₀ a₁ : UInt32) : Halves [a₀, a₁] [a₀] [a₁] where
  low_lt := by
    rw [toNat_word]
    exact a₀.toNat_lt
  toNat_eq := by rw [toNat_pair, toNat_word, toNat_word]
  toInt_eq := by rw [toInt_pair, toNat_word]

/-- High halves that differ decide, unless they have to be equal; else the low halves do. -/
theorem decides_halves (c : Comparison) {a b a₀ a₁ b₀ b₁ : Value} (ha : Halves a a₀ a₁)
    (hb : Halves b b₀ b₁) (hsigned : a₁.toNat = b₁.toNat ↔ a₁.toInt = b₁.toInt) :
    decides c a b = true ↔ c.highWord?.any (decides · a₁ b₁) = true ∨
      a₁.toNat = b₁.toNat ∧ decides c.lowWord a₀ b₀ = true := by
  obtain ⟨halow, hanat, haint⟩ := ha
  obtain ⟨hblow, hbnat, hbint⟩ := hb
  obtain ⟨relation, unsigned⟩ := c
  cases relation <;> cases unsigned <;>
    simp only [decides, Comparison.highWord?, Comparison.lowWord, Option.any_some, Option.any_none,
      decide_eq_true_eq, Bool.false_eq_true, false_or] <;>
    omega

theorem decides_pair (c : Comparison) (a₀ a₁ b₀ b₁ : UInt32) :
    decides c [a₀, a₁] [b₀, b₁] =
      (c.highWord?.any (decides · [a₁] [b₁]) || a₁ == b₁ && decides c.lowWord [a₀] [b₀]) := by
  have hsigned : toNat [a₁] = toNat [b₁] ↔ toInt [a₁] = toInt [b₁] := by
    have ha₁ := a₁.toNat_lt
    have hb₁ := b₁.toNat_lt
    rw [toInt_word, toInt_word, toNat_word, toNat_word]
    omega
  rw [Bool.eq_iff_iff, decides_halves c (halves_pair a₀ a₁) (halves_pair b₀ b₁) hsigned,
    Bool.or_eq_true, Bool.and_eq_true, beq_iff_eq, toNat_word, toNat_word, UInt32.toNat_inj]

theorem beq_zero_word (a : UInt32) : (a == 0) = (toNat [a] == 0) := by
  rw [toNat_word, Bool.eq_iff_iff, beq_iff_eq, beq_iff_eq, ← UInt32.toNat_inj, UInt32.toNat_zero]

/-- Both words are zero when all their bits together are. -/
theorem or_beq_zero (a₀ a₁ : UInt32) : (a₀ ||| a₁ == 0) = (toNat [a₀, a₁] == 0) := by
  rw [Bool.eq_iff_iff, beq_iff_eq, beq_iff_eq, toNat_pair, UInt32.or_eq_zero_iff, ← UInt32.toNat_inj,
    ← UInt32.toNat_inj, UInt32.toNat_zero]
  omega

/-! ## Shifts -/

section Shift

variable (rule : CountRule) {a count : Value} (ha : a.isInteger = true)
  (hcount : count.isInteger = true)

include ha hcount

theorem shift_shl : shift rule .shl a count =
    some (ofInt a.length (a.toNat * 2 ^ shiftAmount rule a.length count)) := by
  unfold shift
  rw [ha, hcount]
  rfl

theorem shift_shr : shift rule .shr a count =
    some (ofInt a.length (a.toInt / 2 ^ shiftAmount rule a.length count)) := by
  unfold shift
  rw [ha, hcount]
  rfl

theorem shift_shrUn : shift rule .shrUn a count =
    some (ofInt a.length (a.toNat / 2 ^ shiftAmount rule a.length count)) := by
  unfold shift
  rw [ha, hcount]
  rfl

end Shift

theorem shift_shapes {rule : CountRule} {op : ShiftOp} {a count c : Value}
    (h : shift rule op a count = some c) : a.isInteger = true ∧ count.isInteger = true := by
  unfold shift at h
  split at h
  · rename_i hshape
    exact Bool.and_eq_true_iff.mp hshape
  · cases h

/-- The number that a shift to the right divides: the sign counts unless it is unsigned. -/
def shiftee (op : ShiftOp) (a : UInt32) : Int := if op = .shrUn then a.toNat else toInt [a]

theorem ofInt_shiftee (op : ShiftOp) (a : UInt32) : UInt32.ofInt (shiftee op a) = a := by
  unfold shiftee
  split
  · exact ofInt_toNat a
  · exact ofInt_toInt a

def shiftedWord (op : ShiftOp) (a : UInt32) (n : Nat) : UInt32 :=
  if op = .shl then UInt32.ofNat (a.toNat * 2 ^ n) else UInt32.ofInt (shiftee op a / 2 ^ n)

/-- A word with the bits that a shift of its lower neighbour by `n` bits sends up. -/
def crossedUp (a₀ a₁ : UInt32) (n : Nat) : UInt32 :=
  UInt32.ofNat (a₁.toNat * 2 ^ n + a₀.toNat / 2 ^ (32 - n))

/-- A word with the bits that a shift of its upper neighbour by `n` bits sends down. -/
def crossedDown (a₀ a₁ : UInt32) (n : Nat) : UInt32 :=
  UInt32.ofNat (a₀.toNat / 2 ^ n + a₁.toNat * 2 ^ (32 - n))

theorem natCast_two_pow (n : Nat) : ((2 ^ n : Nat) : Int) = 2 ^ n := by
  push_cast
  rfl

theorem two_pow_split {n : Nat} (hn : n ≤ 32) : 2 ^ n * 2 ^ (32 - n) = 0x100000000 := by
  rw [← Nat.pow_add, Nat.add_sub_cancel' hn]

/-! ### As machines shift -/

theorem shiftedWord_zero (op : ShiftOp) (a : UInt32) : shiftedWord op a 0 = a := by
  unfold shiftedWord
  split
  · rw [Nat.pow_zero, Nat.mul_one, UInt32.ofNat_toNat]
  · rw [Int.pow_zero, Int.ediv_one, ofInt_shiftee]

theorem shiftedWord_shrUn_eq (a : UInt32) (n : Nat) :
    shiftedWord .shrUn a n = UInt32.ofNat (a.toNat / 2 ^ n) := by
  rw [shiftedWord, if_neg (by decide), shiftee, if_pos rfl, ← natCast_two_pow, ← Int.natCast_ediv,
    ofInt_natCast]

theorem shiftedWord_shl {a c : UInt32} (hc : c.toNat < 32) :
    a <<< c = shiftedWord .shl a c.toNat := by
  rw [shiftedWord, if_pos rfl, ← UInt32.toNat_inj, UInt32.toNat_shiftLeft, UInt32.toNat_ofNat',
    Nat.mod_eq_of_lt hc, Nat.shiftLeft_eq]

theorem shiftedWord_shrUn {a c : UInt32} (hc : c.toNat < 32) :
    a >>> c = shiftedWord .shrUn a c.toNat := by
  have hlt : a.toNat / 2 ^ c.toNat < 2 ^ 32 :=
    Nat.lt_of_le_of_lt (Nat.div_le_self _ _) a.toNat_lt
  rw [shiftedWord_shrUn_eq, ← UInt32.toNat_inj, UInt32.toNat_shiftRight, UInt32.toNat_ofNat',
    Nat.mod_eq_of_lt hc, Nat.shiftRight_eq_div_pow, Nat.mod_eq_of_lt hlt]

theorem shiftedWord_shr {a c : UInt32} (hc : c.toNat < 32) :
    (a.toInt32 >>> c.toInt32).toUInt32 = shiftedWord .shr a c.toNat := by
  have hcount : (c.toBitVec.smod 32).toNat = c.toNat := by
    have hmsb : c.toBitVec.msb = false := by
      rw [BitVec.msb_eq_decide, decide_eq_false_iff_not, UInt32.toNat_toBitVec]
      omega
    rw [BitVec.smod_eq, hmsb]
    exact Nat.mod_eq_of_lt hc
  have hint : (a.toInt32 >>> c.toInt32).toInt = toInt [a] / 2 ^ c.toNat := by
    have hbits : (a.toInt32 >>> c.toInt32).toBitVec = a.toBitVec.sshiftRight c.toNat := by
      rw [Int32.toBitVec_shiftRight, ← hcount]
      rfl
    have hint := congrArg BitVec.toInt hbits
    rw [BitVec.toInt_sshiftRight, Int.shiftRight_eq_div_pow, natCast_two_pow] at hint
    rw [toInt_word_eq]
    exact hint
  rw [shiftedWord, if_neg (by decide), shiftee, if_neg (by decide), ← hint, ← toUInt32_ofInt,
    Int32.ofInt_toInt]

/-- A word shifted to the left and one that fits into the bits that are free. -/
theorem toNat_shiftLeft_or {a b : UInt32} {n : Nat} (hn : n < 32) (hb : b.toNat < 2 ^ n) :
    (UInt32.ofNat (a.toNat * 2 ^ n) ||| b).toNat = a.toNat * 2 ^ n % 2 ^ 32 + b.toNat := by
  have hshift : a.toNat * 2 ^ n % 2 ^ 32 = (a.toNat % 2 ^ (32 - n)) <<< n := by
    have hword : 2 ^ 32 = 2 ^ (32 - n) * 2 ^ n := by
      rw [Nat.mul_comm, two_pow_split (Nat.le_of_lt hn)]
      rfl
    rw [hword, Nat.mul_mod_mul_right, Nat.shiftLeft_eq]
  rw [UInt32.toNat_or, UInt32.toNat_ofNat', hshift, Nat.shiftLeft_add_eq_or_of_lt hb]

theorem toNat_word_sub {c : UInt32} (hc : c.toNat < 32) : (32 - c).toNat = 32 - c.toNat := by
  have hle : c ≤ 32 := UInt32.le_iff_toNat_le.mpr (Nat.le_of_lt hc)
  exact UInt32.toNat_sub_of_le 32 c hle

/-- Bits that come from below fill up what a shift to the left leaves free. -/
theorem crossedUp_eq_or (a₀ a₁ : UInt32) {c : UInt32} (hpos : 0 < c.toNat) (hlt : c.toNat < 32) :
    a₁ <<< c ||| a₀ >>> (32 - c) = crossedUp a₀ a₁ c.toNat := by
  have hdown : (a₀ >>> (32 - c)).toNat = a₀.toNat / 2 ^ (32 - c.toNat) := by
    rw [UInt32.toNat_shiftRight, toNat_word_sub hlt, Nat.mod_eq_of_lt (by omega),
      Nat.shiftRight_eq_div_pow]
  have hfits : (a₀ >>> (32 - c)).toNat < 2 ^ c.toNat := by
    rw [hdown, Nat.div_lt_iff_lt_mul (Nat.two_pow_pos _), two_pow_split (Nat.le_of_lt hlt)]
    exact a₀.toNat_lt
  have hup : a₁ <<< c = UInt32.ofNat (a₁.toNat * 2 ^ c.toNat) := by
    rw [shiftedWord_shl hlt, shiftedWord, if_pos rfl]
  have hor := @toNat_shiftLeft_or a₁ _ _ hlt hfits
  have hword := (UInt32.ofNat (a₁.toNat * 2 ^ c.toNat) ||| a₀ >>> (32 - c)).toNat_lt
  rw [hup, crossedUp, ← UInt32.toNat_inj, UInt32.toNat_ofNat', hor, hdown]
  rw [hor, hdown] at hword
  generalize a₁.toNat * 2 ^ c.toNat = x at hword ⊢
  omega

/-- What is sent down by a shift to the right is what a shift to the left by the rest would keep. -/
theorem crossedDown_eq_or (a₀ a₁ : UInt32) {c : UInt32} (hpos : 0 < c.toNat) (hlt : c.toNat < 32) :
    a₀ >>> c ||| a₁ <<< (32 - c) = crossedDown a₀ a₁ c.toNat := by
  have hsub := toNat_word_sub hlt
  have hback : 32 - (32 - c) = c := by
    rw [← UInt32.toNat_inj, toNat_word_sub (by omega), hsub]
    omega
  have hup := @crossedUp_eq_or a₀ a₁ (32 - c) (by omega) (by omega)
  have hrest : 32 - (32 - c.toNat) = c.toNat := by omega
  rw [hback, hsub, crossedUp, hrest, Nat.add_comm] at hup
  rw [UInt32.or_comm, hup, crossedDown]

theorem crossedUp_zero (a₀ a₁ : UInt32) : crossedUp a₀ a₁ 0 = a₁ := by
  have ha₀ : a₀.toNat / 2 ^ 32 = 0 := Nat.div_eq_of_lt a₀.toNat_lt
  rw [crossedUp, Nat.pow_zero, Nat.mul_one, ha₀, Nat.add_zero, UInt32.ofNat_toNat]

theorem crossedDown_zero (a₀ a₁ : UInt32) : crossedDown a₀ a₁ 0 = a₀ := by
  rw [crossedDown, Nat.pow_zero, Nat.div_one, ← UInt32.toNat_inj, UInt32.toNat_ofNat']
  have ha₀ := a₀.toNat_lt
  omega

/-! ### As numbers are shifted -/

theorem shift_word (rule : CountRule) (op : ShiftOp) (a : UInt32) {count : Value}
    (hcount : count.isInteger = true) :
    shift rule op [a] count = some [shiftedWord op a (shiftAmount rule 1 count)] := by
  unfold shiftedWord shiftee
  cases op with
  | shl =>
    rw [shift_shl rule rfl hcount, List.length_singleton, ofInt_word, toNat_word, if_pos rfl,
      ← ofInt_natCast, Int.natCast_mul, natCast_two_pow]
  | shr =>
    rw [shift_shr rule rfl hcount, List.length_singleton, ofInt_word, if_neg (by decide),
      if_neg (by decide)]
  | shrUn =>
    rw [shift_shrUn rule rfl hcount, List.length_singleton, ofInt_word, toNat_word,
      if_neg (by decide), if_pos rfl]

theorem shift_pair_right (rule : CountRule) {op : ShiftOp} (hop : op ≠ .shl) (a₀ a₁ : UInt32)
    {count : Value} (hcount : count.isInteger = true) :
    shift rule op [a₀, a₁] count = some (ofInt 2
      ((a₀.toNat + 0x100000000 * shiftee op a₁) / 2 ^ min count.toNat 64)) := by
  unfold shiftee
  have hamount : shiftAmount rule 2 count = min count.toNat 64 := rfl
  cases op with
  | shl => exact absurd rfl hop
  | shr => rw [shift_shr rule rfl hcount, toInt_pair, List.length_cons, List.length_singleton,
      hamount, if_neg (by decide)]
  | shrUn =>
    rw [shift_shrUn rule rfl hcount, toNat_pair, List.length_cons, List.length_singleton, hamount,
      if_pos rfl, Int.natCast_add, Int.natCast_mul]
    rfl

/-- By less than a word to the right: bits cross into the low word. -/
theorem ofInt_two_across {a₀ a₁ : UInt32} {s : Int} (hs : UInt32.ofInt s = a₁) {n : Nat}
    (hn : n ≤ 32) :
    ofInt 2 ((a₀.toNat + 0x100000000 * s) / 2 ^ n) =
      [crossedDown a₀ a₁ n, UInt32.ofInt (s / 2 ^ n)] := by
  have hsplit := two_pow_split hn
  have hpos : 0 < 2 ^ n := Nat.two_pow_pos n
  have hpos' : 0 < 2 ^ (32 - n) := Nat.two_pow_pos _
  rw [← natCast_two_pow, crossedDown]
  generalize 2 ^ n = u at *
  generalize 2 ^ (32 - n) = w at *
  have hunit : (0x100000000 : Int) = (w : Nat) * (u : Nat) := by
    rw [← Int.natCast_mul, Nat.mul_comm, hsplit]
    rfl
  have hquotient : ((a₀.toNat : Int) + 0x100000000 * s) / (u : Nat) =
      (a₀.toNat / u : Nat) + w * s := by
    rw [hunit, Int.mul_comm (w : Int), Int.mul_assoc, Int.add_mul_ediv_left _ _ (by omega),
      Int.natCast_ediv]
  have hlt : a₀.toNat / u < w := by
    rw [Nat.div_lt_iff_lt_mul hpos, Nat.mul_comm, hsplit]
    exact a₀.toNat_lt
  have hhigh : ((a₀.toNat / u : Nat) + (w : Int) * s) / 0x100000000 = s / (u : Nat) := by
    rw [hunit, ← Int.ediv_ediv_of_nonneg (by omega), Int.add_mul_ediv_left _ _ (by omega)]
    have hzero : ((a₀.toNat / u : Nat) : Int) / (w : Nat) = 0 :=
      Int.ediv_eq_zero_of_lt (Int.natCast_nonneg _) (Int.ofNat_lt.mpr hlt)
    rw [hzero, Int.zero_add]
  rw [hquotient, ofInt_pair, hhigh, UInt32.ofInt_add, UInt32.ofInt_mul, hs, ofInt_natCast,
    ofInt_natCast, UInt32.ofNat_add, UInt32.ofNat_mul, UInt32.ofNat_toNat, UInt32.mul_comm a₁]

/-- By a word or more to the right: the low word is left out. -/
theorem ofInt_two_over (a₀ : UInt32) (s : Int) (n : Nat) :
    ofInt 2 ((a₀.toNat + 0x100000000 * s) / 2 ^ (32 + n)) =
      [UInt32.ofInt (s / 2 ^ n), UInt32.ofInt (s / 2 ^ n / 0x100000000)] := by
  have ha₀ := a₀.toNat_lt
  have hhigh : ((a₀.toNat : Int) + 0x100000000 * s) / 2 ^ (32 + n) = s / 2 ^ n := by
    have hlow : ((a₀.toNat : Int) + 0x100000000 * s) / 0x100000000 = s := by omega
    have hunit : (2 : Int) ^ (32 + n) = 0x100000000 * 2 ^ n := by
      rw [Int.pow_add]
      rfl
    rw [hunit, ← Int.ediv_ediv_of_nonneg (by decide), hlow]
  rw [hhigh, ofInt_pair]

theorem ediv_two_pow_unit (s : Int) (n : Nat) : s / 2 ^ n / 0x100000000 = s / 2 ^ (n + 32) := by
  have hpow : (0 : Int) ≤ 2 ^ n := by
    rw [← natCast_two_pow]
    exact Int.natCast_nonneg _
  rw [Int.ediv_ediv_of_nonneg hpow, Int.pow_add]
  rfl

/-- What a shift to the right leaves of a word that is shifted out. -/
def outWord (op : ShiftOp) (a : UInt32) : UInt32 :=
  if op = .shr then shiftedWord .shr a 31 else 0

theorem ofInt_shiftee_out (op : ShiftOp) (hop : op ≠ .shl) (a : UInt32) {n : Nat} (hn : 32 ≤ n) :
    UInt32.ofInt (shiftee op a / 2 ^ n) = outWord op a := by
  have ha := a.toNat_lt
  have hpow : (0x100000000 : Int) ≤ 2 ^ n := by
    rw [← natCast_two_pow]
    exact Int.ofNat_le.mpr (Nat.pow_le_pow_right Nat.two_pos hn)
  generalize (2 : Int) ^ n = u at hpow
  cases op with
  | shl => exact absurd rfl hop
  | shr =>
    have hsign : toInt [a] / u = toInt [a] / 0x80000000 := by
      rw [toInt_word]
      split
      · rw [Int.ediv_eq_zero_of_lt (by omega) (by omega)]
        omega
      · have hlow : -((a.toNat : Int) - 0x100000000) ≤ u := by omega
        have hneg : (a.toNat : Int) - 0x100000000 < 0 := by omega
        rw [Int.ediv_eq_neg_one_of_neg_of_le hneg hlow]
        omega
    rw [outWord, if_pos rfl, shiftedWord, if_neg (by decide), shiftee, if_neg (by decide), hsign]
    norm_num
  | shrUn =>
    rw [outWord, if_neg (by decide), shiftee, if_pos rfl,
      Int.ediv_eq_zero_of_lt (Int.natCast_nonneg _) (by omega)]
    rfl

theorem shiftedWord_out (op : ShiftOp) (a : UInt32) : shiftedWord op a 64 = outWord op a := by
  unfold shiftedWord
  split
  · rename_i hop
    subst hop
    rw [outWord, if_neg (by decide), ← UInt32.toNat_inj, UInt32.toNat_ofNat', UInt32.toNat_zero]
    norm_num
    omega
  · rename_i hop
    exact ofInt_shiftee_out op hop a (by decide)

/-- A word is shifted by the low word of the count as far as the high one is zero. -/
theorem shiftAmount_integer (wide : Bool) (c₀ c₁ : UInt32) :
    shiftAmount .saturating 1 (integer wide c₀ c₁) =
      if wide = true ∧ c₁ ≠ 0 then 64 else c₀.toNat % 32 := by
  have hmod := toNat_integer_mod wide c₀ c₁
  have hle := le_toNat_integer wide c₀ c₁
  unfold shiftAmount
  rw [if_pos rfl]
  dsimp only
  by_cases hhigh : wide = true ∧ c₁ ≠ 0
  · have hhuge := hle.mpr hhigh
    rw [if_pos hhigh, if_neg (by omega)]
  · have hsmall : ¬0x100000000 ≤ (integer wide c₀ c₁).toNat := fun h => hhigh (hle.mp h)
    rw [if_neg hhigh, if_pos (by omega)]
    omega

def acrossPair (op : ShiftOp) (a₀ a₁ : UInt32) (n : Nat) : Value :=
  if op = .shl then [shiftedWord op a₀ n, crossedUp a₀ a₁ n]
  else [crossedDown a₀ a₁ n, shiftedWord op a₁ n]

def overPair (op : ShiftOp) (a₀ a₁ : UInt32) (n : Nat) : Value :=
  if op = .shl then [0, shiftedWord op a₀ n] else [shiftedWord op a₁ n, outWord op a₁]

def outPair (op : ShiftOp) (a₁ : UInt32) : Value := [outWord op a₁, outWord op a₁]

section ShiftPair

variable (rule : CountRule) (op : ShiftOp) (a₀ a₁ : UInt32) {count : Value}
  (hcount : count.isInteger = true)

include hcount

theorem shift_pair_left : shift rule .shl [a₀, a₁] count =
    some (ofInt 2 ((a₀.toNat * 2 ^ min count.toNat 64 : Nat) +
      0x100000000 * (a₁.toNat * 2 ^ min count.toNat 64 : Nat))) := by
  have hamount : shiftAmount rule 2 count = min count.toNat 64 := rfl
  rw [shift_shl rule rfl hcount, toNat_pair, List.length_cons, List.length_singleton, hamount,
    ← natCast_two_pow, ← Int.natCast_mul, Nat.add_mul, Nat.mul_assoc, Int.natCast_add,
    Int.natCast_mul 0x100000000]
  rfl

theorem shift_across (hlt : count.toNat < 32) :
    shift rule op [a₀, a₁] count = some (acrossPair op a₀ a₁ count.toNat) := by
  have hmin : min count.toNat 64 = count.toNat := by omega
  by_cases hop : op = .shl
  · subst hop
    rw [shift_pair_left rule a₀ a₁ hcount, hmin, acrossPair, if_pos rfl, shiftedWord, if_pos rfl,
      crossedUp]
    generalize count.toNat = n at hlt ⊢
    have hsplit := two_pow_split (Nat.le_of_lt hlt)
    have hpos : 0 < 2 ^ n := Nat.two_pow_pos n
    generalize 2 ^ n = u at hsplit hpos ⊢
    generalize 2 ^ (32 - n) = w at hsplit ⊢
    have hcross : a₀.toNat * u / 0x100000000 = a₀.toNat / w := by
      rw [← hsplit, Nat.mul_comm u w, Nat.mul_div_mul_right _ _ hpos]
    refine congrArg some (ofInt_two_eq ?_)
    rw [toNat_pair, UInt32.toNat_ofNat', UInt32.toNat_ofNat', ← hcross]
    generalize a₀.toNat * u = x
    generalize a₁.toNat * u = y
    omega
  · rw [shift_pair_right rule hop a₀ a₁ hcount, hmin, acrossPair, if_neg hop, shiftedWord, if_neg hop,
      ofInt_two_across (ofInt_shiftee op a₁) (Nat.le_of_lt hlt)]

theorem shift_over (hle : 32 ≤ count.toNat) (hlt : count.toNat < 64) :
    shift rule op [a₀, a₁] count = some (overPair op a₀ a₁ (count.toNat - 32)) := by
  have hmin : min count.toNat 64 = 32 + (count.toNat - 32) := by omega
  generalize count.toNat - 32 = n at hmin ⊢
  by_cases hop : op = .shl
  · subst hop
    have hunit : ∀ x : Nat, x * 2 ^ (32 + n) = x * 2 ^ n * 0x100000000 := by
      intro x
      rw [Nat.add_comm, Nat.pow_add, Nat.mul_assoc]
    rw [shift_pair_left rule a₀ a₁ hcount, hmin, overPair, if_pos rfl, shiftedWord, if_pos rfl,
      hunit, hunit]
    refine congrArg some (ofInt_two_eq ?_)
    rw [toNat_pair, UInt32.toNat_ofNat', UInt32.toNat_zero]
    generalize a₀.toNat * 2 ^ n = x
    generalize a₁.toNat * 2 ^ n = y
    omega
  · rw [shift_pair_right rule hop a₀ a₁ hcount, hmin, overPair, if_neg hop, shiftedWord, if_neg hop,
      ofInt_two_over]
    rw [ediv_two_pow_unit, ofInt_shiftee_out op hop a₁ (Nat.le_add_left 32 n)]

theorem shift_out (hle : 64 ≤ count.toNat) :
    shift rule op [a₀, a₁] count = some (outPair op a₁) := by
  have hmin : min count.toNat 64 = 32 + 32 := by omega
  by_cases hop : op = .shl
  · subst hop
    rw [shift_pair_left rule a₀ a₁ hcount, hmin]
    refine congrArg some (ofInt_two_eq ?_)
    show _ = ((toNat [0, 0] : Nat) : Int)
    rw [toNat_pair, UInt32.toNat_zero]
    generalize a₀.toNat = x
    generalize a₁.toNat = y
    norm_num
    omega
  · rw [shift_pair_right rule hop a₀ a₁ hcount, hmin, ofInt_two_over]
    rw [ediv_two_pow_unit, ofInt_shiftee_out op hop a₁ (Nat.le_refl 32),
      ofInt_shiftee_out op hop a₁ (Nat.le_add_left 32 32), outPair]

end ShiftPair

/-! ## Conversions -/

/-- The low `bits` bits of a word, extended to the word again. -/
def narrowed (signed : Bool) (bits : Nat) (a : UInt32) : UInt32 :=
  UInt32.ofInt (if signed then Int.bmod a.toNat (2 ^ bits) else (a.toNat : Int) % 2 ^ bits)

theorem isInteger_of_convert {target : ConvTarget} {a c : Value} (h : convert target a = some c) :
    a.isInteger = true := by
  unfold convert at h
  split at h
  · assumption
  · cases h

theorem convert_eq {v : Value} (h : v.isInteger = true) (target : ConvTarget) :
    convert target v = some (ofInt (if 8 * target.valueSize 4 = 64 then 2 else 1)
      (if target.isSigned then Int.bmod v.toInt (2 ^ (8 * target.valueSize 4))
        else v.toNat % 2 ^ (8 * target.valueSize 4))) := by
  unfold convert
  rw [if_pos h]

/-- Of a value that is made narrower only the low word matters. -/
theorem convert_narrow {target : ConvTarget} (hsize : target.valueSize 4 < 8) {a : UInt32}
    {rest : Value} (h : Value.isInteger (a :: rest) = true) :
    convert target (a :: rest) =
      some [narrowed target.isSigned (8 * target.valueSize 4) a] := by
  have hbits : 8 * target.valueSize 4 ≤ 32 := by
    cases target <;> simp [ConvTarget.valueSize] at hsize ⊢
  have hwords : ¬8 * target.valueSize 4 = 64 := by omega
  have hsplit := two_pow_split hbits
  rw [convert_eq h, if_neg hwords, ofInt_word, narrowed]
  generalize 8 * target.valueSize 4 = bits at hsplit hbits ⊢
  have hvalue : (Value.toNat (a :: rest) : Int) =
      a.toNat + (2 ^ bits : Nat) * ((2 ^ (32 - bits) * Value.toNat rest : Nat) : Int) := by
    rw [← Int.natCast_mul, ← Nat.mul_assoc, hsplit, ← Int.natCast_add, Value.toNat]
  have hdvd : 2 ^ bits ∣ 2 ^ (32 * (a :: rest).length) := by
    refine Nat.pow_dvd_pow 2 ?_
    rw [List.length_cons]
    omega
  rw [Value.toInt, Int.bmod_bmod_of_dvd hdvd, hvalue, Int.add_mul_bmod_self_left, natCast_two_pow,
    Int.add_mul_emod_self_left]

theorem narrowed_word (signed : Bool) (a : UInt32) : narrowed signed 32 a = a := by
  unfold narrowed
  split
  · exact ofInt_toInt a
  · have ha := a.toNat_lt
    rw [Int.emod_eq_of_lt (Int.natCast_nonneg _) (by norm_num; omega), ofInt_toNat]

theorem convert_word {target : ConvTarget} (hsize : target.valueSize 4 = 4) (a : UInt32) :
    convert target [a] = some [a] := by
  rw [convert_narrow (by omega) rfl, hsize, narrowed_word]

/-- A word that is made wider is filled up with its sign or with zeros. -/
theorem convert_widen {target : ConvTarget} (hsize : target.valueSize 4 = 8) (a : UInt32) :
    convert target [a] = some [a, if target.isSigned then outWord .shr a else 0] := by
  have ha := a.toNat_lt
  rw [convert_eq rfl, hsize, if_pos rfl]
  refine congrArg some ?_
  split
  · have hbmod : Int.bmod (toInt [a]) (2 ^ (8 * 8)) = toInt [a] := by
      rw [toInt_word]
      refine Int.bmod_eq_of_le_mul_two ?_ ?_ <;> norm_num <;> omega
    have hunit : (2 : Int) ^ 32 = 0x100000000 := by norm_num
    have hsign := ofInt_shiftee_out .shr (by decide) a (Nat.le_refl 32)
    rw [shiftee, if_neg (by decide), hunit] at hsign
    rw [hbmod, ofInt_pair, ofInt_toInt, hsign]
  · refine ofInt_two_eq ?_
    rw [toNat_word, toNat_pair, UInt32.toNat_zero]
    norm_num
    omega

theorem convert_same {target : ConvTarget} (hsize : target.valueSize 4 = 8) (a₀ a₁ : UInt32) :
    convert target [a₀, a₁] = some [a₀, a₁] := by
  have ha₀ := a₀.toNat_lt
  have ha₁ := a₁.toNat_lt
  rw [convert_eq rfl, hsize, if_pos rfl]
  refine congrArg some (ofInt_two_eq ?_)
  have hvalue : (toInt [a₀, a₁]).bmod (2 ^ (8 * 8)) = toInt [a₀, a₁] := by
    rw [toInt_pair, toInt_word]
    refine Int.bmod_eq_of_le_mul_two ?_ ?_ <;> norm_num <;> omega
  rw [hvalue, toInt_pair, toInt_word, toNat_pair]
  norm_num
  omega

end Stencil.Meaning
