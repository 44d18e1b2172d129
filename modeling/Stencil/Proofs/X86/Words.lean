import Stencil.Proofs.Meaning.Words
import Stencil.Proofs.X86.Moves
import Stencil.X86.Decision

/-!
# What the x86 machine computes of words

The carry flag joins the halves of sums and differences, the flags of a comparison tell every relation
of the compared words, and shifts act as the meaning of a shift has it.
-/

namespace Stencil.X86

open Meaning Meaning.Value

theorem isWide_value {item : StackItem} {value : Value} (hvalue : value.isInteger = true)
    (hsize : item.size = 4 * value.length) : isWide item = (value.length == 2) := by
  unfold isWide
  rw [hsize]
  rcases isInteger_cases hvalue with ⟨x, rfl⟩ | ⟨x₀, x₁, rfl⟩ <;> rfl

/-! ## Sums, differences and products -/

theorem ofNat_carry_add (a b : UInt32) (c : Bool) :
    UInt32.ofNat (alu .add 32 a b c).2.carry.toNat = carry a b := by
  rw [carry_alu_add, carry]
  by_cases h : 0x100000000 ≤ a.toNat + b.toNat
  · rw [if_pos h, decide_eq_true h]
    rfl
  · rw [if_neg h, decide_eq_false h]
    rfl

theorem ofNat_carry_sub (a b : UInt32) (c : Bool) :
    UInt32.ofNat (alu .sub 32 a b c).2.carry.toNat = borrow a b := by
  rw [carry_alu_sub, borrow]
  by_cases h : a.toNat < b.toNat
  · rw [if_pos (UInt32.lt_iff_toNat_lt.mpr h), decide_eq_true h]
    rfl
  · rw [if_neg (fun hlt => h (UInt32.lt_iff_toNat_lt.mp hlt)), decide_eq_false h]
    rfl

theorem productLow_eq (a b : UInt32) : productLow a b = a * b := by
  have hint : ∀ c : UInt32, UInt32.ofInt c.toInt32.toInt = c := by
    intro c
    rw [← toInt_word_eq, ofInt_toInt]
  rw [productLow, toUInt32_ofInt, UInt32.ofInt_mul, hint, hint]

/-! ## Comparisons -/

section Compare

variable (a b : UInt32) (c : Bool)

/-- Sign and overflow differ when the first word is less in two's complement. -/
theorem less_alu_cmp : ((alu .cmp 32 a b c).2.sign != (alu .cmp 32 a b c).2.overflow) =
    decide (toInt [a] < toInt [b]) := by
  have ha := a.toNat_lt
  have hb := b.toNat_lt
  have hraw : Word.modulus (32 + 1) = 0x200000000 := rfl
  simp only [alu, subWith, flagsOf, signBit_word, toInt_word, hraw, modulus_word]
  grind

theorem carry_alu_cmp : (alu .cmp 32 a b c).2.carry = decide (a.toNat < b.toNat) :=
  carry_alu_sub a b c

theorem holds_cmp (comparison : Comparison) :
    (alu .cmp 32 a b c).2.holds (.ofComparison comparison) = decides comparison [a] [b] := by
  have hless := less_alu_cmp a b c
  have hcarry := carry_alu_cmp a b c
  have hzero : (alu .cmp 32 a b c).2.zero = decide (a.toNat = b.toNat) := by
    rw [zero_alu_cmp, Bool.eq_iff_iff, beq_iff_eq, decide_eq_true_eq, UInt32.toNat_inj]
  have hsigned : toInt [a] = toInt [b] ↔ a.toNat = b.toNat := by
    have ha := a.toNat_lt
    have hb := b.toNat_lt
    rw [toInt_word, toInt_word]
    omega
  obtain ⟨relation, unsigned⟩ := comparison
  generalize (alu .cmp 32 a b c).2 = flags at *
  cases relation <;> cases unsigned <;>
    simp only [Cond.ofComparison, Flags.holds, decides, toNat_word] <;> grind

end Compare

section Exec

variable {words : List UInt32} {fp : UInt32} {v : View Registers}

/-- A comparison leaves the registers alone and its answer in the flags. -/
theorem exec_cmp {a b : UInt32} {src : Operand} (r : Reg) (hv : v.At words fp) (hr : get v r = a) (hsrc : value? v src = some b) :
    ∃ v', Exec [Instr.alu .cmp (.reg r) src] v .next v' ∧ v'.At words fp ∧ (∀ r', get v' r' = get v r') ∧
      ∀ c : Comparison, v'.regs.flags.holds (.ofComparison c) = decides c [a] [b] := by
  have hstep : step v (.alu .cmp (.reg r) src) = some (withFlags v (alu .cmp 32 a b v.regs.flags.carry).2) := by
    rw [step, hsrc, hr]
    rfl
  refine ⟨_, .of_steps (Steps.plain hstep), ⟨hv.words_eq, hv.fp_eq, hv.fits⟩, get_withFlags _ _, ?_⟩
  exact holds_cmp a b v.regs.flags.carry

/-- A test leaves the registers alone and tells by the zero flag. -/
theorem exec_testReg (r : Reg) (hv : v.At words fp) :
    ∃ v', Exec [Instr.testReg r] v .next v' ∧ v'.At words fp ∧ (∀ r', get v' r' = get v r') ∧
      v'.regs.flags.zero = (get v r == 0) := by
  refine ⟨_, exec_of_run rfl, ⟨hv.words_eq, hv.fp_eq, hv.fits⟩, get_withFlags _ _, ?_⟩
  exact zero_alu_and_self (get v r) false

end Exec

/-! ## Shifts -/

theorem shifted_eq (op : ShiftOp) (a : UInt32) (n : Nat) :
    shifted (shiftKind op) a n = shiftedWord op a n := by
  unfold shifted
  split
  · rename_i hzero
    rw [hzero, shiftedWord_zero]
  · cases op with
    | shl =>
      rw [shiftedWord, if_pos rfl, ← UInt32.toNat_inj, UInt32.toNat_ofNat', UInt32.toNat_ofNat']
      show (a.toNat <<< n) % Word.modulus 32 % 2 ^ 32 = _
      rw [modulus_word, Nat.shiftLeft_eq, Nat.mod_mod]
    | shr =>
      have hshift : shiftBits .sar 32 a n =
          (((toInt [a] >>> n) % 2 ^ 32).toNat, (toInt [a] >>> (n - 1)) % 2 == 1) := by
        have hsigned : Word.signed 32 a.toNat = toInt [a] := by
          rw [toInt, toNat_word]
          rfl
        rw [shiftBits, hsigned]
        rfl
      rw [shiftKind, hshift, shiftedWord, if_neg (by decide), shiftee, if_neg (by decide),
        Int.shiftRight_eq_div_pow, natCast_two_pow]
      rfl
    | shrUn =>
      rw [shiftedWord_shrUn_eq, ← Nat.shiftRight_eq_div_pow]
      rfl

theorem shifted_shl (a : UInt32) (n : Nat) : shifted .shl a n = shiftedWord .shl a n :=
  shifted_eq .shl a n

theorem shifted_sar (a : UInt32) (n : Nat) : shifted .sar a n = shiftedWord .shr a n :=
  shifted_eq .shr a n

theorem shifted_shr (a : UInt32) (n : Nat) : shifted .shr a n = shiftedWord .shrUn a n :=
  shifted_eq .shrUn a n

theorem toNat_ofNat_count {n : Nat} (hn : n < 32) : (UInt32.ofNat n).toNat = n :=
  UInt32.toNat_ofNat_of_lt' (by rw [UInt32.size]; omega)

theorem shiftedDouble_up (a₀ a₁ : UInt32) {n : Nat} (hn : n < 32) :
    shiftedDouble true a₁ a₀ n = crossedUp a₀ a₁ n := by
  unfold shiftedDouble
  split
  · rename_i hzero
    rw [hzero, crossedUp_zero]
  · rename_i hzero
    have hup := @crossedUp_eq_or a₀ a₁ (.ofNat n) (by rw [toNat_ofNat_count hn]; omega)
      (by rw [toNat_ofNat_count hn]; exact hn)
    rw [toNat_ofNat_count hn] at hup
    exact hup

theorem shiftedDouble_down (a₀ a₁ : UInt32) {n : Nat} (hn : n < 32) :
    shiftedDouble false a₀ a₁ n = crossedDown a₀ a₁ n := by
  unfold shiftedDouble
  split
  · rename_i hzero
    rw [hzero, crossedDown_zero]
  · rename_i hzero
    have hdown := @crossedDown_eq_or a₀ a₁ (.ofNat n) (by rw [toNat_ofNat_count hn]; omega)
      (by rw [toNat_ofNat_count hn]; exact hn)
    rw [toNat_ofNat_count hn] at hdown
    exact hdown

end Stencil.X86
