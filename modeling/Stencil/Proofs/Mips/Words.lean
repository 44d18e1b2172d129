import Stencil.Proofs.Meaning.Words
import Stencil.Proofs.Mips.Moves
import Stencil.Mips.Decision

/-!
# What the MIPS32 machine computes of words

An unsigned comparison recovers the carry of a sum and the borrow of a difference, `setLess` tells every
order, and shifts act as the meaning of a shift has it.
-/

namespace Stencil.Mips

open Meaning Meaning.Value

theorem isWide_value {item : StackItem} {value : Value} (hvalue : value.isInteger = true)
    (hsize : item.size = 4 * value.length) : isWide item = (value.length == 2) := by
  unfold isWide
  rw [hsize]
  rcases isInteger_cases hvalue with ⟨x, rfl⟩ | ⟨x₀, x₁, rfl⟩ <;> rfl

theorem displacement_ok {i : Instruction} {offset : Int} {d : Int32} (h : displacement i offset = .ok d) :
    d = Int32.ofInt offset := by
  unfold displacement at h
  split at h
  · exact (Except.ok.inj h).symm
  · cases h

/-! ## Sums and products -/

theorem aligned_sub_four {a : UInt32} (h : a.toNat % 4 = 0) : (a - 4).toNat % 4 = 0 := by
  rw [UInt32.toNat_sub]
  simp only [UInt32.reduceToNat]
  omega

/-- A sum that is less than one of its terms has wrapped around. -/
theorem sltu_sum (a b : UInt32) : alu .sltu (a + b) b = carry a b := by
  have ha := a.toNat_lt
  have hb := b.toNat_lt
  have hwraps : a + b < b ↔ 0x100000000 ≤ a.toNat + b.toNat := by
    rw [UInt32.lt_iff_toNat_lt, UInt32.toNat_add]
    omega
  unfold carry
  show (if a + b < b then 1 else 0) = _
  simp only [hwraps]

theorem toUInt32_signExtended (a : UInt32) : a.toInt32.toInt64.toUInt64.toUInt32 = a := by
  refine UInt32.toBitVec_inj.mp ?_
  show (a.toBitVec.signExtend 64).setWidth 32 = a.toBitVec
  ext k hk
  rw [BitVec.getElem_setWidth, BitVec.getLsbD_signExtend]
  simp [hk]
  omega

theorem product_low (unsigned : Bool) (a b : UInt32) : (product unsigned a b).toUInt32 = a * b := by
  unfold product
  split
  · rw [UInt64.toUInt32_mul, UInt32.toUInt32_toUInt64, UInt32.toUInt32_toUInt64]
  · have hsigned : (a.toInt32.toInt64 * b.toInt32.toInt64).toUInt64 =
        a.toInt32.toInt64.toUInt64 * b.toInt32.toInt64.toUInt64 := rfl
    rw [hsigned, UInt64.toUInt32_mul, toUInt32_signExtended, toUInt32_signExtended]

theorem product_high (a b : UInt32) : (product true a b >>> 32).toUInt32 = productHigh a b := by
  have ha := a.toNat_lt
  have hb := b.toNat_lt
  have hlt : a.toNat * b.toNat < 2 ^ 64 :=
    Nat.lt_of_lt_of_le (Nat.mul_lt_mul'' ha hb) (by decide)
  rw [productHigh, ← UInt32.toNat_inj, UInt64.toNat_toUInt32, UInt64.toNat_shiftRight,
    UInt32.toNat_ofNat']
  show (a.toUInt64 * b.toUInt64).toNat >>> 32 % 2 ^ 32 = _
  rw [UInt64.toNat_mul, UInt32.toNat_toUInt64, UInt32.toNat_toUInt64, Nat.mod_eq_of_lt hlt,
    Nat.shiftRight_eq_div_pow]

/-! ## Shifts -/

theorem alu_shiftVar (op : Stencil.ShiftOp) (a c : UInt32) :
    alu (shiftVar op) a c = shiftedWord op a (c.toNat % 32) := by
  have hcount : (c % 32).toNat = c.toNat % 32 := UInt32.toNat_mod c 32
  have hlt : (c % 32).toNat < 32 := by
    rw [hcount]
    omega
  rw [← hcount]
  cases op with
  | shl => exact shiftedWord_shl hlt
  | shr => exact shiftedWord_shr hlt
  | shrUn => exact shiftedWord_shrUn hlt

theorem alu_sllv (a c : UInt32) : alu .sllv a c = shiftedWord .shl a (c.toNat % 32) :=
  alu_shiftVar .shl a c

theorem alu_srlv (a c : UInt32) : alu .srlv a c = shiftedWord .shrUn a (c.toNat % 32) :=
  alu_shiftVar .shrUn a c

theorem alu_srav (a c : UInt32) : alu .srav a c = shiftedWord .shr a (c.toNat % 32) :=
  alu_shiftVar .shr a c

section Across

variable (a₀ a₁ : UInt32) {c : UInt32} (hpos : 0 < c.toNat) (hlt : c.toNat < 32)

include hlt

theorem mod_word : c % 32 = c := by
  rw [← UInt32.toNat_inj, UInt32.toNat_mod]
  exact Nat.mod_eq_of_lt hlt

include hpos

theorem toNat_rest_lt : (32 - c).toNat < 32 := by
  rw [toNat_word_sub hlt]
  omega

/-- Bits that a shift to the left carries into the high word. -/
theorem or_sllv_srlv : alu .or (alu .sllv a₁ c) (alu .srlv a₀ (32 - c)) = crossedUp a₀ a₁ c.toNat := by
  rw [← crossedUp_eq_or a₀ a₁ hpos hlt]
  show a₁ <<< (c % 32) ||| a₀ >>> ((32 - c) % 32) = _
  rw [mod_word hlt, mod_word (toNat_rest_lt hpos hlt)]

/-- Bits that a shift to the right carries into the low word. -/
theorem or_srlv_sllv :
    alu .or (alu .srlv a₀ c) (alu .sllv a₁ (32 - c)) = crossedDown a₀ a₁ c.toNat := by
  rw [← crossedDown_eq_or a₀ a₁ hpos hlt]
  show a₀ >>> (c % 32) ||| a₁ <<< ((32 - c) % 32) = _
  rw [mod_word hlt, mod_word (toNat_rest_lt hpos hlt)]

end Across

theorem shiftBy_sign (a : UInt32) : shiftBy .sra a 31 = outWord .shr a := by
  rw [outWord, if_pos rfl]
  exact @shiftedWord_shr a 31 (by decide)

end Stencil.Mips
