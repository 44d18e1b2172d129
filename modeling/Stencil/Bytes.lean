import Stencil.Word

/-!
# Little-endian bytes

Operands are stored with the least significant byte first. Reading what was written gives the
number back, modulo the width.
-/

namespace Stencil.Bytes

/-- The number that a list of bytes spells, least significant first. -/
def combine : List UInt8 → Nat
  | [] => 0
  | b :: rest => b.toNat + 256 * combine rest

/-- The lowest `width` bytes of `n`, least significant first. -/
def split : (width : Nat) → (n : Nat) → List UInt8
  | 0, _ => []
  | width + 1, n => UInt8.ofNat n :: split width (n / 256)

/-- The lowest `width` bytes of the two's complement of `n`. -/
def splitInt (width : Nat) (n : Int) : List UInt8 :=
  split width (Word.wrap (8 * width) n)

def combineInt (bytes : List UInt8) : Int :=
  Word.signed (8 * bytes.length) (combine bytes)

theorem length_split (width n : Nat) : (split width n).length = width := by
  induction width generalizing n with
  | zero => rfl
  | succ width ih => simp [split, ih]

theorem combine_split (width n : Nat) :
    combine (split width n) = n % Word.modulus (8 * width) := by
  induction width generalizing n with
  | zero => simp [split, combine, Word.modulus, Nat.mod_one]
  | succ width ih =>
    have size : Word.modulus (8 * (width + 1)) = 256 * Word.modulus (8 * width) := by
      rw [Nat.mul_add, Nat.mul_one, Nat.add_comm, Word.modulus_add]
      rfl
    rw [split, combine, ih, size, Nat.mod_mul]
    rfl

end Stencil.Bytes
