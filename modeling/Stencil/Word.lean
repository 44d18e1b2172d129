/-!
# Numbers of some bits

A number of `bits` bits is taken modulo `modulus bits`. In two's complement the upper half of these
numbers stands for the negative ones.
-/

namespace Stencil.Word

def modulus (bits : Nat) : Nat := 1 <<< bits

/-- The lowest `bits` bits of the two's complement of `n`. -/
def wrap (bits : Nat) (n : Int) : Nat := (n % modulus bits).toNat

/-- The two's complement reading of the lowest `bits` bits of `n`. -/
def signed (bits n : Nat) : Int := Int.bmod n (modulus bits)

/-- Copy the sign of the lowest `bits` bits into all higher ones. -/
def signExtend (bits : Nat) (value : UInt32) : UInt32 :=
  (Int32.ofInt (signed bits value.toNat)).toUInt32

theorem modulus_add (m n : Nat) : modulus (m + n) = modulus m * modulus n := by
  simp only [modulus, Nat.shiftLeft_eq, Nat.one_mul, Nat.pow_add]

end Stencil.Word
