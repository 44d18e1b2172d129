import Stencil.Word

/-!
# Hexadecimal text

Positions are written with at least four capital digits, addresses with exactly eight small ones.
-/

namespace Stencil.Text

/-- The digits of `n` in base sixteen, capital letters. -/
def hexDigits (n : Nat) : List Char :=
  (Nat.toDigits 16 n).map Char.toUpper

/-- `digits` with zeros in front up to `width` characters. -/
def padZeros (width : Nat) (digits : List Char) : List Char :=
  List.replicate (width - digits.length) '0' ++ digits

def position (n : Nat) : String :=
  "IL_" ++ String.ofList (padZeros 4 (hexDigits n))

/-- A branch target; one below zero is written as its 64-bit two's complement. -/
def target (n : Int) : String :=
  position (Word.wrap 64 n)

def address (a : UInt32) : String :=
  "0x" ++ String.ofList (padZeros 8 (Nat.toDigits 16 a.toNat))

end Stencil.Text
