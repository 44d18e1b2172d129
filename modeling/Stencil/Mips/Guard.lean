import Stencil.Intrinsic
import Stencil.Mips.Instr

/-!
# Checks inside templates

A failing check asks for the address of its own call site and hands it to the intrinsic that raises
the exception, which never returns.
-/

namespace Stencil.Mips

variable (ctx : EmitContext) (i : Instruction)

def throwHere (intrinsic : Intrinsic) : List Instr :=
  Instr.callSymbol Intrinsic.callSite.symbol ++
  Instr.push .v0 ++
  Instr.callSymbol intrinsic.symbol

/-- Raise unless `reg` is a pointer other than null; the label has number zero. -/
def nullCheck (reg : Reg) : List Instr :=
  let notNull := ctx.inside i "NotNull" 0
  Instr.bne reg .zero notNull ++
  throwHere .throwNullReference ++
  [Instr.label notNull]

/-- Raise unless the index lies in the array; labels have numbers one and two. -/
def boundsCheck (array index : Reg) : List Instr :=
  let outOfRange := ctx.inside i "OutOfRange" 1
  let inRange := ctx.inside i "InRange" 2
  Instr.bltz index outOfRange ++
  [Instr.lw .t4 (Int32.ofNat ctx.options.layout.arrayLength) array,
   .setLess false .t8 index .t4] ++
  Instr.bne .t8 .zero inRange ++
  [Instr.label outOfRange] ++
  throwHere .throwIndexOutOfRange ++
  [Instr.label inRange]

def log2? (n : Nat) : Option Nat :=
  if 1 <<< n.log2 = n then some n.log2 else none

/-- Add `index` times `stride` to `array`: by a shift where the stride is a power of two. -/
def scaleIndex (array index : Reg) (stride : Nat) : List Instr :=
  match log2? stride with
  | some k =>
    (if k = 0 then [] else [Instr.shift .sll index index (UInt8.ofNat k)]) ++
      [Instr.alu .addu array array index]
  | none =>
    [Instr.li .t5 (Int32.ofNat stride),
     .mult index .t5 true,
     .mflo .t5,
     .alu .addu array array .t5]

/-- Turn a checked array and index into the address of the element less the header. -/
def elementBase (array index : Reg) (stride : Nat) : List Instr :=
  nullCheck ctx i array ++ boundsCheck ctx i array index ++ scaleIndex array index stride

/-- Test the pointer of an indirect access where the policy asks for it. -/
def guardIndirect (reg : Reg) : List Instr :=
  if ctx.policy.guardIndirect then nullCheck ctx i reg else []

/-- The alignment that an indirect access may count on. -/
def indirectAlignment (access : Access) : Nat :=
  if ctx.policy.assumeAligned then access.naturalAlignment else 1

end Stencil.Mips
