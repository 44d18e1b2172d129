import Stencil.Intrinsic
import Stencil.X86.Instr

/-!
# Checks inside templates

A failing check asks for the address of its own call site and hands it to the intrinsic that raises
the exception, which never returns.
-/

namespace Stencil.X86

variable (ctx : EmitContext) (i : Instruction)

def throwHere (intrinsic : Intrinsic) : List Instr :=
  [.callSymbol Intrinsic.callSite.symbol,
   .pushReg .eax,
   .callSymbol intrinsic.symbol]

/-- Raise unless `reg` is a pointer other than null; the label has number zero. -/
def nullCheck (reg : Reg) : List Instr :=
  let notNull := ctx.inside i "NotNull" 0
  [Instr.testReg reg,
   .jcc .ne notNull] ++
  throwHere .throwNullReference ++
  [Instr.label notNull]

/-- Raise unless the index lies in the array; labels have numbers one and two. -/
def boundsCheck (array index : Reg) : List Instr :=
  let outOfRange := ctx.inside i "OutOfRange" 1
  let inRange := ctx.inside i "InRange" 2
  let length := Mem.based array (Int32.ofNat ctx.options.layout.arrayLength)
  [Instr.aluImm .cmp index 0,
   .jcc .l outOfRange,
   .alu .cmp (.reg index) (.mem .dword length),
   .jcc .l inRange,
   .label outOfRange] ++
  throwHere .throwIndexOutOfRange ++
  [Instr.label inRange]

def scaleIndex (array index : Reg) (stride : Nat) : List Instr :=
  (if stride = 1 then [] else [Instr.imulImm index (.reg index) (Int32.ofNat stride)]) ++
  [Instr.aluReg .add array index]

/-- Turn a checked array and index into the address of the element less the header. -/
def elementBase (array index : Reg) (stride : Nat) : List Instr :=
  nullCheck ctx i array ++ boundsCheck ctx i array index ++ scaleIndex array index stride

/-- Test the pointer of an indirect access where the policy asks for it. -/
def guardIndirect (reg : Reg) : List Instr :=
  if ctx.policy.guardIndirect then nullCheck ctx i reg else []

end Stencil.X86
