import Stencil.X86.Guard
import Stencil.X86.Integer
import Stencil.X86.Transfer

/-!
# Loads and stores

Frame slots, constants, fields, indirect accesses and array elements. Objects and arrays are tested
for null before anything is read through them, and an index before the element's address is formed.
-/

namespace Stencil.X86

variable (ctx : EmitContext) (i : Instruction)

/-! ## Frame slots -/

def loadSlot (isArg : Bool) : Except CompileError (List Instr) := do
  let slot ← ctx.slot i isArg
  return (List.range slot.item.words).reverse.map fun k =>
    .pushMem ((Mem.based .ebp slot.offset).word k)

/-- Pop into an argument or local, the low word first. -/
def storeSlot (isArg : Bool) : Except CompileError (List Instr) := do
  let slot ← ctx.slot i isArg
  return (List.range slot.item.words).map fun k =>
    .popMem ((Mem.based .ebp slot.offset).word k)

def slotAddress (isArg : Bool) : Except CompileError (List Instr) := do
  let slot ← ctx.slot i isArg
  return [.lea .eax (.based .ebp slot.offset), .pushReg .eax]

/-! ## Constants and stack shuffles -/

/-- The two words of a double word, the high one first. -/
def pushLong (value : Int64) : List Instr :=
  [.pushImm (value.toUInt64 >>> 32).toUInt32.toInt32, .pushImm value.toUInt64.toUInt32.toInt32]

/-- Push the constant of the instruction, the high word of a double word first. -/
def loadConst : Except CompileError (List Instr) :=
  if i.op = .ldcI8 then i.longConstant.map pushLong
  else i.constant.map fun value => [.pushImm value]

def loadSymbol (symbol : Except CompileError Symbol) : Except CompileError (List Instr) :=
  symbol.map fun s => [.pushAddr s]

def sizeOf : Except CompileError (List Instr) :=
  (ctx.typeAccess i).map fun access => [.pushImm (Int32.ofNat access.storage)]

/-- Push the top item again, one word at a time from a fixed distance. -/
def dup (effect : Effect) : List Instr :=
  let size := effect.result.size
  List.replicate (size / 4) (.pushMem (.based .esp (Int32.ofNat size - 4)))

/-- Drop the top item; a fresh allocation is released first. -/
def pop (effect : Effect) : List Instr :=
  let item := effect.operand 0
  (if item.isNew then [Instr.callSymbol Intrinsic.release.symbol] else []) ++ Instr.drop item.size

/-! ## Fields -/

def loadField : Except CompileError (List Instr) := do
  let (field, access) ← ctx.fieldAccess i
  return [Instr.popReg .eax] ++ nullCheck ctx i .eax ++
    pushFromMemory (.based .eax (Int32.ofNat field.offset)) access.storage access.signed

def loadFieldAddress : Except CompileError (List Instr) := do
  let (field, _) ← ctx.fieldAccess i
  return [Instr.popReg .eax] ++ nullCheck ctx i .eax ++
    [Instr.lea .eax (.based .eax (Int32.ofNat field.offset)), .pushReg .eax]

def storeField (effect : Effect) : Except CompileError (List Instr) := do
  let (field, access) ← ctx.fieldAccess i
  return [Instr.load .eax (.based .esp (Int32.ofNat (effect.operand 0).size))] ++
    nullCheck ctx i .eax ++
    popToMemory (.based .eax (Int32.ofNat field.offset)) access.storage ++ Instr.drop 4

def loadStatic : Except CompileError (List Instr) := do
  let (field, access) ← ctx.fieldAccess i
  return pushFromMemory (.global field.symbol) access.storage access.signed

def loadStaticAddress : Except CompileError (List Instr) := do
  let (field, _) ← ctx.fieldAccess i
  return [.pushAddr field.symbol]

def storeStatic : Except CompileError (List Instr) := do
  let (field, access) ← ctx.fieldAccess i
  return popToMemory (.global field.symbol) access.storage

/-! ## Indirect accesses -/

def loadIndirect (kind : ValueKind) : Except CompileError (List Instr) := do
  let access ← ctx.kindAccess i kind
  return [Instr.popReg .eax] ++ guardIndirect ctx i .eax ++
    pushFromMemory (.based .eax 0) access.storage access.signed

/-- Pop a value and the address under it, and store the value there. -/
def storeIndirect (effect : Effect) (kind : ValueKind) : Except CompileError (List Instr) := do
  let access ← ctx.kindAccess i kind
  return [Instr.load .eax (.based .esp (Int32.ofNat (effect.operand 0).size))] ++
    guardIndirect ctx i .eax ++ popToMemory (.based .eax 0) access.storage ++ Instr.drop 4

def initObject : Except CompileError (List Instr) := do
  let access ← ctx.typeAccess i
  return [Instr.popReg .eax] ++ guardIndirect ctx i .eax ++
    zeroMemory (.based .eax 0) access.storage

/-! ## Arrays -/

def loadLength : List Instr :=
  [Instr.popReg .eax] ++ nullCheck ctx i .eax ++
    [Instr.pushMem (.based .eax (Int32.ofNat ctx.options.layout.arrayLength))]

/-- The element, once `eax` points at it less the header. -/
def element : Mem := .based .eax (Int32.ofNat ctx.options.layout.arrayHeader)

def loadElement (kind : ValueKind) : Except CompileError (List Instr) := do
  let access ← ctx.kindAccess i kind
  return [Instr.popReg .ebx, .popReg .eax] ++ elementBase ctx i .eax .ebx access.storage ++
    pushFromMemory (element ctx) access.storage access.signed

/-- Replace an array and an index by the address of the element. -/
def loadElementAddress : Except CompileError (List Instr) := do
  let access ← ctx.typeAccess i
  return [Instr.popReg .ebx, .popReg .eax] ++ elementBase ctx i .eax .ebx access.storage ++
    [Instr.lea .eax (element ctx), .pushReg .eax]

/-- The value lies on top of the index, and the index on top of the array. -/
def storeElement (effect : Effect) (kind : ValueKind) : Except CompileError (List Instr) := do
  let access ← ctx.kindAccess i kind
  let value := Int32.ofNat (effect.operand 0).size
  return [Instr.load .eax (.based .esp (value + 4)), .load .ebx (.based .esp value)] ++
    elementBase ctx i .eax .ebx access.storage ++
    popToMemory (element ctx) access.storage ++ Instr.drop 8

end Stencil.X86
