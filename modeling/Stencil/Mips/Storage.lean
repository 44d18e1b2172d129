import Stencil.Mips.Guard
import Stencil.Mips.Integer
import Stencil.Mips.Transfer

/-!
# Loads and stores

Frame slots, constants, fields, indirect accesses and array elements. Each access takes the widest
move that its address allows: a field by its offset, an element by stride and header, a static field
by words, a raw pointer by what the policy says.
-/

namespace Stencil.Mips

variable (ctx : EmitContext) (i : Instruction)

/-! ## Frame slots -/

/-- An argument or local with its displacement, whose end is in range too. -/
def reachableSlot (isArg : Bool) : Except CompileError (Nat × Int32) := do
  let slot ← ctx.slot i isArg
  let words := slot.item.words
  let base ← displacement i slot.offset.toInt
  let _ ← displacement i (slot.offset.toInt + 4 * words)
  return (words, base)

/-- Push an argument or local, the high word first. -/
def loadSlot (isArg : Bool) : Except CompileError (List Instr) := do
  let (words, base) ← reachableSlot ctx i isArg
  return (List.range words).reverse.flatMap fun k =>
    .lw .t6 (base + Int32.ofNat (4 * k)) .fp :: Instr.push .t6

/-- Pop into an argument or local, the low word first. -/
def storeSlot (isArg : Bool) : Except CompileError (List Instr) := do
  let (words, base) ← reachableSlot ctx i isArg
  return (List.range words).flatMap fun k =>
    Instr.pop .t6 ++ [Instr.sw .t6 (base + Int32.ofNat (4 * k)) .fp]

def slotAddress (isArg : Bool) : Except CompileError (List Instr) := do
  let (_, base) ← reachableSlot ctx i isArg
  return .addiu .t6 .fp base :: Instr.push .t6

/-! ## Constants and stack shuffles -/

/-- The two words of a double word, the high one first. -/
def pushLong (value : Int64) : List Instr :=
  Instr.pushImm (value.toUInt64 >>> 32).toUInt32.toInt32 ++
  Instr.pushImm value.toUInt64.toUInt32.toInt32

/-- Push the constant of the instruction, the high word of a double word first. -/
def loadConst : Except CompileError (List Instr) :=
  if i.op = .ldcI8 then i.longConstant.map pushLong
  else i.constant.map Instr.pushImm

def loadSymbol (symbol : Except CompileError Symbol) : Except CompileError (List Instr) :=
  symbol.map Instr.pushAddr

def sizeOf : Except CompileError (List Instr) :=
  (ctx.typeAccess i).map fun access => Instr.pushImm (Int32.ofNat access.storage)

/-- Push the top item again, one word at a time from a fixed distance. -/
def dup (effect : Effect) : Except CompileError (List Instr) := do
  let size := effect.result.size
  let offset ← displacement i ((size : Int) - 4)
  return (List.replicate (size / 4) (.lw .t6 offset .sp :: Instr.push .t6)).flatten

/-- Drop the top item; a fresh allocation is released first. -/
def pop (effect : Effect) : List Instr :=
  let item := effect.operand 0
  (if item.isNew then Instr.callSymbol Intrinsic.release.symbol else []) ++ Instr.drop item.size

/-! ## Fields -/

/-- A field with its access and its displacement, whose end is in range too. -/
def reachableField : Except CompileError (FieldDescriptor × Access × Int32) := do
  let (field, access) ← ctx.fieldAccess i
  let offset ← displacement i field.offset
  let _ ← displacement i (field.offset + access.storage)
  return (field, access, offset)

def loadField : Except CompileError (List Instr) := do
  let (field, access, offset) ← reachableField ctx i
  return Instr.pop .t0 ++ nullCheck ctx i .t0 ++
    pushFromMemory .t0 offset access.storage access.signed (offsetAlignment field.offset)

def loadFieldAddress : Except CompileError (List Instr) := do
  let (_, _, offset) ← reachableField ctx i
  return Instr.pop .t0 ++ nullCheck ctx i .t0 ++ [Instr.addiu .t0 .t0 offset] ++ Instr.push .t0

/-- The value lies on top of the object. -/
def storeField (effect : Effect) : Except CompileError (List Instr) := do
  let (field, access, offset) ← reachableField ctx i
  let value ← displacement i (effect.operand 0).size
  return [Instr.lw .t0 value .sp] ++ nullCheck ctx i .t0 ++
    popToMemory .t0 offset access.storage (offsetAlignment field.offset) ++ Instr.drop 4

def loadStatic : Except CompileError (List Instr) := do
  let (field, access, _) ← reachableField ctx i
  return .la .t0 field.symbol :: pushFromMemory .t0 0 access.storage access.signed 4

def loadStaticAddress : Except CompileError (List Instr) := do
  let (field, _, _) ← reachableField ctx i
  return Instr.pushAddr field.symbol

def storeStatic : Except CompileError (List Instr) := do
  let (field, access, _) ← reachableField ctx i
  return .la .t0 field.symbol :: popToMemory .t0 0 access.storage 4

/-! ## Indirect accesses -/

def loadIndirect (kind : ValueKind) : Except CompileError (List Instr) := do
  let access ← ctx.kindAccess i kind
  return Instr.pop .t0 ++ guardIndirect ctx i .t0 ++
    pushFromMemory .t0 0 access.storage access.signed (indirectAlignment ctx access)

/-- Pop a value and the address under it, and store the value there. -/
def storeIndirect (effect : Effect) (kind : ValueKind) : Except CompileError (List Instr) := do
  let access ← ctx.kindAccess i kind
  let value ← displacement i (effect.operand 0).size
  return [Instr.lw .t0 value .sp] ++ guardIndirect ctx i .t0 ++
    popToMemory .t0 0 access.storage (indirectAlignment ctx access) ++ Instr.drop 4

def initObject : Except CompileError (List Instr) := do
  let access ← ctx.typeAccess i
  return Instr.pop .t0 ++ guardIndirect ctx i .t0 ++
    zeroMemory .t0 0 access.storage (indirectAlignment ctx access)

/-! ## Arrays -/

def loadLength : List Instr :=
  Instr.pop .t0 ++ nullCheck ctx i .t0 ++
    [Instr.lw .t6 (Int32.ofNat ctx.options.layout.arrayLength) .t0] ++ Instr.push .t6

/-- The displacement of an element from the base less the header; its end is in range. -/
def elementOffset (access : Access) : Except CompileError Int32 :=
  (displacement i (ctx.options.layout.arrayHeader + access.storage)).map
    (· - Int32.ofNat access.storage)

def elementAlignment (access : Access) : Nat :=
  min (offsetAlignment access.storage) (offsetAlignment ctx.options.layout.arrayHeader)

def loadElement (kind : ValueKind) : Except CompileError (List Instr) := do
  let access ← ctx.kindAccess i kind
  let header ← elementOffset ctx i access
  return Instr.pop .t2 ++ Instr.pop .t0 ++ elementBase ctx i .t0 .t2 access.storage ++
    pushFromMemory .t0 header access.storage access.signed (elementAlignment ctx access)

/-- Replace an array and an index by the address of the element. -/
def loadElementAddress : Except CompileError (List Instr) := do
  let access ← ctx.typeAccess i
  let header ← elementOffset ctx i access
  return Instr.pop .t2 ++ Instr.pop .t0 ++ elementBase ctx i .t0 .t2 access.storage ++
    [Instr.addiu .t0 .t0 header] ++ Instr.push .t0

/-- The value lies on top of the index, and the index on top of the array. -/
def storeElement (effect : Effect) (kind : ValueKind) : Except CompileError (List Instr) := do
  let access ← ctx.kindAccess i kind
  let header ← elementOffset ctx i access
  let value ← displacement i ((effect.operand 0).size + 4)
  return [Instr.lw .t0 value .sp, .lw .t2 (value - 4) .sp] ++
    elementBase ctx i .t0 .t2 access.storage ++
    popToMemory .t0 header access.storage (elementAlignment ctx access) ++ Instr.drop 8

end Stencil.Mips
