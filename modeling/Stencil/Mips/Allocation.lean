import Stencil.Mips.Guard

/-!
# Allocation and type tests
-/

namespace Stencil.Mips

variable (ctx : EmitContext) (i : Instruction)

def checkAllocation : List Instr :=
  let allocated := ctx.inside i "Allocated" 0
  Instr.bne .t0 .zero allocated ++
  Instr.pushImm HaltReason.outOfMemory.code.toInt32 ++
  Instr.callSymbol Intrinsic.halt.symbol ++
  [Instr.label allocated]

/-- Call an allocator whose last argument is a type descriptor; the pointer is left in `$t0`. -/
def allocate (allocator : Intrinsic) (descriptor : Symbol) : List Instr :=
  Instr.pushAddr descriptor ++ Instr.reserve allocator.returnBytes ++
    Instr.callSymbol allocator.symbol ++ Instr.pop .t0 ++ Instr.drop allocator.argBytes ++
    checkAllocation ctx i

/-- Move word `k` of the constructor's arguments two words down. -/
def slideArgument (k : Nat) : List Instr :=
  let offset := Int32.ofNat (4 * k)
  [.lw .t6 (offset + 8) .sp, .sw .t6 offset .sp]

/-- Allocate and call the constructor on arguments of `params` bytes. The arguments move down two
words, one for the receiver and one for the reference that stays after the call. -/
def construct (descriptor ctor : Symbol) (params : Nat) : List Instr :=
  allocate ctx i .newObject descriptor ++
  Instr.reserve 8 ++
  (List.range (params / 4)).flatMap slideArgument ++
  [Instr.sw .t0 (Int32.ofNat params) .sp,
   .sw .t0 (Int32.ofNat params + 4) .sp] ++
  Instr.callSymbol ctor ++
  Instr.drop (params + 4)

/-- A delegate keeps the function pointer and drops the receiver under it. -/
def newObject : Except CompileError (List Instr) := do
  let (ctor, declaring) ← ctx.methodAndType i
  if declaring.isDelegate then
    return Instr.pop .t0 ++ Instr.drop 4 ++ Instr.push .t0
  else
    let params ← ctx.paramBytes i ctor.params
    let _ ← displacement i (params + 8)
    return construct ctx i declaring.symbol ctor.symbol params

/-- The length is on the stack already, as the allocator's first argument. -/
def newArray : Except CompileError (List Instr) := do
  let t ← ctx.tables.resolveType i
  return allocate ctx i .newArray t.symbol ++ Instr.push .t0

/-- Follow the base types of the object for the type that is asked for. Null passes; a failure
gives null, or for a cast an exception. -/
def typeTest (isCast : Bool) : Except CompileError (List Instr) := do
  let t ← ctx.tables.resolveType i
  let layout := ctx.options.layout
  let scan := ctx.inside i "Scan" 0
  let failed := ctx.inside i "Failed" 1
  let done := ctx.inside i "Done" 2
  return Instr.pop .t0 ++
    Instr.beq .t0 .zero done ++
    [Instr.lw .t4 (Int32.ofNat layout.typePointer) .t0,
     .la .t5 t.symbol,
     .label scan] ++
    Instr.beq .t4 .zero failed ++
    Instr.beq .t4 .t5 done ++
    [Instr.lw .t4 (Int32.ofNat layout.typeBase) .t4] ++
    Instr.jump scan ++
    [Instr.label failed] ++
    (if isCast then throwHere .throwInvalidCast else [Instr.move .t0 .zero]) ++
    [Instr.label done] ++
    Instr.push .t0

/-- The exception object is the argument already. -/
def throwObject : List Instr := Instr.callSymbol Intrinsic.throwObject.symbol

end Stencil.Mips
