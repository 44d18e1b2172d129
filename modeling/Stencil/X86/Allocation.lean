import Stencil.X86.Guard

/-!
# Allocation and type tests
-/

namespace Stencil.X86

variable (ctx : EmitContext) (i : Instruction)

/-- Halt unless the allocation in `eax` succeeded. -/
def checkAllocation : List Instr :=
  let allocated := ctx.inside i "Allocated" 0
  [.testReg .eax,
   .jcc .ne allocated,
   .pushImm HaltReason.outOfMemory.code.toInt32,
   .callSymbol Intrinsic.halt.symbol,
   .label allocated]

/-- Call an allocator whose last argument is a type descriptor; the pointer is left in `eax`. -/
def allocate (allocator : Intrinsic) (descriptor : Symbol) : List Instr :=
  [Instr.pushAddr descriptor] ++ Instr.reserve allocator.returnBytes ++
    [Instr.callSymbol allocator.symbol, .popReg .eax] ++ Instr.drop allocator.argBytes ++
    checkAllocation ctx i

/-- Move word `k` of the constructor's arguments two words down. -/
def slideArgument (k : Nat) : List Instr :=
  let offset := Int32.ofNat (4 * k)
  [.load .esi (.based .esp (offset + 8)), .store (.based .esp offset) .esi]

/-- Allocate and call the constructor on arguments of `params` bytes. The arguments move down two
words, one for the receiver and one for the reference that stays after the call. -/
def construct (descriptor ctor : Symbol) (params : Nat) : List Instr :=
  allocate ctx i .newObject descriptor ++
  Instr.reserve 8 ++
  (List.range (params / 4)).flatMap slideArgument ++
  [Instr.store (.based .esp (Int32.ofNat params)) .eax,
   .store (.based .esp (Int32.ofNat params + 4)) .eax,
   .callSymbol ctor] ++
  Instr.drop ((params + 4) % UInt32.size)

/-- A delegate keeps the function pointer and drops the receiver under it. -/
def newObject : Except CompileError (List Instr) := do
  let (ctor, declaring) ← ctx.methodAndType i
  if declaring.isDelegate then
    return [Instr.popReg .eax] ++ Instr.drop 4 ++ [Instr.pushReg .eax]
  else
    return construct ctx i declaring.symbol ctor.symbol (← ctx.paramBytes i ctor.params)

/-- The length is on the stack already, as the allocator's first argument. -/
def newArray : Except CompileError (List Instr) := do
  let t ← ctx.tables.resolveType i
  return allocate ctx i .newArray t.symbol ++ [Instr.pushReg .eax]

/-- Follow the base types of the object for the type that is asked for. Null passes; a failure
gives null, or for a cast an exception. -/
def typeTest (isCast : Bool) : Except CompileError (List Instr) := do
  let t ← ctx.tables.resolveType i
  let layout := ctx.options.layout
  let scan := ctx.inside i "Scan" 0
  let failed := ctx.inside i "Failed" 1
  let done := ctx.inside i "Done" 2
  return [Instr.popReg .eax,
     .testReg .eax,
     .jcc .e done,
     .load .ecx (.based .eax (Int32.ofNat layout.typePointer)),
     .label scan,
     .testReg .ecx,
     .jcc .e failed,
     .alu .cmp (.reg .ecx) (.addr t.symbol),
     .jcc .e done,
     .load .ecx (.based .ecx (Int32.ofNat layout.typeBase)),
     .jump scan,
     .label failed] ++
    (if isCast then throwHere .throwInvalidCast else [Instr.aluReg .xor .eax .eax]) ++
    [Instr.label done,
     .pushReg .eax]

/-- The exception object is the argument already. -/
def throwObject : List Instr := [.callSymbol Intrinsic.throwObject.symbol]

end Stencil.X86
