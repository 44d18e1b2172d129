import Stencil.Mips.Guard

/-!
# The calling convention

The caller pushes the arguments, reserves the return slot, calls, and then trades the arguments for
the result. A call leaves the return address in `$ra`; the callee spills it, so that the frame is
the same on all targets.
-/

namespace Stencil.Mips

/-! ## Method start, method end and return -/

/-- Set up the frame and push a zero for each word of the locals. -/
def prologue (ctx : EmitContext) : List Instr :=
  Instr.push .ra ++
  Instr.push .fp ++
  [Instr.move .fp .sp] ++
  (List.replicate (ctx.frame.localBytes / 4) (Instr.push .zero)).flatten

/-- Move a result of one or two words into the return slot and leave. A larger result is there
already. -/
def epilogue (ctx : EmitContext) : List Instr :=
  (match ctx.frame.returnBytes with
    | 4 => [Instr.sw .v0 Frame.returnSlot .fp]
    | 8 => [Instr.sw .v0 Frame.returnSlot .fp, .sw .v1 (Frame.returnSlot + 4) .fp]
    | _ => []) ++
  [Instr.move .sp .fp] ++
  Instr.pop .fp ++
  Instr.pop .ra ++
  [Instr.jr .ra, .nop]

/-- Pop word `k` of a large result into the return slot. -/
def returnWord (k : Nat) : List Instr :=
  Instr.pop .t6 ++ [Instr.sw .t6 (Frame.returnSlot + Int32.ofNat (4 * k)) .fp]

/-- Pop the result into registers, or a larger one into the return slot. -/
def returnValue (i : Instruction) (bytes : Nat) : Except CompileError (List Instr) :=
  match bytes with
  | 0 => .ok []
  | 4 => .ok (Instr.pop .v0)
  | 8 => .ok (Instr.pop .v0 ++ Instr.pop .v1)
  | bytes => do
    let _ ← displacement i (Frame.returnSlot.toInt + bytes)
    return (List.range (bytes / 4)).flatMap returnWord

/-- Take the result from the stack and go to the end. -/
def ret (ctx : EmitContext) (i : Instruction) (effect : Effect) :
    Except CompileError (List Instr) := do
  let value ← returnValue i effect.poppedBytes
  return value ++ Instr.jump ctx.endLabel

/-! ## Calls -/

/-- Copy word `k` of the result up over the arguments. -/
def slideResult (args k : Nat) : List Instr :=
  let offset := Int32.ofNat (4 * k)
  [.lw .t6 offset .sp, .sw .t6 (Int32.ofNat args + offset) .sp]

/-- Replace `args` bytes of arguments below a result of `ret` bytes by the result alone. A large
result is copied high word first, since it moves up. -/
def afterCall (ret args : Nat) : List Instr :=
  if args = 0 then []
  else
    match ret with
    | 0 => Instr.drop args
    | 4 => Instr.pop .t0 ++ Instr.drop args ++ Instr.push .t0
    | 8 =>
      Instr.pop .t0 ++ Instr.pop .t1 ++ Instr.drop args ++ Instr.push .t1 ++ Instr.push .t0
    | ret => (List.range (ret / 4)).reverse.flatMap (slideResult args) ++ Instr.drop args

/-- Reserve the return slot, call the method by its symbol, and drop the arguments. -/
def call (ctx : EmitContext) (i : Instruction) (effect : Effect) :
    Except CompileError (List Instr) := do
  let m ← ctx.tables.resolveMethod i
  let ret := effect.pushedBytes
  return Instr.reserve ret ++ Instr.callSymbol m.symbol ++ afterCall ret effect.poppedBytes

/-- The function pointer lies on top of the arguments. -/
def callIndirect (effect : Effect) : List Instr :=
  let ret := effect.pushedBytes
  Instr.pop .t9 ++ Instr.reserve ret ++ Instr.callReg .t9 ++
    afterCall ret effect.bytesBelow

/-- Search the method tables of the object in `$t0` for `slot` and call what is found. Each table
is a run of pairs of a slot and an address, closed by zero and the table of the base type. Labels
have numbers one to three. -/
def dispatch (ctx : EmitContext) (i : Instruction) (slot ret : Nat) : List Instr :=
  let scan := ctx.inside i "Scan" 1
  let next := ctx.inside i "Next" 2
  let found := ctx.inside i "Found" 3
  let layout := ctx.options.layout
  [Instr.lw .t0 (Int32.ofNat layout.typePointer) .t0,
   .lw .t0 (Int32.ofNat layout.typeMethodTable) .t0,
   .li .t5 (Int32.ofNat slot),
   .label scan,
   .lw .t4 0 .t0] ++
  Instr.beq .t4 .t5 found ++
  Instr.bne .t4 .zero next ++
  [Instr.lw .t0 4 .t0] ++
  Instr.bne .t0 .zero scan ++
  Instr.pushImm HaltReason.missingVirtualMethod.code.toInt32 ++
  Instr.callSymbol Intrinsic.halt.symbol ++
  [Instr.label next,
   .addiu .t0 .t0 8] ++
  Instr.jump scan ++
  [Instr.label found,
   .lw .t9 4 .t0] ++
  Instr.reserve ret ++
  Instr.callReg .t9

/-- A delegate is called through its function pointer, a method that is not virtual by its symbol,
and a virtual one by a search of the receiver's method tables. -/
def callVirtual (ctx : EmitContext) (i : Instruction) (effect : Effect) :
    Except CompileError (List Instr) := do
  let (m, declaring) ← ctx.methodAndType i
  let ret := effect.pushedBytes
  let args := effect.poppedBytes
  let this ← displacement i ((args : Int) - ctx.options.pointerSize)
  let body :=
    if declaring.isDelegate then
      [Instr.lw .t9 this .sp] ++ nullCheck ctx i .t9 ++ Instr.reserve ret ++ Instr.callReg .t9
    else if !m.isVirtual then
      [Instr.lw .t0 this .sp] ++ nullCheck ctx i .t0 ++ Instr.reserve ret ++
        Instr.callSymbol m.symbol
    else
      [Instr.lw .t0 this .sp] ++ nullCheck ctx i .t0 ++ dispatch ctx i m.id.val ret
  return body ++ afterCall ret args

end Stencil.Mips
