import Stencil.X86.Guard

/-!
# The calling convention

The caller pushes the arguments, reserves the return slot, calls, and then trades the arguments for
the result. The callee saves the frame pointer, clears its locals, and leaves its result in the
return slot.
-/

namespace Stencil.X86

/-! ## Method start, method end and return -/

/-- Set up the frame and push a zero for each word of the locals. -/
def prologue (ctx : EmitContext) : List Instr :=
  [Instr.pushReg .ebp, .movReg .ebp .esp] ++
  List.replicate (ctx.frame.localBytes / 4) (.pushImm 0)

def returnSlot : Mem := .based .ebp Frame.returnSlot

/-- Move a result of one or two words into the return slot and leave. A larger result is there
already. -/
def epilogue (ctx : EmitContext) : List Instr :=
  (match ctx.frame.returnBytes with
    | 4 => [Instr.store returnSlot .eax]
    | 8 => [Instr.store returnSlot .eax, .store (returnSlot.offset 4) .edx]
    | _ => []) ++
  [Instr.movReg .esp .ebp, .popReg .ebp, .ret]

/-- Pop the result into registers, or a larger one into the return slot, and go to the end. -/
def ret (ctx : EmitContext) (effect : Effect) : List Instr :=
  (match effect.poppedBytes with
    | 0 => []
    | 4 => [Instr.popReg .eax]
    | 8 => [Instr.popReg .eax, .popReg .edx]
    | bytes =>
      (List.range (bytes / 4)).map fun k => .popMem (returnSlot.offset (Int32.ofNat (4 * k)))) ++
  [Instr.jump ctx.endLabel]

/-! ## Calls -/

/-- Copy word `k` of the result up over the arguments. -/
def slideResult (args k : Nat) : List Instr :=
  let offset := Int32.ofNat (4 * k)
  [.load .esi (.based .esp offset), .store (.based .esp (Int32.ofNat args + offset)) .esi]

/-- Replace `args` bytes of arguments below a result of `ret` bytes by the result alone. A large
result is copied high word first, since it moves up. -/
def afterCall (ret args : Nat) : List Instr :=
  if args = 0 then []
  else
    match ret with
    | 0 => Instr.drop args
    | 4 => [Instr.popReg .eax] ++ Instr.drop args ++ [Instr.pushReg .eax]
    | 8 =>
      [Instr.popReg .eax, .popReg .edx] ++ Instr.drop args ++ [Instr.pushReg .edx, .pushReg .eax]
    | ret => (List.range (ret / 4)).reverse.flatMap (slideResult args) ++ Instr.drop args

/-- Reserve the return slot, call the method by its symbol, and drop the arguments. -/
def call (ctx : EmitContext) (i : Instruction) (effect : Effect) :
    Except CompileError (List Instr) := do
  let m ← ctx.tables.resolveMethod i
  let ret := effect.pushedBytes
  return Instr.reserve ret ++ [Instr.callSymbol m.symbol] ++ afterCall ret effect.poppedBytes

/-- The function pointer lies on top of the arguments. -/
def callIndirect (effect : Effect) : List Instr :=
  let ret := effect.pushedBytes
  [Instr.popReg .esi] ++ Instr.reserve ret ++ [Instr.callReg .esi] ++
    afterCall ret effect.bytesBelow

/-- Search the method tables of the object in `eax` for `slot` and call what is found. Each table
is a run of pairs of a slot and an address, closed by zero and the table of the base type. Labels
have numbers one to three. -/
def dispatch (ctx : EmitContext) (i : Instruction) (slot ret : Nat) : List Instr :=
  let scan := ctx.inside i "Scan" 1
  let next := ctx.inside i "Next" 2
  let found := ctx.inside i "Found" 3
  let layout := ctx.options.layout
  [Instr.load .eax (.based .eax (Int32.ofNat layout.typePointer)),
   .load .eax (.based .eax (Int32.ofNat layout.typeMethodTable)),
   .label scan,
   .load .esi (.based .eax 0),
   .aluImm .cmp .esi (Int32.ofNat slot),
   .jcc .e found,
   .testReg .esi,
   .jcc .ne next,
   .load .eax (.based .eax 4),
   .testReg .eax,
   .jcc .ne scan,
   .pushImm HaltReason.missingVirtualMethod.code.toInt32,
   .callSymbol Intrinsic.halt.symbol,
   .label next,
   .aluImm .add .eax 8,
   .jump scan,
   .label found,
   .load .esi (.based .eax 4)] ++
  Instr.reserve ret ++
  [Instr.callReg .esi]

/-- A delegate is called through its function pointer, a method that is not virtual by its symbol,
and a virtual one by a search of the receiver's method tables. -/
def callVirtual (ctx : EmitContext) (i : Instruction) (effect : Effect) :
    Except CompileError (List Instr) := do
  let (m, declaring) ← ctx.methodAndType i
  let ret := effect.pushedBytes
  let args := effect.poppedBytes
  let this := Mem.based .esp (Int32.ofNat args - Int32.ofNat ctx.options.pointerSize)
  let body :=
    if declaring.isDelegate then
      [Instr.load .esi this] ++ nullCheck ctx i .esi ++ Instr.reserve ret ++ [Instr.callReg .esi]
    else if !m.isVirtual then
      [Instr.load .eax this] ++ nullCheck ctx i .eax ++ Instr.reserve ret ++
        [Instr.callSymbol m.symbol]
    else
      [Instr.load .eax this] ++ nullCheck ctx i .eax ++ dispatch ctx i m.id.val ret
  return body ++ afterCall ret args

end Stencil.X86
