import Stencil.Machine.Invocation
import Stencil.Mips.Instr

/-!
# The MIPS32 machine

An interpreter of instruction lists. The program counter runs one instruction behind its successor,
so a branch takes effect after its delay slot. When the program counter reaches the address of an
intrinsic, the intrinsic runs and control returns through `$ra`.
-/

namespace Stencil.Mips

open AddressMap

/-- The state of a machine. -/
structure Machine where
  regs : Vector UInt32 32 := Vector.replicate 32 0
  hi : UInt32 := 0
  lo : UInt32 := 0
  pc : UInt32 := returnSentinel
  /-- Address of the instruction after the one at `pc`. -/
  npc : UInt32 := returnSentinel
  store : Store
  /-- Instructions run by the last invocation. -/
  trace : Array TraceEntry := #[]

/-- Steps of a machine keep its state when they fault. -/
abbrev Run := EStateM Fault Machine

/-! ## Arithmetic -/

/-- An arithmetic shift to the right; of the count only the lowest five bits matter. -/
def shiftRightSigned (value count : UInt32) : UInt32 :=
  (value.toInt32 >>> (count % 32).toInt32).toUInt32

def alu (op : AluOp) (lhs rhs : UInt32) : UInt32 :=
  match op with
  | .addu => lhs + rhs
  | .subu => lhs - rhs
  | .and => lhs &&& rhs
  | .or => lhs ||| rhs
  | .xor => lhs ^^^ rhs
  | .nor => ~~~(lhs ||| rhs)
  | .slt => if lhs.toInt32 < rhs.toInt32 then 1 else 0
  | .sltu => if lhs < rhs then 1 else 0
  | .sllv => lhs <<< (rhs % 32)
  | .srlv => lhs >>> (rhs % 32)
  | .srav => shiftRightSigned lhs rhs

/-- Result of an operation with an immediate; bitwise operations take its lowest halfword. -/
def aluImm (op : ImmOp) (src : UInt32) (imm : Int32) : UInt32 :=
  let half := imm.toUInt32 &&& 0xFFFF
  match op with
  | .addiu => src + imm.toUInt32
  | .andi => src &&& half
  | .ori => src ||| half
  | .xori => src ^^^ half
  | .slti => if src.toInt32 < imm then 1 else 0
  | .sltiu => if src < imm.toUInt32 then 1 else 0

def shiftBy (op : ShiftOp) (src amount : UInt32) : UInt32 :=
  match op with
  | .sll => src <<< (amount % 32)
  | .srl => src >>> (amount % 32)
  | .sra => shiftRightSigned src amount

def product (unsigned : Bool) (lhs rhs : UInt32) : UInt64 :=
  if unsigned then lhs.toUInt64 * rhs.toUInt64
  else (lhs.toInt32.toInt64 * rhs.toInt32.toInt64).toUInt64

/-- Quotient and remainder; signed division goes toward zero and wraps. -/
def quotient (unsigned : Bool) (lhs rhs : UInt32) : UInt32 × UInt32 :=
  if unsigned then (lhs / rhs, lhs % rhs)
  else ((lhs.toInt32 / rhs.toInt32).toUInt32, (lhs.toInt32 % rhs.toInt32).toUInt32)

def ZeroTest.holds (test : ZeroTest) (value : Int32) : Bool :=
  match test with
  | .lez => value ≤ 0
  | .gtz => 0 < value
  | .ltz => value < 0
  | .gez => 0 ≤ value

/-- A loaded value, with its sign in all higher bits if it is signed. -/
def extendLoad (width : Width) (signed : Bool) (value : UInt32) : UInt32 :=
  if signed then Word.signExtend (8 * width.bytes) value else value

namespace Machine

def reg (m : Machine) (r : Reg) : UInt32 := m.regs[r.index]

/-- The machine with a register changed; `$zero` keeps its value. -/
def setReg (m : Machine) (r : Reg) (value : UInt32) : Machine :=
  if r = .zero then m else { m with regs := m.regs.set r.index value }

/-! ## Registers and memory -/

def get (r : Reg) : Run UInt32 := fun m => .ok (m.reg r) m

def put (r : Reg) (value : UInt32) : Run Unit := fun m => .ok () (m.setReg r value)

def lift {α : Type} : Except Fault α → Run α
  | .ok a => pure a
  | .error fault => throw fault

def onStore {α : Type} (action : StoreM α) : Run α := fun m =>
  let { regs, hi, lo, pc, npc, store, trace } := m
  match action store with
  | .ok a store => .ok a { regs, hi, lo, pc, npc, store, trace }
  | .error fault store => .error fault { regs, hi, lo, pc, npc, store, trace }

/-- Push a word; the stack pointer moves once the word is stored. -/
def push (value : UInt32) : Run Unit := do
  let sp := (← get .sp) - 4
  onStore (Store.writeWord sp value)
  put .sp sp

/-- The address of an access, which has to be a multiple of its width. -/
def address (width : Width) (offset : Int32) (base : Reg) : Run UInt32 := do
  let a := (← get base) + offset.toUInt32
  if a.toNat % width.bytes ≠ 0 then
    throw (.unaligned a)
  return a

def setHiLo (hi lo : UInt32) : Run Unit := fun m => .ok () { m with hi, lo }

/-- Leave the return address of a call in `$ra`: past the delay slot. -/
def link : Run Unit := fun m => .ok () (m.setReg .ra (m.pc + 8))

/-! ## Instructions -/

variable (p : Program Instr)

/-- Run one instruction. The result is where control goes after the next one, if that is not the
instruction after it. -/
def execute : Instr → Run (Option UInt32)
  | .label _ | .nop => return none
  | .alu op dst lhs rhs => do
    put dst (alu op (← get lhs) (← get rhs))
    return none
  | .aluImm op dst src imm => do
    put dst (aluImm op (← get src) imm)
    return none
  | .shift op dst src amount => do
    put dst (shiftBy op (← get src) amount.toUInt32)
    return none
  | .mult lhs rhs unsigned => do
    let result := product unsigned (← get lhs) (← get rhs)
    setHiLo (result >>> 32).toUInt32 result.toUInt32
    return none
  | .div lhs rhs unsigned => do
    let divisor ← get rhs
    if divisor = 0 then
      throw .divide
    let (lo, hi) := quotient unsigned (← get lhs) divisor
    setHiLo hi lo
    return none
  | .mfhi dst => fun m => .ok none (m.setReg dst m.hi)
  | .mflo dst => fun m => .ok none (m.setReg dst m.lo)
  | .li dst imm => do
    put dst imm.toUInt32
    return none
  | .la dst symbol => do
    put dst (← lift (p.resolve symbol))
    return none
  | .move dst src => do
    put dst (← get src)
    return none
  | .load width signed dst offset base => do
    let a ← address width offset base
    put dst (extendLoad width signed (← onStore (Store.read a width.bytes)))
    return none
  | .store width src offset base => do
    let a ← address width offset base
    let value ← get src
    onStore (Store.write a width.bytes value)
    return none
  | .branch onEqual lhs rhs target => do
    if ((← get lhs) == (← get rhs)) == onEqual then
      return some (← lift (p.labelAddress target))
    return none
  | .branchZero test src target => do
    if test.holds (← get src).toInt32 then
      return some (← lift (p.labelAddress target))
    return none
  | .j target => return some (← lift (p.labelAddress target))
  | .jal symbol => do
    let target ← lift (p.resolve symbol)
    link
    return some target
  | .jalr target => do
    let target ← get target
    link
    return some target
  | .jr target => return some (← get target)

/-- Run an intrinsic and return through `$ra`. -/
def callIntrinsic (intrinsic : Intrinsic) : Run Unit := do
  let ra ← get .ra
  let sp ← get .sp
  match ← onStore (p.runIntrinsic intrinsic sp (ra - 8)) with
  | some value => put .v0 value
  | none => pure ()
  modify fun m => { m with pc := ra, npc := ra + 4 }

/-- Run the intrinsic at the program counter, or fetch the instruction there, note it in the trace,
and run it. -/
def cycle : Run Unit := do
  let site := (← EStateM.get).pc
  match Intrinsic.atAddress? site with
  | some intrinsic => callIntrinsic p intrinsic
  | none =>
    let index ← lift (p.indexOf site)
    modify fun m =>
      let entry : TraceEntry := { index, sp := m.reg .sp, fp := m.reg .fp }
      { m with trace := m.trace.push entry }
    match p.code[index]? with
    | none => throw (.invalidInstruction site)
    | some instr =>
      let next ← execute p instr
      modify fun m => { m with pc := m.npc, npc := next.getD (m.npc + 4) }

/-- Run until the outermost return, for `fuel` steps at most. -/
def run : (fuel : Nat) → Run Unit
  | 0 => fun m => if m.pc = returnSentinel then .ok () m else .error (.stepLimit p.stepLimit) m
  | fuel + 1 => fun m =>
    if m.pc = returnSentinel then .ok () m
    else
      match cycle p m with
      | .ok _ m => run fuel m
      | .error fault m => .error fault m

/-- Call `entry` with `args`, the first one deepest, and a return slot of `returnBytes`; the words
of the slot are returned, the low one first. -/
def invoke (entry : Symbol) (args : List StackValue) (returnBytes : UInt32) :
    Run (List UInt32) := do
  modify fun m => { m with trace := #[], regs := Vector.replicate 32 0 }
  put .sp stackTop
  (Invocation.argumentWords args).forM push
  put .sp ((← get .sp) - returnBytes)
  put .ra returnSentinel
  let start ← lift (p.resolve entry)
  modify fun m => { m with pc := start, npc := start + 4 }
  run p p.stepLimit
  let sp ← get .sp
  let expected := Invocation.returnSp args returnBytes
  if sp ≠ expected then
    throw (.stackImbalance expected sp)
  (List.range (returnBytes / 4).toNat).mapM fun k =>
    onStore (Store.readWord (sp + 4 * UInt32.ofNat k))

def ops : MachineOps Instr Machine where
  start store := { store }
  store := Machine.store
  onStore := onStore
  trace := Machine.trace
  registers m := Reg.all.map fun r => (r.name, m.reg r)
  invoke := invoke

end Machine

end Stencil.Mips
