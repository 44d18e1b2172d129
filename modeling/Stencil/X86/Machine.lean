import Stencil.Machine.Invocation
import Stencil.X86.Instr

/-!
# The x86 machine

An interpreter of instruction lists. A call of an intrinsic runs it at once: no return address is
pushed, so the intrinsic finds its return slot at the stack pointer.
-/

namespace Stencil.X86

open AddressMap

/-- The condition flags. -/
structure Flags where
  carry : Bool := false
  zero : Bool := false
  sign : Bool := false
  overflow : Bool := false
  deriving DecidableEq

def Flags.holds (f : Flags) : Cond → Bool
  | .e => f.zero
  | .ne => !f.zero
  | .l => f.sign != f.overflow
  | .le => f.zero || f.sign != f.overflow
  | .g => !f.zero && f.sign == f.overflow
  | .ge => f.sign == f.overflow
  | .b => f.carry
  | .be => f.carry || f.zero
  | .a => !f.carry && !f.zero
  | .ae => !f.carry

/-- The state of a machine. -/
structure Machine where
  regs : Vector UInt32 8 := Vector.replicate 8 0
  flags : Flags := {}
  pc : UInt32 := returnSentinel
  store : Store
  /-- Instructions run by the last invocation. -/
  trace : Array TraceEntry := #[]

/-- Steps of a machine keep its state when they fault. -/
abbrev Run := EStateM Fault Machine

/-! ## Arithmetic on operands of some bits -/

def signBit (bits value : Nat) : Bool := value.testBit (bits - 1)

def flagsOf (bits result : Nat) (carry overflow : Bool) : Flags :=
  { carry, overflow, zero := result == 0, sign := signBit bits result }

def addWith (bits a b c : Nat) : Nat × Flags :=
  let raw := a + b + c
  let result := raw % Word.modulus bits
  let overflow := signBit bits a == signBit bits b && signBit bits raw != signBit bits a
  (result, flagsOf bits result (Word.modulus bits ≤ raw) overflow)

def subWith (bits a b c : Nat) : Nat × Flags :=
  let raw := a + Word.modulus (bits + 1) - (b + c)
  let result := raw % Word.modulus bits
  let overflow := signBit bits a != signBit bits b && signBit bits raw != signBit bits a
  (result, flagsOf bits result (a < b + c) overflow)

/-- A bitwise result, which clears carry and overflow. -/
def logical (bits result : Nat) : Nat × Flags := (result, flagsOf bits result false false)

/-- Result and flags of an operation on operands of `bits` bits. -/
def alu (op : AluOp) (bits : Nat) (a b : UInt32) (carry : Bool) : UInt32 × Flags :=
  let a := a.toNat % Word.modulus bits
  let b := b.toNat % Word.modulus bits
  let (result, flags) :=
    match op with
    | .add => addWith bits a b 0
    | .adc => addWith bits a b carry.toNat
    | .sub | .cmp => subWith bits a b 0
    | .sbb => subWith bits a b carry.toNat
    | .and => logical bits (a &&& b)
    | .or => logical bits (a ||| b)
    | .xor => logical bits (a ^^^ b)
  (UInt32.ofNat result, flags)

/-- Result and carry of shifting `value` by `n` bits, one to thirty-one. -/
def shiftBits (kind : ShiftKind) (bits : Nat) (value : UInt32) (n : Nat) : Nat × Bool :=
  let v := value.toNat
  match kind with
  | .shl => ((v <<< n) % Word.modulus bits, (v <<< n).testBit bits)
  | .shr => (v >>> n, v.testBit (n - 1))
  | .sar =>
    let signed := Word.signed bits v
    (Word.wrap bits (signed >>> n), (signed >>> (n - 1)) % 2 == 1)

namespace Machine

def reg (m : Machine) (r : Reg) : UInt32 := m.regs[r.index]

def setReg (m : Machine) (r : Reg) (value : UInt32) : Machine :=
  { m with regs := m.regs.set r.index value }

/-! ## Registers, memory and operands -/

def get (r : Reg) : Run UInt32 := fun m => .ok (m.reg r) m

def put (r : Reg) (value : UInt32) : Run Unit := fun m => .ok () (m.setReg r value)

def lift {α : Type} : Except Fault α → Run α
  | .ok a => pure a
  | .error fault => throw fault

def onStore {α : Type} (action : StoreM α) : Run α := fun m =>
  let { regs, flags, pc, store, trace } := m
  match action store with
  | .ok a store => .ok a { regs, flags, pc, store, trace }
  | .error fault store => .error fault { regs, flags, pc, store, trace }

/-- Push a word; the stack pointer moves once the word is stored. -/
def push (value : UInt32) : Run Unit := do
  let sp := (← get .esp) - 4
  onStore (Store.writeWord sp value)
  put .esp sp

def pop : Run UInt32 := do
  let sp ← get .esp
  let value ← onStore (Store.readWord sp)
  put .esp (sp + 4)
  return value

variable (p : Program Instr)

def address (mem : Mem) : Run UInt32 := do
  let base ←
    match mem.base with
    | some r => get r
    | none => pure 0
  let symbol ←
    match mem.symbol with
    | some s => lift (p.resolve s)
    | none => pure 0
  return mem.disp.toUInt32 + base + symbol

def operandBits : Operand → Nat
  | .part _ width | .mem width _ => 8 * width.bytes
  | _ => 32

/-- The value of an operand, filled up with zeros. -/
def read : Operand → Run UInt32
  | .reg r => get r
  | .part r width => return UInt32.ofNat ((← get r).toNat % Word.modulus (8 * width.bytes))
  | .imm value => return value.toUInt32
  | .mem width mem => do
    let a ← address p mem
    onStore (Store.read a width.bytes)
  | .addr symbol => lift (p.resolve symbol)

def mergePart (width : Width) (old value : UInt32) : UInt32 :=
  let unit := Word.modulus (8 * width.bytes)
  UInt32.ofNat (old.toNat / unit * unit + value.toNat % unit)

/-- Change an operand; an immediate cannot be changed. -/
def write (value : UInt32) : Operand → Run Unit
  | .reg r => put r value
  | .part r width => do put r (mergePart width (← get r) value)
  | .mem width mem => do
    let a ← address p mem
    onStore (Store.write a width.bytes value)
  | .imm _ | .addr _ => fun m => .error (.invalidInstruction m.pc) m

def targetAddress : Target → Run UInt32
  | .label l => lift (p.labelAddress l)
  | .symbol s => lift (p.resolve s)
  | .reg r => get r

/-- The count of a shift, modulo 32. -/
def shiftCount : ShiftCount → Run Nat
  | .cl => return (← get .ecx).toNat % 32
  | .imm n => return n.toNat % 32

def setFlags (f : Flags → Flags) : Run Unit := fun m => .ok () { m with flags := f m.flags }

def goto (pc : UInt32) : Run Unit := fun m => .ok () { m with pc }

/-! ## Instructions -/

/-- The low word of a signed product; carry and overflow tell that it does not fit. -/
def imul (dst : Reg) (lhs rhs : UInt32) : Run Unit := do
  let exact := lhs.toInt32.toInt * rhs.toInt32.toInt
  let product := Int32.ofInt exact
  let overflow := product.toInt != exact
  setFlags fun f => { f with carry := overflow, overflow }
  put dst product.toUInt32

def accumulator : Run Nat := do
  return (← get .edx).toNat * 0x100000000 + (← get .eax).toNat

/-- Unsigned division; a quotient that does not fit a word is a fault. -/
def divide (divisor : UInt32) : Run Unit := do
  let dividend ← accumulator
  let quotient := dividend / divisor.toNat
  if divisor = 0 ∨ 0x100000000 ≤ quotient then
    throw .divide
  put .eax (UInt32.ofNat quotient)
  put .edx (UInt32.ofNat (dividend % divisor.toNat))

/-- Signed division toward zero; a quotient that does not fit a word is a fault. -/
def divideSigned (divisor : UInt32) : Run Unit := do
  let dividend := Word.signed 64 (← accumulator)
  let divisor := divisor.toInt32.toInt
  let quotient := dividend.tdiv divisor
  if divisor = 0 ∨ quotient < -0x80000000 ∨ 0x80000000 ≤ quotient then
    throw .divide
  put .eax (Int32.ofInt quotient).toUInt32
  put .edx (Int32.ofInt (dividend.tmod divisor)).toUInt32

/-- Shift an operand; a count of zero changes nothing, flags included. -/
def shift (kind : ShiftKind) (dst : Operand) (count : ShiftCount) : Run Unit := do
  let n ← shiftCount count
  if n ≠ 0 then
    let bits := operandBits dst
    let value ← read p dst
    let (result, carry) := shiftBits kind bits value n
    setFlags fun f => { f with carry, zero := result == 0, sign := signBit bits result }
    write p (UInt32.ofNat result) dst

/-- Shift an operand with bits of a register coming in. -/
def shiftDouble (left : Bool) (dst : Operand) (src : Reg) (count : ShiftCount) : Run Unit := do
  let n ← shiftCount count
  if n ≠ 0 then
    let value ← read p dst
    let fill ← get src
    let n := UInt32.ofNat n
    write p (if left then (value <<< n) ||| (fill >>> (32 - n))
      else (value >>> n) ||| (fill <<< (32 - n))) dst

/-- Call: an intrinsic runs at once, anything else gets the return address `next`. -/
def call (site next : UInt32) (target : Target) : Run Unit := do
  let destination ← targetAddress p target
  match Intrinsic.atAddress? destination with
  | some intrinsic =>
    let sp ← get .esp
    match ← onStore (p.runIntrinsic intrinsic sp site) with
    | some value => put .eax value
    | none => pure ()
  | none =>
    push next
    goto destination

/-- Run one instruction that lies at `site`; the program counter is past it already. -/
def execute (site : UInt32) : Instr → Run Unit
  | .label _ | .nop => pure ()
  | .mov dst src => do write p (← read p src) dst
  | .movzx dst src => do put dst (← read p src)
  | .movsx dst src => do put dst (Word.signExtend (operandBits src) (← read p src))
  | .lea dst src => do put dst (← address p src)
  | .push src => do push (← read p src)
  | .pop dst => do write p (← pop) dst
  | .alu op dst src => do
    let a ← read p dst
    let b ← read p src
    let (result, flags) := alu op (operandBits dst) a b (← EStateM.get).flags.carry
    setFlags fun _ => flags
    if op ≠ .cmp then
      write p result dst
  | .test dst src => do
    let a ← read p dst
    let b ← read p src
    let (_, flags) := alu .and (operandBits dst) a b false
    setFlags fun _ => flags
  | .neg dst => do
    let value ← read p dst
    let (result, flags) := alu .sub (operandBits dst) 0 value false
    setFlags fun _ => flags
    write p result dst
  | .not dst => do write p (~~~(← read p dst)) dst
  | .mul src => do
    let product := (← get .eax).toNat * (← read p src).toNat
    let high := product / 0x100000000
    put .eax (UInt32.ofNat product)
    put .edx (UInt32.ofNat high)
    setFlags fun f => { f with carry := high != 0, overflow := high != 0 }
  | .imul dst src => do
    let lhs ← get dst
    imul dst lhs (← read p src)
  | .imulImm dst src imm => do imul dst (← read p src) imm.toUInt32
  | .div src => do divide (← read p src)
  | .idiv src => do divideSigned (← read p src)
  | .cdq => do put .edx (if (← get .eax) < 0x80000000 then 0 else 0xFFFFFFFF)
  | .shift kind dst count => shift p kind dst count
  | .shld dst src count => shiftDouble p true dst src count
  | .shrd dst src count => shiftDouble p false dst src count
  | .jmp target => do goto (← targetAddress p target)
  | .jcc cond target => do
    if (← EStateM.get).flags.holds cond then
      goto (← lift (p.labelAddress target))
  | .call target => call p site (site + 4) target
  | .ret => do goto (← pop)

/-- Fetch the instruction at the program counter, note it in the trace, and run it. -/
def cycle : Run Unit := do
  let site := (← EStateM.get).pc
  let index ← lift (p.indexOf site)
  modify fun m =>
    let entry : TraceEntry := { index, sp := m.reg .esp, fp := m.reg .ebp }
    { m with trace := m.trace.push entry }
  match p.code[index]? with
  | none => throw (.invalidInstruction site)
  | some instr =>
    goto (site + 4)
    execute p site instr

/-- Run until the outermost return, for `fuel` instructions at most. -/
def run : (fuel : Nat) → Run Unit
  | 0 => fun m => if m.pc = returnSentinel then .ok () m else .error (.stepLimit p.stepLimit) m
  | fuel + 1 => fun m =>
    if m.pc = returnSentinel then .ok () m
    else
      match cycle p m with
      | .ok _ m => run fuel m
      | .error fault m => .error fault m

/-- Call `entry` with `args`, the first one deepest, and a return slot of `returnBytes`; the words
of the slot are returned, the low one first. -/
def invoke (entry : Symbol) (args : List StackValue) (returnBytes : UInt32) :
    Run (List UInt32) := do
  modify fun m => { m with trace := #[], regs := Vector.replicate 8 0, flags := {} }
  put .esp stackTop
  (Invocation.argumentWords args).forM push
  put .esp ((← get .esp) - returnBytes)
  push returnSentinel
  goto (← lift (p.resolve entry))
  run p p.stepLimit
  let sp ← get .esp
  let expected := Invocation.returnSp args returnBytes
  if sp ≠ expected then
    throw (.stackImbalance expected sp)
  (List.range (returnBytes / 4).toNat).mapM fun k =>
    onStore (Store.readWord (sp + 4 * UInt32.ofNat k))

def ops : MachineOps Instr Machine where
  start store := { store }
  store := Machine.store
  onStore := onStore
  trace := Machine.trace
  registers m := Reg.all.map fun r => (r.name, m.reg r)
  invoke := invoke

end Machine

end Stencil.X86
