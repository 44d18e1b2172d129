import Stencil.Compile
import Stencil.Machine.Invocation
import Mathlib.Algebra.Group.Nat.Defs
import Mathlib.Algebra.Ring.Int.Defs

/-!
# What bytecode means

A reference interpreter of the integer and control operations. A value is a list of words that spell
a number, and an operation computes with the number: nothing here knows about templates, frames in
memory or machines. Operations outside of the fragment have no meaning.
-/

namespace Stencil.Meaning

/-! ## Values -/

/-- The words of a value, the low one first. -/
abbrev Value := List UInt32

namespace Value

def toNat : Value → Nat
  | [] => 0
  | w :: rest => w.toNat + 0x100000000 * toNat rest

def toInt (v : Value) : Int := Int.bmod v.toNat (2 ^ (32 * v.length))

def ofInt : (words : Nat) → Int → Value
  | 0, _ => []
  | words + 1, n => UInt32.ofInt n :: ofInt words (n / 0x100000000)

def isInteger (v : Value) : Bool := v.length == 1 || v.length == 2

end Value

/-! ## Operations on integers -/

open Value

/-- Arithmetic is modulo the width; bitwise operations act word by word. Division has no meaning
here. -/
def binary (op : BinaryOp) (a b : Value) : Option Value :=
  if a.isInteger && a.length == b.length then
    match op with
    | .add => some (ofInt a.length (a.toNat + b.toNat))
    | .sub => some (ofInt a.length (a.toNat - b.toNat))
    | .mul => some (ofInt a.length (a.toNat * b.toNat))
    | .and => some (List.zipWith (· &&& ·) a b)
    | .or => some (List.zipWith (· ||| ·) a b)
    | .xor => some (List.zipWith (· ^^^ ·) a b)
    | .div | .divUn | .rem | .remUn => none
  else
    none

def unary (op : UnaryOp) (a : Value) : Option Value :=
  if a.isInteger then
    match op with
    | .neg => some (ofInt a.length (-a.toNat))
    | .not => some (a.map (~~~·))
  else
    none

/-- What becomes of the count when a single word is shifted by a double word. -/
inductive CountRule where
  /-- Five bits of every count matter. -/
  | masked
  /-- A count that no word can hold shifts everything out. -/
  | saturating

/-- By how much a value of so many words is shifted: a word by the lowest five bits of the count, a
double word by up to its width. -/
def shiftAmount (rule : CountRule) (words : Nat) (count : Value) : Nat :=
  if words = 1 then
    match rule with
    | .masked => count.toNat % 32
    | .saturating => if count.toNat < 0x100000000 then count.toNat % 32 else 64
  else
    min count.toNat 64

/-- A shift to the left, or to the right with the sign or with zeros. -/
def shift (rule : CountRule) (op : ShiftOp) (a count : Value) : Option Value :=
  if a.isInteger && count.isInteger then
    let unit := 2 ^ shiftAmount rule a.length count
    match op with
    | .shl => some (ofInt a.length (a.toNat * unit))
    | .shr => some (ofInt a.length (a.toInt / unit))
    | .shrUn => some (ofInt a.length (a.toNat / unit))
  else
    none

def compare (op : CompareOp) (a b : Value) : Bool :=
  match op with
  | .eq => a.toNat = b.toNat
  | .gt => b.toInt < a.toInt
  | .gtUn => b.toNat < a.toNat
  | .lt => a.toInt < b.toInt
  | .ltUn => a.toNat < b.toNat

/-- The part of the number that the target holds, in one word or two. -/
def convert (target : ConvTarget) (a : Value) : Option Value :=
  if a.isInteger then
    let bits := 8 * target.valueSize 4
    let words := if bits = 64 then 2 else 1
    some (ofInt words (if target.isSigned then Int.bmod a.toInt (2 ^ bits) else a.toNat % 2 ^ bits))
  else
    none

def branches (condition : BranchCondition) (a b : Value) : Bool :=
  match condition with
  | .eq => a.toNat = b.toNat
  | .neUn => a.toNat ≠ b.toNat
  | .ge => b.toInt ≤ a.toInt
  | .gt => b.toInt < a.toInt
  | .le => a.toInt ≤ b.toInt
  | .lt => a.toInt < b.toInt
  | .geUn => b.toNat ≤ a.toNat
  | .gtUn => b.toNat < a.toNat
  | .leUn => a.toNat ≤ b.toNat
  | .ltUn => a.toNat < b.toNat
  | .always | .isTrue | .isFalse => true

/-! ## Instructions -/

/-- The state of an execution. -/
structure State where
  position : Nat
  args : List Value
  locals : List Value
  /-- The operand stack, topmost value first. -/
  stack : List Value

/-- Where an instruction leads. -/
inductive Outcome where
  | goes (s : State)
  | returns (v : Value)

namespace State

/-- On to the following instruction with a new stack. -/
def next (s : State) (i : Instruction) (stack : List Value) : Outcome :=
  .goes { s with position := i.nextPosition, stack }

def goto (s : State) (target : Int) (stack : List Value) : Option Outcome :=
  if 0 ≤ target then some (.goes { s with position := target.toNat, stack }) else none

/-- To the target of a branch that is taken, else to the following instruction. -/
def branch (s : State) (i : Instruction) (taken : Bool) (stack : List Value) : Option Outcome := do
  let target ← i.branchTarget.toOption
  if taken then s.goto target stack else some (s.next i stack)

end State

def constant? (i : Instruction) : Option Value :=
  if i.op = .ldcI8 then i.longConstant.toOption.map fun n => ofInt 2 n.toInt
  else i.constant.toOption.map fun n => [n.toUInt32]

/-- What an instruction does. -/
def step (rule : CountRule) (i : Instruction) (s : State) : Option Outcome :=
  match i.op.operation with
  | .nop => some (s.next i s.stack)
  | .loadArg => do
    let v ← s.args[← i.index.toOption]?
    some (s.next i (v :: s.stack))
  | .loadLocal => do
    let v ← s.locals[← i.index.toOption]?
    some (s.next i (v :: s.stack))
  | .storeArg => do
    let v :: stack := s.stack | none
    some ({ s with args := s.args.set (← i.index.toOption) v }.next i stack)
  | .storeLocal => do
    let v :: stack := s.stack | none
    some ({ s with locals := s.locals.set (← i.index.toOption) v }.next i stack)
  | .loadConst => do
    some (s.next i ((← constant? i) :: s.stack))
  | .loadNull => some (s.next i ([0] :: s.stack))
  | .dup => do
    let v :: stack := s.stack | none
    some (s.next i (v :: v :: stack))
  | .pop => do
    let _ :: stack := s.stack | none
    some (s.next i stack)
  | .binary op => do
    let b :: a :: stack := s.stack | none
    some (s.next i ((← binary op a b) :: stack))
  | .unary op => do
    let a :: stack := s.stack | none
    some (s.next i ((← unary op a) :: stack))
  | .shift op => do
    let count :: a :: stack := s.stack | none
    some (s.next i ((← shift rule op a count) :: stack))
  | .compare op => do
    let b :: a :: stack := s.stack | none
    some (s.next i ([if compare op a b then 1 else 0] :: stack))
  | .convert (some target) => do
    let a :: stack := s.stack | none
    some (s.next i ((← convert target a) :: stack))
  | .branch .always => s.branch i true s.stack
  | .branch .isTrue => do
    let a :: stack := s.stack | none
    s.branch i (a.toNat ≠ 0) stack
  | .branch .isFalse => do
    let a :: stack := s.stack | none
    s.branch i (a.toNat = 0) stack
  | .branch condition => do
    let b :: a :: stack := s.stack | none
    s.branch i (branches condition a b) stack
  | .switch => do
    let selector :: stack := s.stack | none
    let targets ← i.switchTargets.toOption
    match targets[selector.toNat]? with
    | some target => s.goto target stack
    | none => some (s.next i stack)
  | .leave => do
    s.goto (← i.branchTarget.toOption) []
  | .ret =>
    match s.stack with
    | [] => some (.returns [])
    | [v] => some (.returns v)
    | _ => none
  | _ => none

/-- Execute at most so many instructions; the value that is returned, if a return is reached. -/
def run (rule : CountRule) (body : List Instruction) : (steps : Nat) → State → Option Value
  | 0, _ => none
  | steps + 1, s =>
    match (body.find? (·.position == s.position)).bind (step rule · s) with
    | some (.goes s') => run rule body steps s'
    | some (.returns v) => some v
    | none => none

def State.height (s : State) : Nat := s.stack.flatten.length

/-- Words of the deepest operand stack that so many instructions meet. -/
def deepest (rule : CountRule) (body : List Instruction) : (steps : Nat) → State → Nat
  | 0, s => s.height
  | steps + 1, s =>
    match (body.find? (·.position == s.position)).bind (step rule · s) with
    | some (.goes s') => max s.height (deepest rule body steps s')
    | _ => s.height

/-! ## Calls -/

/-- The arguments that words fill, which are given in the order of the pushes: the first argument
first, and of each its high word. -/
def fill : List FrameSlot → List UInt32 → List Value
  | [], _ => []
  | slot :: rest, words =>
    (words.take slot.item.words).reverse :: fill rest (words.drop slot.item.words)

/-- The state in which a method of this frame starts, its locals zero. -/
def start (frame : Frame) (args : List StackValue) : State where
  position := 0
  args := fill frame.args (Invocation.argumentWords args)
  locals := frame.locals.map fun slot => List.replicate slot.item.words 0
  stack := []

/-! ## The fragment -/

/-- The operations that have a meaning. -/
def inFragment : Operation → Bool
  | .nop | .loadArg | .storeArg | .loadLocal | .storeLocal | .loadConst | .loadNull | .dup | .pop
  | .unary _ | .shift _ | .compare _ | .convert (some _) | .branch _ | .switch | .leave | .ret => true
  | .binary op => !op.isDivision
  | _ => false

end Stencil.Meaning
