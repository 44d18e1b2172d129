import Stencil.Bytes
import Stencil.Error
import Stencil.Identifier

/-!
# Instruction records

An instruction is an opcode with its raw operand bytes, the descriptors it refers to, its own
position and the position that follows it. Branch offsets count from the following position.
-/

namespace Stencil

/-- One decoded instruction. -/
structure Instruction where
  op : Opcode
  /-- Raw operand bytes, least significant first. -/
  operand : List UInt8 := []
  position : Nat
  nextPosition : Nat
  typeRef : Option TypeId := none
  fieldRef : Option FieldId := none
  methodRef : Option MethodId := none
  stringRef : Option StringId := none
  /-- Some branch arrives here. -/
  labelRequired : Bool := false
  deriving DecidableEq

namespace Instruction

/-- The record of `op` with `operand` at `position`, followed at once by the next one. -/
def placed (position : Nat) (op : Opcode) (operand : List UInt8) : Instruction :=
  { op, operand, position, nextPosition := position + op.encodedLength + operand.length }

/-- A pseudo operation takes no room in the body. -/
def pseudo (position : Nat) (op : Opcode) : Instruction :=
  { op, position, nextPosition := position }

/-! ## Errors at an instruction -/

def unsupported (i : Instruction) (cause : UnsupportedCause) : CompileError :=
  .unsupported i.op i.position cause

def stackShape (i : Instruction) (cause : ShapeCause) : CompileError :=
  .stackShape i.op i.position cause

def unresolved (i : Instruction) (kind : DescriptorKind) : CompileError :=
  .unresolved i.op i.position kind

def badTarget (i : Instruction) (target : Int) : CompileError :=
  .branchTarget i.op i.position target

/-! ## Operands -/

def operandBytes (i : Instruction) (start width : Nat) : Except CompileError (List UInt8) :=
  if start + width ≤ i.operand.length then
    .ok ((i.operand.drop start).take width)
  else
    .error (.malformed i.op i.position (start + width) i.operand.length)

/-- The first `width` operand bytes as an unsigned number. -/
def operandNat (i : Instruction) (width : Nat) : Except CompileError Nat :=
  (i.operandBytes 0 width).map Bytes.combine

/-- `width` operand bytes from `start` on as a signed number. -/
def operandIntAt (i : Instruction) (start width : Nat) : Except CompileError Int :=
  (i.operandBytes start width).map Bytes.combineInt

/-- The first `width` operand bytes as a signed number. -/
def operandInt (i : Instruction) (width : Nat) : Except CompileError Int :=
  i.operandIntAt 0 width

/-- Argument or local index, implied or encoded. -/
def index (i : Instruction) : Except CompileError Nat :=
  match i.op.implicitIndex? with
  | some n => .ok n
  | none =>
    match i.op.operandKind with
    | .shortIndex => i.operandNat 1
    | .index => i.operandNat 2
    | _ => .error (i.unsupported .noIndex)

/-- The constant of one word, implied or encoded. -/
def constant (i : Instruction) : Except CompileError Int32 :=
  match i.op.implicitConstant? with
  | some n => .ok n
  | none =>
    match i.op.operandKind with
    | .int8 => (i.operandInt 1).map Int32.ofInt
    | .int32 => (i.operandInt 4).map Int32.ofInt
    | _ => .error (i.unsupported .noConstant)

def longConstant (i : Instruction) : Except CompileError Int64 :=
  (i.operandInt 8).map Int64.ofInt

def branchTarget (i : Instruction) : Except CompileError Int :=
  match i.op.operandKind with
  | .shortBranch => (i.operandInt 1).map (i.nextPosition + ·)
  | .branch => (i.operandInt 4).map (i.nextPosition + ·)
  | _ => .error (i.unsupported .notBranch)

/-- Where the cases of a switch go, in order. The first case without an offset is the one that a
too short operand is reported for. -/
def switchTargets (i : Instruction) : Except CompileError (List Int) := do
  let count ← i.operandNat 4
  let present := (i.operand.length - 4) / 4
  if present < count then
    .error (.malformed i.op i.position (4 + 4 * present + 4) i.operand.length)
  else
    (List.range count).mapM fun k => (i.operandIntAt (4 + 4 * k) 4).map (i.nextPosition + ·)

/-- Every position that control may be transferred to. -/
def targets (i : Instruction) : Except CompileError (List Int) :=
  match i.op.operandKind with
  | .shortBranch | .branch => i.branchTarget.map ([·])
  | .switch => i.switchTargets
  | _ => .ok []

/-! ## Text -/

/-- `text` of a decoded operand after a blank, and nothing for one that cannot be decoded. -/
def renderOperand {α : Type} (text : α → String) : Except CompileError α → String
  | .ok a => " " ++ text a
  | .error _ => ""

/-- Position, mnemonic and operand, such as `IL_0000: ldarg.s 2`. -/
def render (i : Instruction) : String :=
  Text.position i.position ++ ": " ++ i.op.mnemonic ++
    match i.op.operandKind with
    | .shortBranch | .branch => renderOperand Text.target i.branchTarget
    | .shortIndex | .index => renderOperand toString i.index
    | .int8 | .int32 => renderOperand toString i.constant
    | .int64 => renderOperand toString i.longConstant
    | _ => ""

end Instruction

/-- The instructions of one method in program order. -/
structure MethodBody where
  method : MethodId
  instructions : List Instruction

end Stencil
