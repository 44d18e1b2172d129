import Stencil.Instruction

/-!
# Assembly source

A body is written as lines with named labels. Positions follow from the encoded sizes; a second
pass turns each name into an offset from the position that follows the reference. A name bound
twice has its last binding.
-/

namespace Stencil

/-- A line of assembly source. -/
inductive Line where
  /-- Binds `name` to the position of the next instruction. -/
  | label (name : String)
  | plain (op : Opcode)
  | raw (op : Opcode) (operand : List UInt8)
  /-- An argument or local access, encoded as wide as the opcode's index. -/
  | indexed (op : Opcode) (index : Nat)
  /-- A constant of one word in its shortest encoding. -/
  | constant (value : Int32)
  | longConstant (value : Int64)
  | branch (op : Opcode) (name : String)
  | switch (names : List String)
  | withType (op : Opcode) (id : TypeId)
  | withField (op : Opcode) (id : FieldId)
  | withMethod (op : Opcode) (id : MethodId)
  | withString (op : Opcode) (id : StringId)

namespace Line

/-- The shortest encoding of a constant: implied by the opcode, one byte, or four. -/
def encodeConstant (value : Int32) : Opcode × List UInt8 :=
  match value.toInt with
  | -1 => (.ldcI4M1, [])
  | 0 => (.ldcI40, [])
  | 1 => (.ldcI41, [])
  | 2 => (.ldcI42, [])
  | 3 => (.ldcI43, [])
  | 4 => (.ldcI44, [])
  | 5 => (.ldcI45, [])
  | 6 => (.ldcI46, [])
  | 7 => (.ldcI47, [])
  | 8 => (.ldcI48, [])
  | n =>
    if -128 ≤ n ∧ n ≤ 127 then (.ldcI4S, Bytes.splitInt 1 n) else (.ldcI4, Bytes.splitInt 4 n)

def encodeIndex (op : Opcode) (index : Nat) : List UInt8 :=
  match op.operandKind with
  | .shortIndex => Bytes.split 1 index
  | .index => Bytes.split 2 index
  | _ => []

/-- The instruction of a line at `position`; offsets to names are still zero. -/
def place (position : Nat) : Line → Option Instruction
  | .label _ => none
  | .plain op => some (.placed position op [])
  | .raw op operand => some (.placed position op operand)
  | .indexed op index => some (.placed position op (encodeIndex op index))
  | .constant value =>
    let (op, operand) := encodeConstant value
    some (.placed position op operand)
  | .longConstant value => some (.placed position .ldcI8 (Bytes.splitInt 8 value.toInt))
  | .branch op _ =>
    some (.placed position op (List.replicate (min (op.operandKind.width?.getD 0) 4) 0))
  | .switch names =>
    some (.placed position .switch
      (Bytes.split 4 names.length ++ List.replicate (4 * names.length) 0))
  | .withType op id => some { Instruction.placed position op (Bytes.split 4 id) with typeRef := id }
  | .withField op id =>
    some { Instruction.placed position op (Bytes.split 4 id) with fieldRef := id }
  | .withMethod op id =>
    some { Instruction.placed position op (Bytes.split 4 id.val) with methodRef := id }
  | .withString op id =>
    some { Instruction.placed position op (Bytes.split 4 id) with stringRef := id }

def next (position : Nat) (line : Line) : Nat :=
  match line.place position with
  | some i => i.nextPosition
  | none => position

end Line

namespace Assembly

/-- The instructions of `lines` from `position` on, each with the line it came from. -/
def layout (position : Nat) : List Line → List (Instruction × Line)
  | [] => []
  | line :: rest =>
    match line.place position with
    | some i => (i, line) :: layout i.nextPosition rest
    | none => layout position rest

/-- The names that `lines` bind from `position` on, in order. -/
def bindings (position : Nat) : List Line → List (String × Nat)
  | [] => []
  | line :: rest =>
    match line with
    | .label name => (name, position) :: bindings position rest
    | line => bindings (line.next position) rest

/-- The offset from the end of `i` to the position bound to `name`. -/
def offset (labels : List (String × Nat)) (i : Instruction) (name : String) :
    Except CompileError Int :=
  match labels.lookup name with
  | some target => .ok ((target : Int) - i.nextPosition)
  | none => .error (i.badTarget (-1))

/-- Fill in the offsets to the names that the line of `i` refers to. -/
def resolve (labels : List (String × Nat)) (i : Instruction) :
    Line → Except CompileError Instruction
  | .branch _ name => do
    let distance ← offset labels i name
    if i.op.operandKind = .shortBranch then
      if -128 ≤ distance ∧ distance ≤ 127 then
        .ok { i with operand := Bytes.splitInt 1 distance }
      else
        .error (i.badTarget (i.nextPosition + distance))
    else
      .ok { i with operand := Bytes.splitInt 4 distance }
  | .switch names => do
    let distances ← names.mapM (offset labels i)
    .ok { i with
      operand := Bytes.split 4 names.length ++ distances.flatMap (Bytes.splitInt 4) }
  | _ => .ok i

/-- Assemble `lines` from position zero on; the first reference that cannot be resolved fails. -/
def assemble (lines : List Line) : Except CompileError (List Instruction) :=
  let labels := (bindings 0 lines).reverse
  (layout 0 lines).mapM fun (i, line) => resolve labels i line

end Assembly

end Stencil
