import Stencil.Effect
import Stencil.Frame
import Stencil.Label
import Stencil.Options
import Stencil.Opcode.Operation
import Stencil.Table

/-!
# Targets

A target turns each instruction into a template: a fixed list of machine instructions that depends
on the instruction and its stack effect alone. Values live on the machine's stack between templates,
so templates meet nowhere else. What both targets look up in the descriptors is here, and how a value moves
between memory and the operand stack: its bytes in memory and whether a narrow one is extended by its sign.
-/

namespace Stencil

/-- A target architecture. -/
inductive Arch where
  | x86 | mips32
  deriving DecidableEq

def Arch.name : Arch → String
  | .x86 => "x86"
  | .mips32 => "mips32"

/-- What is common to the instructions of all targets. -/
class TargetInstr (I : Type) where
  /-- The instruction that defines a label. -/
  label : Label → I
  /-- The label that the instruction defines. -/
  asLabel? : I → Option Label
  /-- Symbols that the linker has to resolve. -/
  symbols : I → List Symbol
  /-- One line of assembly. -/
  render : I → String

/-! ## Memory accesses -/

/-- The footprint of a value in memory. -/
structure Access where
  /-- Bytes in memory. -/
  storage : Nat
  /-- Extend by the sign when narrower than a word. -/
  signed : Bool
  deriving DecidableEq

namespace Access

def ofType (pointerSize : Nat) (t : TypeDescriptor) : Access :=
  { storage := t.storageSize pointerSize, signed := t.isSigned }

/-- The access of a value kind; typed forms take the type that the instruction refers to. -/
def ofKind (tables : Table) (pointerSize : Nat) (i : Instruction) (kind : ValueKind) :
    Except CompileError Access :=
  match kind.storageSize? pointerSize with
  | some storage => .ok { storage, signed := kind.isSigned }
  | none => (tables.resolveType i).map (ofType pointerSize)

/-- The alignment that the size suggests, a word at most. -/
def naturalAlignment (access : Access) : Nat :=
  match access.storage with
  | 1 => 1
  | 2 | 3 => 2
  | _ => 4

end Access

/-! ## Surroundings -/

/-- What a template is made for: the method and its surroundings. -/
structure EmitContext where
  tables : Table
  options : Options
  policy : AccessPolicy
  frame : Frame
  method : MethodDescriptor
  /-- Position of the method end. -/
  endPosition : Nat

/-- The code of one instruction. A template that fails may have emitted code before. -/
structure Template (I : Type) where
  code : List I
  failure : Option CompileError := none

namespace Template

/-- A template that emits nothing when it fails. -/
def ofExcept {I : Type} : Except CompileError (List I) → Template I
  | .ok code => { code }
  | .error e => { code := [], failure := some e }

end Template

/-- Code emission for one architecture. -/
structure Backend (I : Type) where
  arch : Arch
  /-- The policy where the options give none. -/
  defaultPolicy : AccessPolicy
  /-- The template of an instruction of the given effect. -/
  emit : EmitContext → Instruction → Effect → Template I

namespace EmitContext

variable (ctx : EmitContext) (i : Instruction)

/-! ## Labels -/

def labelAt (position : Nat) : Label :=
  { scope := ctx.method.symbol, position }

/-- The label `name` of number `index` inside the template of `i`. -/
def inside (name : String) (index : Nat) : Label :=
  .inside ctx.method.symbol i.position name index

def targetLabel (target : Int) : Except CompileError Label :=
  if 0 ≤ target ∧ target < 0x100000000 then .ok (ctx.labelAt target.toNat)
  else .error (i.badTarget target)

/-- The label of the method end, where every return goes. -/
def endLabel : Label := ctx.labelAt ctx.endPosition

/-! ## Descriptors -/

/-- The slot of an argument or, if not `isArg`, of a local. -/
def slot (isArg : Bool) : Except CompileError FrameSlot := do
  let index ← i.index
  match (if isArg then ctx.frame.args else ctx.frame.locals)[index]? with
  | some slot => .ok slot
  | none => .error (i.stackShape (.slotRange index))

/-- The symbol of a token: of a type, else of a field, else of a method. -/
def tokenSymbol : Except CompileError Symbol :=
  match i.typeRef with
  | some id => (ctx.tables.typeFor i id).map TypeDescriptor.symbol
  | none =>
    if i.fieldRef.isSome then (ctx.tables.resolveField i).map FieldDescriptor.symbol
    else (ctx.tables.resolveMethod i).map MethodDescriptor.symbol

/-- The access to the type that the instruction refers to. -/
def typeAccess : Except CompileError Access :=
  (ctx.tables.resolveType i).map (Access.ofType ctx.options.pointerSize)

def kindAccess (kind : ValueKind) : Except CompileError Access :=
  Access.ofKind ctx.tables ctx.options.pointerSize i kind

/-- The field that the instruction refers to and the access to it. -/
def fieldAccess : Except CompileError (FieldDescriptor × Access) := do
  let field ← ctx.tables.resolveField i
  let t ← ctx.tables.typeFor i field.fieldType
  return (field, Access.ofType ctx.options.pointerSize t)

/-- The method that the instruction refers to and its declaring type. -/
def methodAndType : Except CompileError (MethodDescriptor × TypeDescriptor) := do
  let m ← ctx.tables.resolveMethod i
  let t ← ctx.tables.typeFor i m.declaringType
  return (m, t)

/-- Bytes of arguments of the given types on the operand stack. -/
def paramBytes (params : List TypeId) : Except CompileError Nat := do
  let items ← params.mapM fun id =>
    (ctx.tables.typeFor i id).map (TypeDescriptor.stackItem ctx.options.pointerSize)
  return countBytes items

end EmitContext

end Stencil
