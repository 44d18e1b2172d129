import Stencil.Opcode.Basic
import Stencil.Stack.Basic
import Stencil.Text.Hex

/-!
# Compile errors

Every failure ends the compilation of the whole method. An error raised at an instruction carries
the opcode and its position, and the cause as data; the wording is in `CompileError.message`.
-/

namespace Stencil

/-- The kind of descriptor that an instruction failed to resolve. -/
inductive DescriptorKind where
  | type | field | method | string
  deriving DecidableEq

def DescriptorKind.noun : DescriptorKind → String
  | .type => "type"
  | .field => "field"
  | .method => "method"
  | .string => "string"

/-- Why an operand has no code template. -/
inductive UnsupportedCause where
  | noIndex | noConstant | notBranch
  | floatOpcode | floatPush | floatOperand | floatConversion
  | wideDivision
  | instanceAccessToStatic | staticAccessToInstance
  | virtualCallToStatic | valueConstruction
  /-- The offset does not fit a signed halfword. -/
  | displacement (offset : Int)
  /-- A cause in a caller's own words. -/
  | stated (text : String)
  deriving DecidableEq

def UnsupportedCause.message : UnsupportedCause → String
  | .noIndex => "opcode carries no index"
  | .noConstant => "opcode carries no 32-bit constant"
  | .notBranch => "opcode is not a branch"
  | .floatOpcode => "floating-point operands are not supported"
  | .floatPush => "floating-point values are not supported"
  | .floatOperand => "floating-point operand"
  | .floatConversion => "floating-point conversion"
  | .wideDivision => "64-bit division and remainder"
  | .instanceAccessToStatic => "instance field access to a static field"
  | .staticAccessToInstance => "static field access to an instance field"
  | .virtualCallToStatic => "callvirt to a static method"
  | .valueConstruction => "value-type construction"
  | .displacement offset => s!"displacement {offset} out of range"
  | .stated text => text

/-- How the stack disagrees with an instruction. -/
inductive ShapeCause where
  | underflow
  | tooFew (needed held : Nat)
  /-- An integer operand is neither one word nor two. -/
  | notInteger (size : Nat)
  /-- Two operands of one operation differ in width. -/
  | mismatch (first second : Nat)
  | wrongSize (size expected : Nat)
  | argumentRange (index : Nat)
  | localRange (index : Nat)
  | slotRange (index : Nat)
  /-- Bytes are left below the returned value. -/
  | leftAtReturn (bytes : Nat)
  | fallThrough (held recorded : OperandStack)
  | branchInto (target : Nat) (held expected : OperandStack)
  /-- A cause in a caller's own words. -/
  | stated (text : String)
  deriving DecidableEq

def ShapeCause.message : ShapeCause → String
  | .underflow => "operand stack underflow"
  | .tooFew needed held => s!"needs {needed} operands, stack holds {held}"
  | .notInteger size => s!"operand of {size} bytes, expected 4 or 8"
  | .mismatch first second => s!"mismatched operand sizes {first} and {second}"
  | .wrongSize size expected => s!"operand of {size} bytes, expected {expected}"
  | .argumentRange index => s!"argument {index} out of range"
  | .localRange index => s!"local {index} out of range"
  | .slotRange index => s!"frame slot {index} out of range"
  | .leftAtReturn bytes => s!"{bytes} bytes left on the stack at return"
  | .fallThrough held recorded =>
    "falls through with " ++ held.render ++ " but a branch arrives with " ++ recorded.render
  | .branchInto target held expected =>
    "branch to " ++ Text.position target ++ " with " ++ held.render ++ " but the target expects "
      ++ expected.render
  | .stated text => text

/-- Why an options record is refused. -/
inductive OptionsCause where
  | pointerSize (bytes : Nat)
  | unaligned (field : String) (offset : Nat)
  /-- A cause in a caller's own words. -/
  | stated (text : String)
  deriving DecidableEq

def OptionsCause.message : OptionsCause → String
  | .pointerSize bytes => s!"pointer size {bytes} is not supported, targets are 32-bit"
  | .unaligned field offset => s!"{field} = {offset} is not word aligned"
  | .stated text => text

/-- A fatal error of one compilation. -/
inductive CompileError where
  | unsupported (op : Opcode) (position : Nat) (cause : UnsupportedCause)
  | stackShape (op : Opcode) (position : Nat) (cause : ShapeCause)
  | unresolved (op : Opcode) (position : Nat) (kind : DescriptorKind)
  /-- The target starts no instruction. -/
  | branchTarget (op : Opcode) (position : Nat) (target : Int)
  /-- The operand has fewer bytes than its encoding needs. -/
  | malformed (op : Opcode) (position expected actual : Nat)
  | options (cause : OptionsCause)
  deriving DecidableEq

namespace CompileError

def op? : CompileError → Option Opcode
  | .unsupported op _ _ | .stackShape op _ _ | .unresolved op _ _ | .branchTarget op _ _
  | .malformed op _ _ _ => some op
  | .options _ => none

def position? : CompileError → Option Nat
  | .unsupported _ position _ | .stackShape _ position _ | .unresolved _ position _
  | .branchTarget _ position _ | .malformed _ position _ _ => some position
  | .options _ => none

def name : CompileError → String
  | .unsupported .. => "UnsupportedOperand"
  | .stackShape .. => "InvalidStackShape"
  | .unresolved .. => "UnresolvedDescriptor"
  | .branchTarget .. => "InvalidBranchTarget"
  | .malformed .. => "MalformedOperand"
  | .options .. => "InvalidOptions"

/-- Opcode and position, as every message but that of the options names them. -/
def site (op : Opcode) (position : Nat) : String :=
  op.mnemonic ++ " at " ++ Text.position position

def message : CompileError → String
  | .unsupported op position cause =>
    "unsupported operand for " ++ site op position ++ ": " ++ cause.message
  | .stackShape op position cause =>
    "invalid stack shape for " ++ site op position ++ ": " ++ cause.message
  | .unresolved op position kind =>
    "unresolved " ++ kind.noun ++ " descriptor for " ++ site op position
  | .branchTarget op position target =>
    "branch " ++ site op position ++ " targets " ++ Text.target target
      ++ ", which is not an instruction"
  | .malformed op position expected actual =>
    "malformed operand for " ++ site op position
      ++ s!": expected {expected} bytes, found {actual}"
  | .options cause => "invalid compiler options: " ++ cause.message

end CompileError

end Stencil
