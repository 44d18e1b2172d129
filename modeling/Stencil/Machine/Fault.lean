import Stencil.Label

/-!
# Faults

How a run of linked code can end other than by returning.
-/

namespace Stencil

/-- The abnormal end of a run, or of an access to linked data. -/
inductive Fault where
  | nullReference (site : UInt32)
  | indexOutOfRange (site : UInt32)
  | invalidCast (site : UInt32)
  | thrown (object : UInt32)
  | halt (code : UInt32)
  | memory (address : UInt32)
  | unaligned (address : UInt32)
  | divide
  | unknownSymbol (symbol : Symbol)
  | unboundLabel (label : Label)
  /-- No instruction lies at the address, or none that can run. -/
  | invalidInstruction (address : UInt32)
  | stepLimit (limit : Nat)
  /-- The stack pointer after the return is not where it started. -/
  | stackImbalance (expected actual : UInt32)
  deriving DecidableEq

def Fault.name : Fault → String
  | .nullReference _ => "NullReference"
  | .indexOutOfRange _ => "IndexOutOfRange"
  | .invalidCast _ => "InvalidCast"
  | .thrown _ => "Thrown"
  | .halt _ => "Halt"
  | .memory _ => "MemoryFault"
  | .unaligned _ => "Unaligned"
  | .divide => "DivideByZero"
  | .unknownSymbol _ => "UnknownSymbol"
  | .unboundLabel _ => "UnboundLabel"
  | .invalidInstruction _ => "InvalidInstruction"
  | .stepLimit _ => "StepLimit"
  | .stackImbalance .. => "StackImbalance"

def Fault.message : Fault → String
  | .nullReference site => "NullReferenceException raised at " ++ Text.address site
  | .indexOutOfRange site => "IndexOutOfRangeException raised at " ++ Text.address site
  | .invalidCast site => "InvalidCastException raised at " ++ Text.address site
  | .thrown object => "exception object " ++ Text.address object ++ " thrown"
  | .halt code => "runtime halted with reason " ++ toString code.toNat
  | .memory address => "memory fault at " ++ Text.address address
  | .unaligned address => "unaligned access at " ++ Text.address address
  | .divide => "integer division fault"
  | .unknownSymbol symbol => "unknown symbol `" ++ symbol ++ "`"
  | .unboundLabel label => "unbound label `" ++ label.render ++ "`"
  | .invalidInstruction address => "no instruction at " ++ Text.address address
  | .stepLimit limit => "step limit of " ++ toString limit ++ " exceeded"
  | .stackImbalance expected actual =>
    "stack pointer " ++ Text.address actual ++ " after return, expected " ++ Text.address expected

end Stencil
