import Stencil.Identifier

/-!
# Intrinsics

Routines outside the compiled program that emitted code calls by symbol. They take their arguments
like any method: pushed first to last, then a return slot, then the call. The one exception tells
the address of its own call site in the first return register and leaves the stack alone.
-/

namespace Stencil

/-- A routine that emitted code may call. -/
inductive Intrinsic where
  /-- The address of the call site. -/
  | callSite
  | throwNullReference
  | throwIndexOutOfRange
  | throwInvalidCast
  /-- Throws the object it is given. -/
  | throwObject
  | newObject
  | newArray
  /-- Takes back a reference that was never stored. -/
  | release
  | halt
  deriving DecidableEq

namespace Intrinsic

/-- Every intrinsic, in the order of their addresses. -/
def all : List Intrinsic :=
  [.callSite, .throwNullReference, .throwIndexOutOfRange, .throwInvalidCast, .throwObject,
   .newObject, .newArray, .release, .halt]

def symbol : Intrinsic → Symbol
  | .callSite => "GetEIP"
  | .throwNullReference => "ThrowNullReferenceException"
  | .throwIndexOutOfRange => "ThrowIndexOutOfRangeException"
  | .throwInvalidCast => "ThrowInvalidCastException"
  | .throwObject => "Throw"
  | .newObject => "NewObj"
  | .newArray => "NewArr"
  | .release => "DecrementRefCount"
  | .halt => "Halt"

/-- The name of the intrinsic; it differs from the symbol for the call site only. -/
def name (intrinsic : Intrinsic) : String :=
  if intrinsic = .callSite then "GetEip" else intrinsic.symbol

def ofSymbol? (symbol : Symbol) : Option Intrinsic :=
  all.find? (·.symbol == symbol)

/-- Bytes of arguments that the caller pushes. -/
def argBytes : Intrinsic → Nat
  | .callSite => 0
  | .newArray => 8
  | _ => 4

/-- Bytes of the return slot that the caller reserves. -/
def returnBytes : Intrinsic → Nat
  | .newObject | .newArray => 4
  | _ => 0

/-- Control never comes back. -/
def neverReturns : Intrinsic → Bool
  | .throwNullReference | .throwIndexOutOfRange | .throwInvalidCast | .throwObject | .halt => true
  | _ => false

end Intrinsic

/-- Why a program is halted. -/
inductive HaltReason where
  /-- No exception object could be created either. -/
  | outOfMemory
  /-- No type on the chain implements the virtual slot. -/
  | missingVirtualMethod
  deriving DecidableEq

namespace HaltReason

def code : HaltReason → UInt32
  | .outOfMemory => 1
  | .missingVirtualMethod => 2

def name : HaltReason → String
  | .outOfMemory => "OutOfMemory"
  | .missingVirtualMethod => "MissingVirtualMethod"

def ofCode? (code : UInt32) : Option HaltReason :=
  [outOfMemory, missingVirtualMethod].find? (·.code == code)

end HaltReason

end Stencil
