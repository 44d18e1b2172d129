import Stencil.Machine.Heap

/-!
# Invocations

What runs on all machines have in common: arguments, the trace, and the stack pointer that a run
has to return with.
-/

namespace Stencil

open AddressMap

/-- An argument of a run. -/
inductive StackValue where
  | word (value : UInt32)
  /-- Pushed high word first. -/
  | long (value : UInt64)

namespace StackValue

def bytes : StackValue → UInt32
  | .word _ => 4
  | .long _ => 8

def words : StackValue → List UInt32
  | .word value => [value]
  | .long value => [(value >>> 32).toUInt32, value.toUInt32]

end StackValue

/-- The machine when an instruction was about to run. -/
structure TraceEntry where
  index : Nat
  sp : UInt32
  fp : UInt32

/-- What all machines offer: a machine has states `M` and runs instructions `I`. -/
structure MachineOps (I M : Type) where
  /-- A machine that has not run yet. -/
  start : Store → M
  store : M → Store
  /-- Work on the store of a machine. -/
  onStore : {α : Type} → StoreM α → EStateM Fault M α
  /-- Instructions run by the last invocation. -/
  trace : M → Array TraceEntry
  /-- The registers by name, in the order of their numbers. -/
  registers : M → List (String × UInt32)
  /-- Call a symbol with arguments and a return slot of so many bytes. -/
  invoke : Program I → Symbol → List StackValue → UInt32 → EStateM Fault M (List UInt32)

namespace Invocation

/-- The words of all arguments in the order of the pushes. -/
def argumentWords (args : List StackValue) : List UInt32 := args.flatMap StackValue.words

/-- The stack pointer after a run with these arguments and this return slot. -/
def returnSp (args : List StackValue) (returnBytes : UInt32) : UInt32 :=
  args.foldl (fun sp arg => sp - arg.bytes) stackTop - returnBytes

end Invocation

end Stencil
