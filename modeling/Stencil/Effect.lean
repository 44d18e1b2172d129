import Stencil.Stack.Basic

/-!
# Stack effects

What one instruction takes from the operand stack and what it leaves there.
-/

namespace Stencil

/-- The items an instruction pops and pushes. -/
structure Effect where
  /-- Popped items, topmost first. -/
  popped : List StackItem := []
  /-- Pushed items, in the order of the pushes. -/
  pushed : List StackItem := []
  deriving DecidableEq

namespace Effect

def poppedBytes (e : Effect) : Nat := countBytes e.popped

def pushedBytes (e : Effect) : Nat := countBytes e.pushed

def delta (e : Effect) : Int := (e.pushedBytes : Int) - e.poppedBytes

/-- The popped item at `depth`, the former top at zero; one word where there is none. -/
def operand (e : Effect) (depth : Nat) : StackItem :=
  e.popped[depth]?.getD .int32

/-- Bytes of the popped items below the former top. -/
def bytesBelow (e : Effect) : Nat :=
  (UInt32.ofNat e.poppedBytes - UInt32.ofNat (e.operand 0).size).toNat

/-- The item pushed last; one word where there is none. -/
def result (e : Effect) : StackItem :=
  e.pushed.getLast?.getD .int32

/-- Popped and pushed items, such as `-[value32 value32] +[value32]`. -/
def render (e : Effect) : String :=
  let list (items : List StackItem) := String.intercalate " " (items.map StackItem.render)
  "-[" ++ list e.popped ++ "] +[" ++ list e.pushed ++ "]"

end Effect

end Stencil
