/-!
# The simulated operand stack

A stack item is the shape of one value: how many bytes its slot takes and the flags that code
generation depends on. The operand stack is a list of such shapes, and its height in bytes is what
the emitted code has pushed at the same point of the program. Bytes are counted in words of 32 bits, so a
count that does not fit wraps around.
-/

namespace Stencil

/-- The shape of one value on the operand stack. -/
structure StackItem where
  /-- Bytes of the slot. -/
  size : Nat
  isFloat : Bool := false
  /-- A reference that the garbage collector follows. -/
  isManaged : Bool := false
  /-- A value rather than a reference. -/
  isValue : Bool := true
  /-- A fresh allocation that is stored nowhere yet. -/
  isNew : Bool := false
  deriving DecidableEq

namespace StackItem

def value (size : Nat) : StackItem := { size }

def int32 : StackItem := value 4

def int64 : StackItem := value 8

/-- An integer as wide as a pointer, or a raw pointer. -/
def nativeInt (pointerSize : Nat) : StackItem := value pointerSize

def float (size : Nat) : StackItem := { size, isFloat := true }

def reference (pointerSize : Nat) : StackItem :=
  { size := pointerSize, isManaged := true, isValue := false }

/-- The reference that an allocation pushes. -/
def newObject (pointerSize : Nat) : StackItem :=
  { reference pointerSize with isNew := true }

/-- The same value once it is stored somewhere. -/
def stored (item : StackItem) : StackItem := { item with isNew := false }

def words (item : StackItem) : Nat := (item.size + 3) / 4

/-- Kind and width in bits, such as `value64` or `ref32+new`. -/
def render (item : StackItem) : String :=
  (if item.isFloat then "float" else if item.isValue then "value" else "ref")
    ++ toString (item.size * 8 % UInt32.size) ++ (if item.isNew then "+new" else "")

/-- Two items merge when their widths and float flags agree. -/
def sameShape (a b : StackItem) : Bool :=
  a.size == b.size && a.isFloat == b.isFloat

end StackItem

def totalBytes : List StackItem → Nat
  | [] => 0
  | item :: rest => item.size + totalBytes rest

/-- The total as a word counts it. -/
def countBytes (items : List StackItem) : Nat := totalBytes items % UInt32.size

/-- The operand stack, topmost item first. -/
abbrev OperandStack := List StackItem

namespace OperandStack

def height (stack : OperandStack) : Nat := countBytes stack

def render (stack : OperandStack) : String :=
  "[" ++ String.intercalate ", " (stack.reverse.map StackItem.render) ++ "]"

/-- Two stacks merge when their items merge one by one. -/
def sameShape : OperandStack → OperandStack → Bool
  | [], [] => true
  | a :: s, b :: t => a.sameShape b && sameShape s t
  | _, _ => false

end OperandStack

end Stencil
