import Stencil.Identifier
import Stencil.Stack.Basic

/-!
# Descriptors

Types, fields, methods and string literals as the compiler sees them: already resolved, read-only,
and each with the symbol that the linker knows it by.
-/

namespace Stencil

/-- A type of the running program. -/
structure TypeDescriptor where
  id : TypeId
  name : String
  /-- Label of the type's descriptor in memory. -/
  symbol : Symbol
  /-- Bytes of an instance on the operand stack, before rounding to slots. -/
  stackSize : Nat
  /-- Bytes of an instance in a field, an array element or the heap. -/
  heapSize : Nat
  isValueType : Bool
  isManaged : Bool
  isFloat : Bool := false
  isSigned : Bool := false
  isDelegate : Bool := false
  baseType : Option TypeId := none
  /-- Pairs of a virtual slot and its implementation. -/
  methodTable : List (MethodId × MethodId) := []
  deriving DecidableEq

namespace TypeDescriptor

def primitive (id : TypeId) (name : String) (size : Nat) (isSigned : Bool) : TypeDescriptor :=
  { id, name, symbol := name ++ ".Type", stackSize := size, heapSize := size,
    isValueType := true, isManaged := false, isSigned }

def float (id : TypeId) (name : String) (size : Nat) : TypeDescriptor :=
  { primitive id name size true with isFloat := true }

def composite (id : TypeId) (name : String) (size : Nat) : TypeDescriptor :=
  primitive id name size false

def ofClass (id : TypeId) (name : String) (heapSize : Nat) : TypeDescriptor :=
  { id, name, symbol := name ++ ".Type", stackSize := 4, heapSize,
    isValueType := false, isManaged := true }

/-- A delegate class, whose instances are function pointers. -/
def delegate (id : TypeId) (name : String) : TypeDescriptor :=
  { ofClass id name 8 with isDelegate := true }

/-- The shape of a value of the type on the operand stack: whole words, at least one. The size is rounded
up as a word is, so the three largest sizes wrap around to zero. -/
def stackItem (pointerSize : Nat) (t : TypeDescriptor) : StackItem :=
  if !t.isValueType then .reference pointerSize
  else
    let size := (max t.stackSize 1 + 3) / 4 * 4 % UInt32.size
    if t.isFloat then .float size else .value size

/-- Bytes of a value of the type in a field or an array element. -/
def storageSize (pointerSize : Nat) (t : TypeDescriptor) : Nat :=
  if t.isValueType then t.heapSize else pointerSize

end TypeDescriptor

/-- An instance or static field. -/
structure FieldDescriptor where
  id : FieldId
  name : String
  declaringType : TypeId
  fieldType : TypeId
  /-- Bytes from the start of the object, header included. -/
  offset : Nat
  isStatic : Bool := false
  /-- Label of the storage of a static field. -/
  symbol : Symbol
  deriving DecidableEq

namespace FieldDescriptor

def ofInstance (id : FieldId) (name : String) (declaringType fieldType : TypeId) (offset : Nat) :
    FieldDescriptor :=
  { id, name, declaringType, fieldType, offset, symbol := "field." ++ name }

def ofStatic (id : FieldId) (name : String) (declaringType fieldType : TypeId) :
    FieldDescriptor :=
  { id, name, declaringType, fieldType, offset := 0, isStatic := true,
    symbol := "static." ++ name }

end FieldDescriptor

/-- A method's signature and entry point. -/
structure MethodDescriptor where
  id : MethodId
  name : String
  /-- Label of the compiled code. -/
  symbol : Symbol
  declaringType : TypeId
  isStatic : Bool := true
  isVirtual : Bool := false
  isConstructor : Bool := false
  /-- Types of the parameters, the receiver aside. -/
  params : List TypeId := []
  returnType : Option TypeId := none
  locals : List TypeId := []
  deriving DecidableEq

namespace MethodDescriptor

/-- A static method without parameters; its symbol joins number and name. -/
def ofName (id : MethodId) (declaringType : TypeId) (name : String) : MethodDescriptor :=
  { id, name, symbol := "M" ++ toString id.val ++ "." ++ name, declaringType }

def onInstance (m : MethodDescriptor) : MethodDescriptor :=
  { m with isStatic := false }

/-- The method called on a receiver that selects the implementation. -/
def asVirtual (m : MethodDescriptor) : MethodDescriptor :=
  { m with isStatic := false, isVirtual := true }

def asConstructor (m : MethodDescriptor) : MethodDescriptor :=
  { m with isStatic := false, isConstructor := true }

def argCount (m : MethodDescriptor) : Nat :=
  m.params.length + if m.isStatic then 0 else 1

end MethodDescriptor

/-- A string literal. -/
structure StringLiteral where
  id : StringId
  value : String
  symbol : Symbol
  deriving DecidableEq

/-- The literal of number `id`, whose symbol is made of that number. -/
def StringLiteral.ofValue (id : StringId) (value : String) : StringLiteral :=
  { id, value, symbol := "string." ++ toString id }

end Stencil
