import Stencil.Table

/-!
# Stack frames

Both targets lay out a frame alike, offsets counted from the frame pointer:

* arguments lie above the return slot, the last one nearest;
* the return slot is at `8`, the return address at `4`, the saved frame pointer at `0`;
* locals lie below, the first one nearest, and the operand stack below them.
-/

namespace Stencil

/-- The place of one argument or local. -/
structure FrameSlot where
  /-- Bytes from the frame pointer. -/
  offset : Int32
  item : StackItem
  deriving DecidableEq

/-- The frame of one method. -/
structure Frame where
  args : List FrameSlot
  locals : List FrameSlot
  returnItem : Option StackItem
  /-- Bytes of arguments that the caller pushes, the receiver included. -/
  argBytes : Nat
  /-- Bytes of locals that the method start reserves. -/
  localBytes : Nat
  deriving DecidableEq

namespace Frame

/-- Bytes from the frame pointer to the return slot. -/
def returnSlot : Int32 := 8

def returnBytes (frame : Frame) : Nat :=
  match frame.returnItem with
  | some item => item.size
  | none => 0

/-- The first argument lies highest; each one starts above all later ones. -/
def argSlots (returnBytes : Nat) : List StackItem → List FrameSlot
  | [] => []
  | item :: rest =>
    { offset := returnSlot + Int32.ofNat (returnBytes + totalBytes rest), item } ::
      argSlots returnBytes rest

/-- Each local starts below all earlier ones, which take `depth` bytes. -/
def localSlots (depth : Nat) : List StackItem → List FrameSlot
  | [] => []
  | item :: rest =>
    { offset := -Int32.ofNat (depth + item.size), item } :: localSlots (depth + item.size) rest

/-- The descriptor of a type that a signature mentions. -/
def signatureType (tables : Table) (id : TypeId) : Except CompileError TypeDescriptor :=
  tables.typeFor (.pseudo 0 .methodStart) id

/-- The shape of a value whose type a signature mentions. -/
def signatureItem (tables : Table) (pointerSize : Nat) (id : TypeId) :
    Except CompileError StackItem :=
  (signatureType tables id).map (TypeDescriptor.stackItem pointerSize)

/-- The receiver: a reference, or for a value type a pointer to the instance. -/
def receiver (tables : Table) (pointerSize : Nat) (m : MethodDescriptor) :
    Except CompileError (List StackItem) :=
  if m.isStatic then .ok []
  else
    (signatureType tables m.declaringType).map fun t =>
      [if t.isValueType then .nativeInt pointerSize else .reference pointerSize]

/-- The frame of a method; a type that the table lacks is an error of the method start. -/
def ofMethod (tables : Table) (pointerSize : Nat) (m : MethodDescriptor) :
    Except CompileError Frame := do
  let this ← receiver tables pointerSize m
  let params ← m.params.mapM (signatureItem tables pointerSize)
  let returnItem ← m.returnType.mapM (signatureItem tables pointerSize)
  let locals ← m.locals.mapM (signatureItem tables pointerSize)
  let args := this ++ params
  let returnBytes := totalBytes returnItem.toList
  return {
    args := argSlots returnBytes args
    locals := localSlots 0 locals
    returnItem
    argBytes := countBytes args
    localBytes := countBytes locals }

end Frame

end Stencil
