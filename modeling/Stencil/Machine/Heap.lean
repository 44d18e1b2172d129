import Stencil.Machine.Program

/-!
# The heap and the intrinsics

Allocation moves a pointer up and never back. A request that does not fit gives null. Intrinsics
run outside the machine and see its stack only.
-/

namespace Stencil

open AddressMap

/-- Operations on the store keep what they did before a fault. -/
abbrev StoreM := EStateM Fault Store

namespace Store

def read (address : UInt32) (count : Nat) : StoreM UInt32 := fun s =>
  match s.memory.read address count with
  | .ok value => .ok value s
  | .error fault => .error fault s

def write (address : UInt32) (count : Nat) (value : UInt32) : StoreM Unit := fun s =>
  if Memory.mapped address count then
    .ok () { s with memory := s.memory.put address.toNat value count }
  else
    .error (.memory address) s

def clear (address : UInt32) (count : Nat) : StoreM Unit := fun s =>
  if Memory.mapped address count then
    .ok () { s with memory := s.memory.clear address.toNat count }
  else
    .error (.memory address) s

def readWord (address : UInt32) : StoreM UInt32 := read address 4

def writeWord (address value : UInt32) : StoreM Unit := write address 4 value

/-- Take `size` bytes from the heap and clear them; null when they do not fit. -/
def allocate (size : UInt32) : StoreM UInt32 := do
  let size := Link.roundUp (max size 4) 4
  let s ← get
  let address := s.heapNext
  let stop := address.toNat + size.toNat
  if stop ≤ s.heapEnd.toNat then
    clear address size.toNat
    modify fun s => { s with heapNext := UInt32.ofNat stop }
    return address
  else
    return 0

end Store

namespace Program

variable {I : Type} (p : Program I)

/-- What allocation knows about the type of a descriptor. -/
def typeInfoAt (descriptor : UInt32) : StoreM TypeInfo :=
  match p.typeInfo[descriptor]? with
  | some info => pure info
  | none => throw (.memory descriptor)

/-- An instance with its type pointer set and zeros elsewhere, or null. -/
def newObject (descriptor : UInt32) : StoreM UInt32 := do
  let info ← p.typeInfoAt descriptor
  let object ← Store.allocate info.instanceSize
  if object ≠ 0 then
    Store.writeWord (object + UInt32.ofNat p.layout.typePointer) descriptor
  return object

/-- Bytes of an array, if a word can count them and the length is not negative. -/
def arraySize? (elementSize length : UInt32) : Option UInt32 :=
  let size := length.toNat * elementSize.toNat + p.layout.arrayHeader
  if length < 0x80000000 ∧ size < 0x100000000 then some (UInt32.ofNat size) else none

/-- An array with its length and element type set and zeros elsewhere, or null. -/
def newArray (descriptor length : UInt32) : StoreM UInt32 := do
  let info ← p.typeInfoAt descriptor
  match p.arraySize? info.elementSize length with
  | none => return 0
  | some size =>
    let array ← Store.allocate size
    if array ≠ 0 then
      Store.writeWord (array + UInt32.ofNat p.layout.arrayLength) length
      Store.writeWord (array + UInt32.ofNat p.layout.arrayElementType) descriptor
    return array

/-- Null means that memory is exhausted. -/
def orHalt (pointer : UInt32) : StoreM UInt32 :=
  if pointer = 0 then throw (.halt HaltReason.outOfMemory.code) else pure pointer

def typeAddress (id : TypeId) : StoreM UInt32 :=
  match p.types[id]? with
  | some address => pure address
  | none => throw (.memory 0)

/-- Allocate an instance of a type on behalf of the caller of a program. -/
def allocObject (id : TypeId) : StoreM UInt32 := do
  orHalt (← p.newObject (← p.typeAddress id))

/-- Allocate an array of a type on behalf of the caller of a program. -/
def allocArray (id : TypeId) (length : UInt32) : StoreM UInt32 := do
  orHalt (← p.newArray (← p.typeAddress id) length)

/-- Run an intrinsic whose return slot is at `sp` and whose last argument lies above it. The value
for the first return register is returned, if there is one. -/
def runIntrinsic (intrinsic : Intrinsic) (sp callSite : UInt32) : StoreM (Option UInt32) := do
  let args := sp + UInt32.ofNat intrinsic.returnBytes
  match intrinsic with
  | .callSite => return some callSite
  | .throwNullReference => throw (.nullReference (← Store.readWord args))
  | .throwIndexOutOfRange => throw (.indexOutOfRange (← Store.readWord args))
  | .throwInvalidCast => throw (.invalidCast (← Store.readWord args))
  | .throwObject => throw (.thrown (← Store.readWord args))
  | .halt => throw (.halt (← Store.readWord args))
  | .release =>
    let object ← Store.readWord args
    modify fun s => { s with released := s.released.push object }
    return none
  | .newObject =>
    let descriptor ← Store.readWord args
    let object ← p.newObject descriptor
    Store.writeWord sp object
    return none
  | .newArray =>
    let descriptor ← Store.readWord args
    let length ← Store.readWord (args + 4)
    let array ← p.newArray descriptor length
    Store.writeWord sp array
    return none

end Program

end Stencil
