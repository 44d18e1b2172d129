import Stencil.Machine.Fault

/-!
# Memory

A flat array of bytes, least significant byte first. From low to high: an unmapped page, the linked data,
the heap, and the stack growing down from the end of memory. Code and intrinsics have addresses of their
own far above memory. Alignment is left to the machines.
-/

namespace Stencil

namespace AddressMap

/-- Accesses below this address fault. -/
def nullGuard : UInt32 := 0x1000

/-- Start of type descriptors, method tables, static fields and strings. -/
def dataBase : UInt32 := 0x1000

/-- Start of the heap and end of the linked data. -/
def heapBase : UInt32 := 0x100000

def heapLimit : UInt32 := 0x200000

def memorySize : Nat := 0x400000

/-- The stack pointer before the arguments of a run are pushed. -/
def stackTop : UInt32 := 0x3FFFF0

/-- Address of the first instruction; each one takes four bytes. -/
def codeBase : UInt32 := 0x80000000

/-- Address of the first intrinsic; each one takes four bytes. -/
def intrinsicBase : UInt32 := 0xF0000000

/-- The return address of the outermost call, which ends a run. -/
def returnSentinel : UInt32 := 0xFFFFFFF0

def codeAddress (index : Nat) : UInt32 := codeBase + 4 * UInt32.ofNat index

end AddressMap

open AddressMap (memorySize nullGuard)

/-- The bytes of memory. -/
structure Memory where
  bytes : Vector UInt8 memorySize

namespace Memory

def empty : Memory := ⟨Vector.replicate memorySize 0⟩

/-- The byte at `a`, zero outside of memory. -/
def byte (m : Memory) (a : Nat) : UInt8 :=
  if h : a < memorySize then m.bytes[a] else 0

/-- Memory with `b` at `a`; nothing changes outside of it. -/
def setByte (m : Memory) (a : Nat) (b : UInt8) : Memory :=
  if h : a < memorySize then ⟨m.bytes.set a b h⟩ else m

def mapped (address : UInt32) (count : Nat) : Bool :=
  nullGuard ≤ address && address.toNat + count ≤ memorySize

/-- The number that `count` bytes from `a` on spell. -/
def valueAt (m : Memory) (a : Nat) : (count : Nat) → Nat
  | 0 => 0
  | count + 1 => (m.byte a).toNat + 256 * m.valueAt (a + 1) count

/-- Memory with the lowest `count` bytes of `value` from `a` on. -/
def put (m : Memory) (a : Nat) (value : UInt32) : (count : Nat) → Memory
  | 0 => m
  | count + 1 => (m.setByte a value.toUInt8).put (a + 1) (value >>> 8) count

def clear (m : Memory) (a : Nat) : (count : Nat) → Memory
  | 0 => m
  | count + 1 => (m.setByte a 0).clear (a + 1) count

/-- Read `count` bytes, at most four, filled up with zeros. -/
def read (m : Memory) (address : UInt32) (count : Nat) : Except Fault UInt32 :=
  if mapped address count then .ok (UInt32.ofNat (m.valueAt address.toNat count))
  else .error (.memory address)

/-- Write the lowest `count` bytes of `value`, at most four. -/
def write (m : Memory) (address : UInt32) (count : Nat) (value : UInt32) : Except Fault Memory :=
  if mapped address count then .ok (m.put address.toNat value count)
  else .error (.memory address)

end Memory

end Stencil
