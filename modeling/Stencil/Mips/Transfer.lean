import Stencil.Mips.Instr

/-!
# Moving values between memory and the stack

Loads and stores fault on misaligned addresses. A value moves by words, halfwords or bytes only
where its address is known to be aligned for them; otherwise it is put together or taken apart byte
by byte. The value passes through `$t6`, single bytes through `$t7`.
-/

namespace Stencil.Mips

/-- The alignment of an `offset` from a word-aligned base, a word at most. -/
def offsetAlignment (offset : Nat) : Nat :=
  if offset % 4 = 0 then 4 else if offset % 2 = 0 then 2 else 1

def wordCount (storage : Nat) : Nat := (storage + 3) / 4

def wordBytes (storage k : Nat) : Nat := min (storage - 4 * k) 4

/-- The width of an access to `bytes` bytes at once, if the alignment allows one. -/
def wholeWidth? (bytes align : Nat) : Option Width :=
  if bytes ≤ align then Width.ofBytes? bytes else none

/-- Add a lower byte to the value in `$t6`. -/
def loadByte (base : Reg) (offset : Int32) : List Instr :=
  [.shift .sll .t6 .t6 8, .load .byte false .t7 offset base, .alu .or .t6 .t6 .t7]

/-- Load one to four bytes into `$t6`. Byte by byte the highest comes first, so that only it
carries the sign. -/
def loadValue (base : Reg) (offset : Int32) (bytes : Nat) (signed : Bool) (align : Nat) :
    List Instr :=
  match wholeWidth? bytes align with
  | some width => [.load width signed .t6 offset base]
  | none =>
    let top := bytes - 1
    .load .byte signed .t6 (offset + Int32.ofNat top) base ::
      (List.range top).reverse.flatMap fun k => loadByte base (offset + Int32.ofNat k)

def storeByte (base : Reg) (offset : Int32) (k : Nat) : List Instr :=
  [.shift .srl .t7 .t6 (UInt8.ofNat (8 * k)), .store .byte .t7 (offset + Int32.ofNat k) base]

/-- Store the low one to four bytes of `$t6`. -/
def storeValue (base : Reg) (offset : Int32) (bytes align : Nat) : List Instr :=
  match wholeWidth? bytes align with
  | some width => [.store width .t6 offset base]
  | none =>
    .store .byte .t6 offset base ::
      (List.range' 1 (bytes - 1)).flatMap (storeByte base offset)

/-- Push the value of `storage` bytes at `offset` from `base`, the high word first. -/
def pushFromMemory (base : Reg) (offset : Int32) (storage : Nat) (signed : Bool) (align : Nat) :
    List Instr :=
  (List.range (wordCount storage)).reverse.flatMap fun k =>
    loadValue base (offset + Int32.ofNat (4 * k)) (wordBytes storage k)
      (signed && storage < 4) align ++ Instr.push .t6

/-- Pop a value of `storage` bytes to `offset` from `base`, the low word first. -/
def popToMemory (base : Reg) (offset : Int32) (storage align : Nat) : List Instr :=
  (List.range (wordCount storage)).flatMap fun k =>
    Instr.pop .t6 ++
      storeValue base (offset + Int32.ofNat (4 * k)) (wordBytes storage k) align

/-- The widest store that fits `left` bytes at the alignment. -/
def zeroWidth (align left : Nat) : Width :=
  if 4 ≤ align ∧ 4 ≤ left then .word
  else if 2 ≤ align ∧ 2 ≤ left then .half
  else .byte

theorem zeroWidth_bytes_pos (align left : Nat) : 0 < (zeroWidth align left).bytes := by
  unfold zeroWidth
  split
  · decide
  · split <;> decide

/-- Store zeros into the `left` bytes that follow `done` bytes from `offset` on. -/
def zeroFrom (base : Reg) (offset : Int32) (align done left : Nat) : List Instr :=
  if 0 < left then
    let width := zeroWidth align left
    .store width .zero (offset + Int32.ofNat done) base ::
      zeroFrom base offset align (done + width.bytes) (left - width.bytes)
  else
    []
termination_by left
decreasing_by
  have := zeroWidth_bytes_pos align left
  omega

def zeroMemory (base : Reg) (offset : Int32) (storage align : Nat) : List Instr :=
  zeroFrom base offset align 0 storage

end Stencil.Mips
