import Stencil.X86.Instr

/-!
# Moving values between memory and the stack

Whole words move with one push or pop, since the target tolerates unaligned addresses. Only the
tail of a value whose size is no multiple of four needs narrower moves. A value is pushed high word
first, so that its low word lies lowest. Scratch registers are `edx` and `esi`.
-/

namespace Stencil.X86

def wordCount (storage : Nat) : Nat := (storage + 3) / 4

def wordBytes (storage k : Nat) : Nat := min (storage - 4 * k) 4

def Mem.word (m : Mem) (k : Nat) : Mem := m.offset (Int32.ofNat (4 * k))

/-- Load a tail of one to three bytes into `edx`, extended as asked. A tail of three bytes is
always filled up with zeros. -/
def loadTail (m : Mem) (bytes : Nat) (signed : Bool) : List Instr :=
  match bytes with
  | 1 => [if signed then .movsx .edx (.mem .byte m) else .movzx .edx (.mem .byte m)]
  | 2 => [if signed then .movsx .edx (.mem .word m) else .movzx .edx (.mem .word m)]
  | _ =>
    [.movzx .edx (.mem .byte (m.offset 2)),
     .shiftImm .shl .edx 16,
     .movzx .esi (.mem .word m),
     .aluReg .or .edx .esi]

def pushWord (m : Mem) (bytes : Nat) (signed : Bool) : List Instr :=
  if bytes = 4 then [Instr.pushMem m] else loadTail m bytes signed ++ [Instr.pushReg .edx]

/-- Push the value of `storage` bytes at `m`, the high word first. -/
def pushFromMemory (m : Mem) (storage : Nat) (signed : Bool) : List Instr :=
  (List.range (wordCount storage)).reverse.flatMap fun k =>
    pushWord (m.word k) (wordBytes storage k) (signed && storage < 4)

def popWord (m : Mem) (bytes : Nat) : List Instr :=
  match bytes with
  | 4 => [.popMem m]
  | 1 => [.popReg .edx, .storePart .byte m .edx]
  | 2 => [.popReg .edx, .storePart .word m .edx]
  | _ =>
    [.popReg .edx,
     .storePart .word m .edx,
     .shiftImm .shr .edx 16,
     .storePart .byte (m.offset 2) .edx]

/-- Pop a value of `storage` bytes into `m`, the low word first. -/
def popToMemory (m : Mem) (storage : Nat) : List Instr :=
  (List.range (wordCount storage)).flatMap fun k => popWord (m.word k) (wordBytes storage k)

/-- Store zeros into `storage` bytes: whole words, then a word part and a byte as needed. -/
def zeroMemory (m : Mem) (storage : Nat) : List Instr :=
  let zero (width : Width) (done : Nat) : Instr :=
    .mov (.mem width (m.offset (Int32.ofNat done))) (.imm 0)
  let whole := storage / 4
  (List.range whole).map (fun k => zero .dword (4 * k)) ++
    match storage % 4 with
    | 0 => []
    | 1 => [zero .byte (4 * whole)]
    | 2 => [zero .word (4 * whole)]
    | _ => [zero .word (4 * whole), zero .byte (4 * whole + 2)]

end Stencil.X86
