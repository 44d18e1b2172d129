import Stencil.Target.Basic
import Stencil.Target.Comparison

/-!
# x86 instructions

The part of the 32-bit instruction set that templates use, and its text in NASM style.
-/

namespace Stencil.X86

/-- A general register. -/
inductive Reg where
  | eax | ecx | edx | ebx | esp | ebp | esi | edi
  deriving DecidableEq

/-- The width of an access. -/
inductive Width where
  | byte | word | dword
  deriving DecidableEq

namespace Width

def all : List Width := [.byte, .word, .dword]

def bytes : Width → Nat
  | .byte => 1
  | .word => 2
  | .dword => 4

def ofBytes? : Nat → Option Width
  | 1 => some .byte
  | 2 => some .word
  | 4 => some .dword
  | _ => none

def keyword : Width → String
  | .byte => "byte"
  | .word => "word"
  | .dword => "dword"

end Width

namespace Reg

def all : List Reg := [.eax, .ecx, .edx, .ebx, .esp, .ebp, .esi, .edi]

def index : Reg → Fin 8
  | .eax => 0
  | .ecx => 1
  | .edx => 2
  | .ebx => 3
  | .esp => 4
  | .ebp => 5
  | .esi => 6
  | .edi => 7

def name : Reg → String
  | .eax => "eax"
  | .ecx => "ecx"
  | .edx => "edx"
  | .ebx => "ebx"
  | .esp => "esp"
  | .ebp => "ebp"
  | .esi => "esi"
  | .edi => "edi"

/-- The name of the low part; registers without a low byte keep their own. -/
def partName : Width → Reg → String
  | .byte, .eax => "al"
  | .byte, .ecx => "cl"
  | .byte, .edx => "dl"
  | .byte, .ebx => "bl"
  | .word, .eax => "ax"
  | .word, .ecx => "cx"
  | .word, .edx => "dx"
  | .word, .ebx => "bx"
  | .word, .esp => "sp"
  | .word, .ebp => "bp"
  | .word, .esi => "si"
  | .word, .edi => "di"
  | _, reg => reg.name

end Reg

/-- The address `base + symbol + disp`. -/
structure Mem where
  base : Option Reg := none
  symbol : Option Symbol := none
  disp : Int32 := 0
  deriving DecidableEq

namespace Mem

def based (base : Reg) (disp : Int32) : Mem := { base, disp }

def global (symbol : Symbol) : Mem := { symbol }

def offset (m : Mem) (delta : Int32) : Mem := { m with disp := m.disp + delta }

/-- The address in brackets; a displacement of zero is written only on its own. -/
def render (m : Mem) : String :=
  let parts := (m.base.map Reg.name).toList ++ m.symbol.toList
  let disp :=
    if parts.isEmpty then toString m.disp
    else if 0 < m.disp then "+" ++ toString m.disp
    else if m.disp < 0 then toString m.disp
    else ""
  "[" ++ String.intercalate "+" parts ++ disp ++ "]"

end Mem

/-- An operand of an instruction. -/
inductive Operand where
  | reg (r : Reg)
  /-- The low part of a register. -/
  | part (r : Reg) (width : Width)
  | imm (value : Int32)
  | mem (width : Width) (m : Mem)
  /-- The address of a symbol as an immediate. -/
  | addr (symbol : Symbol)
  deriving DecidableEq

namespace Operand

def symbol? : Operand → Option Symbol
  | .mem _ m => m.symbol
  | .addr symbol => some symbol
  | _ => none

def render : Operand → String
  | .reg r => r.name
  | .part r width => r.partName width
  | .imm value => toString value
  | .mem width m => width.keyword ++ " " ++ m.render
  | .addr symbol => symbol

end Operand

/-- The condition of a jump, read off the flags. -/
inductive Cond where
  | e | ne | l | le | g | ge | b | be | a | ae
  deriving DecidableEq

namespace Cond

def all : List Cond := [.e, .ne, .l, .le, .g, .ge, .b, .be, .a, .ae]

/-- The condition that holds after comparing two operands that stand in the relation. -/
def ofComparison (c : Comparison) : Cond :=
  match c.relation, c.unsigned with
  | .eq, _ => .e
  | .ne, _ => .ne
  | .lt, false => .l
  | .le, false => .le
  | .gt, false => .g
  | .ge, false => .ge
  | .lt, true => .b
  | .le, true => .be
  | .gt, true => .a
  | .ge, true => .ae

def suffix : Cond → String
  | .e => "e"
  | .ne => "ne"
  | .l => "l"
  | .le => "le"
  | .g => "g"
  | .ge => "ge"
  | .b => "b"
  | .be => "be"
  | .a => "a"
  | .ae => "ae"

end Cond

/-- Where a jump or call goes. -/
inductive Target where
  | label (label : Label)
  | symbol (symbol : Symbol)
  | reg (r : Reg)
  deriving DecidableEq

def Target.render : Target → String
  | .label l => l.render
  | .symbol s => s
  | .reg r => r.name

/-- Operations on two operands. -/
inductive AluOp where
  | add | adc | sub | sbb | and | or | xor | cmp
  deriving DecidableEq

def AluOp.all : List AluOp := [.add, .adc, .sub, .sbb, .and, .or, .xor, .cmp]

def AluOp.mnemonic : AluOp → String
  | .add => "add"
  | .adc => "adc"
  | .sub => "sub"
  | .sbb => "sbb"
  | .and => "and"
  | .or => "or"
  | .xor => "xor"
  | .cmp => "cmp"

/-- Shifts; `sar` keeps the sign. -/
inductive ShiftKind where
  | shl | shr | sar
  deriving DecidableEq

def ShiftKind.all : List ShiftKind := [.shl, .shr, .sar]

def ShiftKind.mnemonic : ShiftKind → String
  | .shl => "shl"
  | .shr => "shr"
  | .sar => "sar"

/-- The count of a shift. -/
inductive ShiftCount where
  /-- The low byte of `ecx`. -/
  | cl
  | imm (n : UInt8)
  deriving DecidableEq

def ShiftCount.render : ShiftCount → String
  | .cl => "cl"
  | .imm n => toString n.toNat

/-- A machine instruction. -/
inductive Instr where
  | label (label : Label)
  | mov (dst src : Operand)
  | movzx (dst : Reg) (src : Operand)
  | movsx (dst : Reg) (src : Operand)
  | lea (dst : Reg) (src : Mem)
  | push (src : Operand)
  | pop (dst : Operand)
  | alu (op : AluOp) (dst src : Operand)
  | test (dst src : Operand)
  | neg (dst : Operand)
  | not (dst : Operand)
  /-- The double word `edx:eax` becomes `eax` times the operand, unsigned. -/
  | mul (src : Operand)
  | imul (dst : Reg) (src : Operand)
  | imulImm (dst : Reg) (src : Operand) (imm : Int32)
  /-- Quotient in `eax` and remainder in `edx` of `edx:eax`, unsigned. -/
  | div (src : Operand)
  /-- The same, signed. -/
  | idiv (src : Operand)
  /-- Extend the sign of `eax` into `edx`. -/
  | cdq
  | shift (kind : ShiftKind) (dst : Operand) (count : ShiftCount)
  | shld (dst : Operand) (src : Reg) (count : ShiftCount)
  | shrd (dst : Operand) (src : Reg) (count : ShiftCount)
  | jmp (target : Target)
  | jcc (cond : Cond) (target : Label)
  | call (target : Target)
  | ret
  | nop
  deriving DecidableEq

namespace Instr

def symbols : Instr → List Symbol
  | .mov dst src | .alu _ dst src | .test dst src => dst.symbol?.toList ++ src.symbol?.toList
  | .movzx _ src | .movsx _ src | .imul _ src | .imulImm _ src _ => src.symbol?.toList
  | .push o | .pop o | .neg o | .not o | .mul o | .div o | .idiv o => o.symbol?.toList
  | .shift _ dst _ | .shld dst _ _ | .shrd dst _ _ => dst.symbol?.toList
  | .lea _ src => src.symbol.toList
  | .jmp (.symbol symbol) | .call (.symbol symbol) => [symbol]
  | _ => []

def render : Instr → String
  | .label l => l.render ++ ":"
  | .mov dst src => "mov " ++ dst.render ++ ", " ++ src.render
  | .movzx dst src => "movzx " ++ dst.name ++ ", " ++ src.render
  | .movsx dst src => "movsx " ++ dst.name ++ ", " ++ src.render
  | .lea dst src => "lea " ++ dst.name ++ ", " ++ src.render
  | .push o => "push " ++ o.render
  | .pop o => "pop " ++ o.render
  | .alu op dst src => op.mnemonic ++ " " ++ dst.render ++ ", " ++ src.render
  | .test dst src => "test " ++ dst.render ++ ", " ++ src.render
  | .neg o => "neg " ++ o.render
  | .not o => "not " ++ o.render
  | .mul o => "mul " ++ o.render
  | .imul dst src => "imul " ++ dst.name ++ ", " ++ src.render
  | .imulImm dst src imm => "imul " ++ dst.name ++ ", " ++ src.render ++ ", " ++ toString imm
  | .div o => "div " ++ o.render
  | .idiv o => "idiv " ++ o.render
  | .cdq => "cdq"
  | .shift kind dst count => kind.mnemonic ++ " " ++ dst.render ++ ", " ++ count.render
  | .shld dst src count => "shld " ++ dst.render ++ ", " ++ src.name ++ ", " ++ count.render
  | .shrd dst src count => "shrd " ++ dst.render ++ ", " ++ src.name ++ ", " ++ count.render
  | .jmp target => "jmp " ++ target.render
  | .jcc cond target => "j" ++ cond.suffix ++ " " ++ target.render
  | .call target => "call " ++ target.render
  | .ret => "ret"
  | .nop => "nop"

instance : TargetInstr Instr where
  label := .label
  asLabel?
    | .label l => some l
    | _ => none
  symbols := symbols
  render := render

/-! ## Common forms -/

def movReg (dst src : Reg) : Instr := .mov (.reg dst) (.reg src)

def load (dst : Reg) (m : Mem) : Instr := .mov (.reg dst) (.mem .dword m)

def store (m : Mem) (src : Reg) : Instr := .mov (.mem .dword m) (.reg src)

/-- Store the low part of a register. -/
def storePart (width : Width) (m : Mem) (src : Reg) : Instr :=
  .mov (.mem width m) (.part src width)

def pushReg (r : Reg) : Instr := .push (.reg r)

def pushImm (value : Int32) : Instr := .push (.imm value)

def pushMem (m : Mem) : Instr := .push (.mem .dword m)

def pushAddr (symbol : Symbol) : Instr := .push (.addr symbol)

def popReg (r : Reg) : Instr := .pop (.reg r)

def popMem (m : Mem) : Instr := .pop (.mem .dword m)

def aluReg (op : AluOp) (dst src : Reg) : Instr := .alu op (.reg dst) (.reg src)

def aluImm (op : AluOp) (dst : Reg) (value : Int32) : Instr := .alu op (.reg dst) (.imm value)

/-- Set the flags by whether a register is zero. -/
def testReg (r : Reg) : Instr := .test (.reg r) (.reg r)

def imulReg (dst src : Reg) : Instr := .imul dst (.reg src)

def shiftCl (kind : ShiftKind) (dst : Reg) : Instr := .shift kind (.reg dst) .cl

def shiftImm (kind : ShiftKind) (dst : Reg) (n : UInt8) : Instr := .shift kind (.reg dst) (.imm n)

def jump (label : Label) : Instr := .jmp (.label label)

def callSymbol (symbol : Symbol) : Instr := .call (.symbol symbol)

def callReg (r : Reg) : Instr := .call (.reg r)

def drop (bytes : Nat) : List Instr :=
  if bytes = 0 then [] else [aluImm .add .esp (Int32.ofNat bytes)]

def reserve (bytes : Nat) : List Instr :=
  if bytes = 0 then [] else [aluImm .sub .esp (Int32.ofNat bytes)]

end Instr

end Stencil.X86
