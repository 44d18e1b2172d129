import Stencil.Target.Basic
import Stencil.Target.Comparison

/-!
# MIPS32 instructions

The part of the instruction set that templates use, and its text in GAS style. The pseudo
instructions `li`, `la` and `move` are single instructions here. Every branch and jump has a delay
slot: the instruction after it runs before control is transferred.
-/

namespace Stencil.Mips

/-- A general register. -/
inductive Reg where
  | zero | at | v0 | v1 | a0 | a1 | a2 | a3
  | t0 | t1 | t2 | t3 | t4 | t5 | t6 | t7
  | s0 | s1 | s2 | s3 | s4 | s5 | s6 | s7
  | t8 | t9 | k0 | k1 | gp | sp | fp | ra
  deriving DecidableEq

namespace Reg

def all : List Reg :=
  [.zero, .at, .v0, .v1, .a0, .a1, .a2, .a3, .t0, .t1, .t2, .t3, .t4, .t5, .t6, .t7,
   .s0, .s1, .s2, .s3, .s4, .s5, .s6, .s7, .t8, .t9, .k0, .k1, .gp, .sp, .fp, .ra]

def index : Reg → Fin 32
  | .zero => 0
  | .at => 1
  | .v0 => 2
  | .v1 => 3
  | .a0 => 4
  | .a1 => 5
  | .a2 => 6
  | .a3 => 7
  | .t0 => 8
  | .t1 => 9
  | .t2 => 10
  | .t3 => 11
  | .t4 => 12
  | .t5 => 13
  | .t6 => 14
  | .t7 => 15
  | .s0 => 16
  | .s1 => 17
  | .s2 => 18
  | .s3 => 19
  | .s4 => 20
  | .s5 => 21
  | .s6 => 22
  | .s7 => 23
  | .t8 => 24
  | .t9 => 25
  | .k0 => 26
  | .k1 => 27
  | .gp => 28
  | .sp => 29
  | .fp => 30
  | .ra => 31

def name : Reg → String
  | .zero => "$zero"
  | .at => "$at"
  | .v0 => "$v0"
  | .v1 => "$v1"
  | .a0 => "$a0"
  | .a1 => "$a1"
  | .a2 => "$a2"
  | .a3 => "$a3"
  | .t0 => "$t0"
  | .t1 => "$t1"
  | .t2 => "$t2"
  | .t3 => "$t3"
  | .t4 => "$t4"
  | .t5 => "$t5"
  | .t6 => "$t6"
  | .t7 => "$t7"
  | .s0 => "$s0"
  | .s1 => "$s1"
  | .s2 => "$s2"
  | .s3 => "$s3"
  | .s4 => "$s4"
  | .s5 => "$s5"
  | .s6 => "$s6"
  | .s7 => "$s7"
  | .t8 => "$t8"
  | .t9 => "$t9"
  | .k0 => "$k0"
  | .k1 => "$k1"
  | .gp => "$gp"
  | .sp => "$sp"
  | .fp => "$fp"
  | .ra => "$ra"

end Reg

/-- Operations on two registers. A variable shift has the value first and the count second. -/
inductive AluOp where
  | addu | subu | and | or | xor | nor | slt | sltu | sllv | srlv | srav
  deriving DecidableEq

def AluOp.all : List AluOp :=
  [.addu, .subu, .and, .or, .xor, .nor, .slt, .sltu, .sllv, .srlv, .srav]

def AluOp.mnemonic : AluOp → String
  | .addu => "addu"
  | .subu => "subu"
  | .and => "and"
  | .or => "or"
  | .xor => "xor"
  | .nor => "nor"
  | .slt => "slt"
  | .sltu => "sltu"
  | .sllv => "sllv"
  | .srlv => "srlv"
  | .srav => "srav"

/-- Operations on a register and an immediate. -/
inductive ImmOp where
  | addiu | andi | ori | xori | slti | sltiu
  deriving DecidableEq

def ImmOp.all : List ImmOp := [.addiu, .andi, .ori, .xori, .slti, .sltiu]

def ImmOp.mnemonic : ImmOp → String
  | .addiu => "addiu"
  | .andi => "andi"
  | .ori => "ori"
  | .xori => "xori"
  | .slti => "slti"
  | .sltiu => "sltiu"

/-- Shifts by a constant. -/
inductive ShiftOp where
  | sll | srl | sra
  deriving DecidableEq

def ShiftOp.all : List ShiftOp := [.sll, .srl, .sra]

def ShiftOp.mnemonic : ShiftOp → String
  | .sll => "sll"
  | .srl => "srl"
  | .sra => "sra"

/-- The width of a load or store. -/
inductive Width where
  | byte | half | word
  deriving DecidableEq

namespace Width

def name : Width → String
  | .byte => "Byte"
  | .half => "Half"
  | .word => "Word"

/-- Bytes of an access, which are also its alignment. -/
def bytes : Width → Nat
  | .byte => 1
  | .half => 2
  | .word => 4

def ofBytes? : Nat → Option Width
  | 1 => some .byte
  | 2 => some .half
  | 4 => some .word
  | _ => none

end Width

/-- Comparisons of a register with zero. -/
inductive ZeroTest where
  | lez | gtz | ltz | gez
  deriving DecidableEq

def ZeroTest.all : List ZeroTest := [.lez, .gtz, .ltz, .gez]

def ZeroTest.mnemonic : ZeroTest → String
  | .lez => "blez"
  | .gtz => "bgtz"
  | .ltz => "bltz"
  | .gez => "bgez"

/-- A machine instruction. -/
inductive Instr where
  | label (label : Label)
  | alu (op : AluOp) (dst lhs rhs : Reg)
  | aluImm (op : ImmOp) (dst src : Reg) (imm : Int32)
  | shift (op : ShiftOp) (dst src : Reg) (amount : UInt8)
  /-- The product in `hi:lo`. -/
  | mult (lhs rhs : Reg) (unsigned : Bool)
  /-- The quotient in `lo` and the remainder in `hi`. -/
  | div (lhs rhs : Reg) (unsigned : Bool)
  | mfhi (dst : Reg)
  | mflo (dst : Reg)
  | li (dst : Reg) (imm : Int32)
  | la (dst : Reg) (symbol : Symbol)
  | move (dst src : Reg)
  | load (width : Width) (signed : Bool) (dst : Reg) (offset : Int32) (base : Reg)
  | store (width : Width) (src : Reg) (offset : Int32) (base : Reg)
  /-- Branch when two registers are equal, or when they are not. -/
  | branch (onEqual : Bool) (lhs rhs : Reg) (target : Label)
  | branchZero (test : ZeroTest) (src : Reg) (target : Label)
  | j (target : Label)
  | jal (symbol : Symbol)
  | jalr (target : Reg)
  | jr (target : Reg)
  | nop
  deriving DecidableEq

namespace Instr

/-- The next instruction runs before control is transferred. -/
def hasDelaySlot : Instr → Bool
  | .branch .. | .branchZero .. | .j _ | .jal _ | .jalr _ | .jr _ => true
  | _ => false

def symbols : Instr → List Symbol
  | .la _ symbol | .jal symbol => [symbol]
  | _ => []

/-- The mnemonic of a load; a word needs no extension. -/
def loadMnemonic : Width → Bool → String
  | .word, _ => "lw"
  | .half, true => "lh"
  | .half, false => "lhu"
  | .byte, true => "lb"
  | .byte, false => "lbu"

def storeMnemonic : Width → String
  | .word => "sw"
  | .half => "sh"
  | .byte => "sb"

def renderAddress (offset : Int32) (base : Reg) : String :=
  toString offset ++ "(" ++ base.name ++ ")"

def render : Instr → String
  | .label l => l.render ++ ":"
  | .alu op dst lhs rhs =>
    op.mnemonic ++ " " ++ dst.name ++ ", " ++ lhs.name ++ ", " ++ rhs.name
  | .aluImm op dst src imm =>
    op.mnemonic ++ " " ++ dst.name ++ ", " ++ src.name ++ ", " ++ toString imm
  | .shift op dst src amount =>
    op.mnemonic ++ " " ++ dst.name ++ ", " ++ src.name ++ ", " ++ toString amount.toNat
  | .mult lhs rhs unsigned =>
    (if unsigned then "multu " else "mult ") ++ lhs.name ++ ", " ++ rhs.name
  | .div lhs rhs unsigned =>
    (if unsigned then "divu " else "div ") ++ lhs.name ++ ", " ++ rhs.name
  | .mfhi dst => "mfhi " ++ dst.name
  | .mflo dst => "mflo " ++ dst.name
  | .li dst imm => "li " ++ dst.name ++ ", " ++ toString imm
  | .la dst symbol => "la " ++ dst.name ++ ", " ++ symbol
  | .move dst src => "move " ++ dst.name ++ ", " ++ src.name
  | .load width signed dst offset base =>
    loadMnemonic width signed ++ " " ++ dst.name ++ ", " ++ renderAddress offset base
  | .store width src offset base =>
    storeMnemonic width ++ " " ++ src.name ++ ", " ++ renderAddress offset base
  | .branch onEqual lhs rhs target =>
    (if onEqual then "beq " else "bne ") ++ lhs.name ++ ", " ++ rhs.name ++ ", " ++ target.render
  | .branchZero test src target => test.mnemonic ++ " " ++ src.name ++ ", " ++ target.render
  | .j target => "j " ++ target.render
  | .jal symbol => "jal " ++ symbol
  | .jalr target => "jalr " ++ target.name
  | .jr target => "jr " ++ target.name
  | .nop => "nop"

instance : TargetInstr Instr where
  label := .label
  asLabel?
    | .label l => some l
    | _ => none
  symbols := symbols
  render := render

/-! ## Common forms

Every branch and jump is followed by `nop`. A push moves the stack pointer before the store, a pop
after the load. Immediates and addresses are pushed by way of `$t9`. -/

def addiu (dst src : Reg) (imm : Int32) : Instr := .aluImm .addiu dst src imm

def lw (dst : Reg) (offset : Int32) (base : Reg) : Instr := .load .word true dst offset base

def sw (src : Reg) (offset : Int32) (base : Reg) : Instr := .store .word src offset base

def setLess (unsigned : Bool) (dst lhs rhs : Reg) : Instr :=
  .alu (if unsigned then .sltu else .slt) dst lhs rhs

def push (src : Reg) : List Instr := [addiu .sp .sp (-4), sw src 0 .sp]

def pop (dst : Reg) : List Instr := [lw dst 0 .sp, addiu .sp .sp 4]

/-- Push a constant; zero comes from `$zero`. -/
def pushImm (imm : Int32) : List Instr :=
  if imm = 0 then push .zero else .li .t9 imm :: push .t9

def pushAddr (symbol : Symbol) : List Instr := .la .t9 symbol :: push .t9

/-- Release `bytes` of stack; nothing for zero. -/
def drop (bytes : Nat) : List Instr :=
  if bytes = 0 then [] else [addiu .sp .sp (Int32.ofNat bytes)]

/-- Reserve `bytes` of stack; nothing for zero. -/
def reserve (bytes : Nat) : List Instr :=
  if bytes = 0 then [] else [addiu .sp .sp (-Int32.ofNat bytes)]

def beq (lhs rhs : Reg) (target : Label) : List Instr := [.branch true lhs rhs target, .nop]

def bne (lhs rhs : Reg) (target : Label) : List Instr := [.branch false lhs rhs target, .nop]

def bltz (src : Reg) (target : Label) : List Instr := [.branchZero .ltz src target, .nop]

def jump (target : Label) : List Instr := [.j target, .nop]

def callSymbol (symbol : Symbol) : List Instr := [.jal symbol, .nop]

def callReg (target : Reg) : List Instr := [.jalr target, .nop]

end Instr

/-- An offset as a load or store encodes it: a signed halfword. -/
def displacement (i : Instruction) (offset : Int) : Except CompileError Int32 :=
  if -32768 ≤ offset ∧ offset ≤ 32767 then .ok (Int32.ofInt offset)
  else .error (i.unsupported (.displacement offset))

end Stencil.Mips
