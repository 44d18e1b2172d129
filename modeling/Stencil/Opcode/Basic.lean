/-!
# Opcodes

The catalogue of bytecode operations: their encodings, names, mnemonics and operand shapes. Two
pseudo operations, the method start and the method end, bracket every body and are never decoded.
-/

namespace Stencil

/-- A bytecode operation. -/
inductive Opcode where
  | nop | ldarg0 | ldarg1 | ldarg2 | ldarg3 | ldloc0 | ldloc1 | ldloc2 | ldloc3 | stloc0 | stloc1
  | stloc2 | stloc3 | ldargS | ldargaS | stargS | ldlocS | ldlocaS | stlocS | ldnull | ldcI4M1
  | ldcI40 | ldcI41 | ldcI42 | ldcI43 | ldcI44 | ldcI45 | ldcI46 | ldcI47 | ldcI48 | ldcI4S
  | ldcI4 | ldcI8 | ldcR4 | ldcR8 | dup | pop | call | calli | ret | brS | brfalseS | brtrueS
  | beqS | bgeS | bgtS | bleS | bltS | bneUnS | bgeUnS | bgtUnS | bleUnS | bltUnS | br | brfalse
  | brtrue | beq | bge | bgt | ble | blt | bneUn | bgeUn | bgtUn | bleUn | bltUn | switch
  | ldindI1 | ldindU1 | ldindI2 | ldindU2 | ldindI4 | ldindU4 | ldindI8 | ldindI | ldindR4
  | ldindR8 | ldindRef | stindRef | stindI1 | stindI2 | stindI4 | stindI8 | stindR4 | stindR8
  | add | sub | mul | div | divUn | rem | remUn | and | or | xor | shl | shr | shrUn | neg | not
  | convI1 | convI2 | convI4 | convI8 | convR4 | convR8 | convU4 | convU8 | callvirt | ldstr
  | newobj | castclass | isinst | convRUn | throw | ldfld | ldflda | stfld | ldsfld | ldsflda
  | stsfld | newarr | ldlen | ldelema | ldelemI1 | ldelemU1 | ldelemI2 | ldelemU2 | ldelemI4
  | ldelemU4 | ldelemI8 | ldelemI | ldelemR4 | ldelemR8 | ldelemRef | stelemI | stelemI1
  | stelemI2 | stelemI4 | stelemI8 | stelemR4 | stelemR8 | stelemRef | ldelem | stelem | ldtoken
  | convU2 | convU1 | convI | leave | leaveS | stindI | convU | ceq | cgt | cgtUn | clt | cltUn
  | ldftn | ldarg | ldarga | starg | ldloc | ldloca | stloc | initobj | sizeof | methodStart
  | methodEnd
  deriving DecidableEq

namespace Opcode

def all : List Opcode := [
  .nop, .ldarg0, .ldarg1, .ldarg2, .ldarg3, .ldloc0, .ldloc1, .ldloc2, .ldloc3, .stloc0, .stloc1,
  .stloc2, .stloc3, .ldargS, .ldargaS, .stargS, .ldlocS, .ldlocaS, .stlocS, .ldnull, .ldcI4M1,
  .ldcI40, .ldcI41, .ldcI42, .ldcI43, .ldcI44, .ldcI45, .ldcI46, .ldcI47, .ldcI48, .ldcI4S,
  .ldcI4, .ldcI8, .ldcR4, .ldcR8, .dup, .pop, .call, .calli, .ret, .brS, .brfalseS, .brtrueS,
  .beqS, .bgeS, .bgtS, .bleS, .bltS, .bneUnS, .bgeUnS, .bgtUnS, .bleUnS, .bltUnS, .br, .brfalse,
  .brtrue, .beq, .bge, .bgt, .ble, .blt, .bneUn, .bgeUn, .bgtUn, .bleUn, .bltUn, .switch,
  .ldindI1, .ldindU1, .ldindI2, .ldindU2, .ldindI4, .ldindU4, .ldindI8, .ldindI, .ldindR4,
  .ldindR8, .ldindRef, .stindRef, .stindI1, .stindI2, .stindI4, .stindI8, .stindR4, .stindR8,
  .add, .sub, .mul, .div, .divUn, .rem, .remUn, .and, .or, .xor, .shl, .shr, .shrUn, .neg, .not,
  .convI1, .convI2, .convI4, .convI8, .convR4, .convR8, .convU4, .convU8, .callvirt, .ldstr,
  .newobj, .castclass, .isinst, .convRUn, .throw, .ldfld, .ldflda, .stfld, .ldsfld, .ldsflda,
  .stsfld, .newarr, .ldlen, .ldelema, .ldelemI1, .ldelemU1, .ldelemI2, .ldelemU2, .ldelemI4,
  .ldelemU4, .ldelemI8, .ldelemI, .ldelemR4, .ldelemR8, .ldelemRef, .stelemI, .stelemI1,
  .stelemI2, .stelemI4, .stelemI8, .stelemR4, .stelemR8, .stelemRef, .ldelem, .stelem, .ldtoken,
  .convU2, .convU1, .convI, .leave, .leaveS, .stindI, .convU, .ceq, .cgt, .cgtUn, .clt, .cltUn,
  .ldftn, .ldarg, .ldarga, .starg, .ldloc, .ldloca, .stloc, .initobj, .sizeof, .methodStart,
  .methodEnd]

/-- The encoding; those of two bytes start with `0xFE` or `0xFF`. -/
def code : Opcode → Nat
  | .nop => 0x00
  | .ldarg0 => 0x02
  | .ldarg1 => 0x03
  | .ldarg2 => 0x04
  | .ldarg3 => 0x05
  | .ldloc0 => 0x06
  | .ldloc1 => 0x07
  | .ldloc2 => 0x08
  | .ldloc3 => 0x09
  | .stloc0 => 0x0A
  | .stloc1 => 0x0B
  | .stloc2 => 0x0C
  | .stloc3 => 0x0D
  | .ldargS => 0x0E
  | .ldargaS => 0x0F
  | .stargS => 0x10
  | .ldlocS => 0x11
  | .ldlocaS => 0x12
  | .stlocS => 0x13
  | .ldnull => 0x14
  | .ldcI4M1 => 0x15
  | .ldcI40 => 0x16
  | .ldcI41 => 0x17
  | .ldcI42 => 0x18
  | .ldcI43 => 0x19
  | .ldcI44 => 0x1A
  | .ldcI45 => 0x1B
  | .ldcI46 => 0x1C
  | .ldcI47 => 0x1D
  | .ldcI48 => 0x1E
  | .ldcI4S => 0x1F
  | .ldcI4 => 0x20
  | .ldcI8 => 0x21
  | .ldcR4 => 0x22
  | .ldcR8 => 0x23
  | .dup => 0x25
  | .pop => 0x26
  | .call => 0x28
  | .calli => 0x29
  | .ret => 0x2A
  | .brS => 0x2B
  | .brfalseS => 0x2C
  | .brtrueS => 0x2D
  | .beqS => 0x2E
  | .bgeS => 0x2F
  | .bgtS => 0x30
  | .bleS => 0x31
  | .bltS => 0x32
  | .bneUnS => 0x33
  | .bgeUnS => 0x34
  | .bgtUnS => 0x35
  | .bleUnS => 0x36
  | .bltUnS => 0x37
  | .br => 0x38
  | .brfalse => 0x39
  | .brtrue => 0x3A
  | .beq => 0x3B
  | .bge => 0x3C
  | .bgt => 0x3D
  | .ble => 0x3E
  | .blt => 0x3F
  | .bneUn => 0x40
  | .bgeUn => 0x41
  | .bgtUn => 0x42
  | .bleUn => 0x43
  | .bltUn => 0x44
  | .switch => 0x45
  | .ldindI1 => 0x46
  | .ldindU1 => 0x47
  | .ldindI2 => 0x48
  | .ldindU2 => 0x49
  | .ldindI4 => 0x4A
  | .ldindU4 => 0x4B
  | .ldindI8 => 0x4C
  | .ldindI => 0x4D
  | .ldindR4 => 0x4E
  | .ldindR8 => 0x4F
  | .ldindRef => 0x50
  | .stindRef => 0x51
  | .stindI1 => 0x52
  | .stindI2 => 0x53
  | .stindI4 => 0x54
  | .stindI8 => 0x55
  | .stindR4 => 0x56
  | .stindR8 => 0x57
  | .add => 0x58
  | .sub => 0x59
  | .mul => 0x5A
  | .div => 0x5B
  | .divUn => 0x5C
  | .rem => 0x5D
  | .remUn => 0x5E
  | .and => 0x5F
  | .or => 0x60
  | .xor => 0x61
  | .shl => 0x62
  | .shr => 0x63
  | .shrUn => 0x64
  | .neg => 0x65
  | .not => 0x66
  | .convI1 => 0x67
  | .convI2 => 0x68
  | .convI4 => 0x69
  | .convI8 => 0x6A
  | .convR4 => 0x6B
  | .convR8 => 0x6C
  | .convU4 => 0x6D
  | .convU8 => 0x6E
  | .callvirt => 0x6F
  | .ldstr => 0x72
  | .newobj => 0x73
  | .castclass => 0x74
  | .isinst => 0x75
  | .convRUn => 0x76
  | .throw => 0x7A
  | .ldfld => 0x7B
  | .ldflda => 0x7C
  | .stfld => 0x7D
  | .ldsfld => 0x7E
  | .ldsflda => 0x7F
  | .stsfld => 0x80
  | .newarr => 0x8D
  | .ldlen => 0x8E
  | .ldelema => 0x8F
  | .ldelemI1 => 0x90
  | .ldelemU1 => 0x91
  | .ldelemI2 => 0x92
  | .ldelemU2 => 0x93
  | .ldelemI4 => 0x94
  | .ldelemU4 => 0x95
  | .ldelemI8 => 0x96
  | .ldelemI => 0x97
  | .ldelemR4 => 0x98
  | .ldelemR8 => 0x99
  | .ldelemRef => 0x9A
  | .stelemI => 0x9B
  | .stelemI1 => 0x9C
  | .stelemI2 => 0x9D
  | .stelemI4 => 0x9E
  | .stelemI8 => 0x9F
  | .stelemR4 => 0xA0
  | .stelemR8 => 0xA1
  | .stelemRef => 0xA2
  | .ldelem => 0xA3
  | .stelem => 0xA4
  | .ldtoken => 0xD0
  | .convU2 => 0xD1
  | .convU1 => 0xD2
  | .convI => 0xD3
  | .leave => 0xDD
  | .leaveS => 0xDE
  | .stindI => 0xDF
  | .convU => 0xE0
  | .ceq => 0xFE01
  | .cgt => 0xFE02
  | .cgtUn => 0xFE03
  | .clt => 0xFE04
  | .cltUn => 0xFE05
  | .ldftn => 0xFE06
  | .ldarg => 0xFE09
  | .ldarga => 0xFE0A
  | .starg => 0xFE0B
  | .ldloc => 0xFE0C
  | .ldloca => 0xFE0D
  | .stloc => 0xFE0E
  | .initobj => 0xFE15
  | .sizeof => 0xFE1C
  | .methodStart => 0xFF00
  | .methodEnd => 0xFF01

/-- The name in assembly listings, words divided by dots; pseudo operations are capitalised. -/
def mnemonic : Opcode → String
  | .nop => "nop"
  | .ldarg0 => "ldarg.0"
  | .ldarg1 => "ldarg.1"
  | .ldarg2 => "ldarg.2"
  | .ldarg3 => "ldarg.3"
  | .ldloc0 => "ldloc.0"
  | .ldloc1 => "ldloc.1"
  | .ldloc2 => "ldloc.2"
  | .ldloc3 => "ldloc.3"
  | .stloc0 => "stloc.0"
  | .stloc1 => "stloc.1"
  | .stloc2 => "stloc.2"
  | .stloc3 => "stloc.3"
  | .ldargS => "ldarg.s"
  | .ldargaS => "ldarga.s"
  | .stargS => "starg.s"
  | .ldlocS => "ldloc.s"
  | .ldlocaS => "ldloca.s"
  | .stlocS => "stloc.s"
  | .ldnull => "ldnull"
  | .ldcI4M1 => "ldc.i4.m1"
  | .ldcI40 => "ldc.i4.0"
  | .ldcI41 => "ldc.i4.1"
  | .ldcI42 => "ldc.i4.2"
  | .ldcI43 => "ldc.i4.3"
  | .ldcI44 => "ldc.i4.4"
  | .ldcI45 => "ldc.i4.5"
  | .ldcI46 => "ldc.i4.6"
  | .ldcI47 => "ldc.i4.7"
  | .ldcI48 => "ldc.i4.8"
  | .ldcI4S => "ldc.i4.s"
  | .ldcI4 => "ldc.i4"
  | .ldcI8 => "ldc.i8"
  | .ldcR4 => "ldc.r4"
  | .ldcR8 => "ldc.r8"
  | .dup => "dup"
  | .pop => "pop"
  | .call => "call"
  | .calli => "calli"
  | .ret => "ret"
  | .brS => "br.s"
  | .brfalseS => "brfalse.s"
  | .brtrueS => "brtrue.s"
  | .beqS => "beq.s"
  | .bgeS => "bge.s"
  | .bgtS => "bgt.s"
  | .bleS => "ble.s"
  | .bltS => "blt.s"
  | .bneUnS => "bne.un.s"
  | .bgeUnS => "bge.un.s"
  | .bgtUnS => "bgt.un.s"
  | .bleUnS => "ble.un.s"
  | .bltUnS => "blt.un.s"
  | .br => "br"
  | .brfalse => "brfalse"
  | .brtrue => "brtrue"
  | .beq => "beq"
  | .bge => "bge"
  | .bgt => "bgt"
  | .ble => "ble"
  | .blt => "blt"
  | .bneUn => "bne.un"
  | .bgeUn => "bge.un"
  | .bgtUn => "bgt.un"
  | .bleUn => "ble.un"
  | .bltUn => "blt.un"
  | .switch => "switch"
  | .ldindI1 => "ldind.i1"
  | .ldindU1 => "ldind.u1"
  | .ldindI2 => "ldind.i2"
  | .ldindU2 => "ldind.u2"
  | .ldindI4 => "ldind.i4"
  | .ldindU4 => "ldind.u4"
  | .ldindI8 => "ldind.i8"
  | .ldindI => "ldind.i"
  | .ldindR4 => "ldind.r4"
  | .ldindR8 => "ldind.r8"
  | .ldindRef => "ldind.ref"
  | .stindRef => "stind.ref"
  | .stindI1 => "stind.i1"
  | .stindI2 => "stind.i2"
  | .stindI4 => "stind.i4"
  | .stindI8 => "stind.i8"
  | .stindR4 => "stind.r4"
  | .stindR8 => "stind.r8"
  | .add => "add"
  | .sub => "sub"
  | .mul => "mul"
  | .div => "div"
  | .divUn => "div.un"
  | .rem => "rem"
  | .remUn => "rem.un"
  | .and => "and"
  | .or => "or"
  | .xor => "xor"
  | .shl => "shl"
  | .shr => "shr"
  | .shrUn => "shr.un"
  | .neg => "neg"
  | .not => "not"
  | .convI1 => "conv.i1"
  | .convI2 => "conv.i2"
  | .convI4 => "conv.i4"
  | .convI8 => "conv.i8"
  | .convR4 => "conv.r4"
  | .convR8 => "conv.r8"
  | .convU4 => "conv.u4"
  | .convU8 => "conv.u8"
  | .callvirt => "callvirt"
  | .ldstr => "ldstr"
  | .newobj => "newobj"
  | .castclass => "castclass"
  | .isinst => "isinst"
  | .convRUn => "conv.r.un"
  | .throw => "throw"
  | .ldfld => "ldfld"
  | .ldflda => "ldflda"
  | .stfld => "stfld"
  | .ldsfld => "ldsfld"
  | .ldsflda => "ldsflda"
  | .stsfld => "stsfld"
  | .newarr => "newarr"
  | .ldlen => "ldlen"
  | .ldelema => "ldelema"
  | .ldelemI1 => "ldelem.i1"
  | .ldelemU1 => "ldelem.u1"
  | .ldelemI2 => "ldelem.i2"
  | .ldelemU2 => "ldelem.u2"
  | .ldelemI4 => "ldelem.i4"
  | .ldelemU4 => "ldelem.u4"
  | .ldelemI8 => "ldelem.i8"
  | .ldelemI => "ldelem.i"
  | .ldelemR4 => "ldelem.r4"
  | .ldelemR8 => "ldelem.r8"
  | .ldelemRef => "ldelem.ref"
  | .stelemI => "stelem.i"
  | .stelemI1 => "stelem.i1"
  | .stelemI2 => "stelem.i2"
  | .stelemI4 => "stelem.i4"
  | .stelemI8 => "stelem.i8"
  | .stelemR4 => "stelem.r4"
  | .stelemR8 => "stelem.r8"
  | .stelemRef => "stelem.ref"
  | .ldelem => "ldelem"
  | .stelem => "stelem"
  | .ldtoken => "ldtoken"
  | .convU2 => "conv.u2"
  | .convU1 => "conv.u1"
  | .convI => "conv.i"
  | .leave => "leave"
  | .leaveS => "leave.s"
  | .stindI => "stind.i"
  | .convU => "conv.u"
  | .ceq => "ceq"
  | .cgt => "cgt"
  | .cgtUn => "cgt.un"
  | .clt => "clt"
  | .cltUn => "clt.un"
  | .ldftn => "ldftn"
  | .ldarg => "ldarg"
  | .ldarga => "ldarga"
  | .starg => "starg"
  | .ldloc => "ldloc"
  | .ldloca => "ldloca"
  | .stloc => "stloc"
  | .initobj => "initobj"
  | .sizeof => "sizeof"
  | .methodStart => "MethodStart"
  | .methodEnd => "MethodEnd"

/-- Bytes of the encoding itself, operand aside. -/
def encodedLength (op : Opcode) : Nat :=
  if 0xFF < op.code then 2 else 1

/-- Pseudo operations are added by the compiler and never decoded. -/
def isPseudo : Opcode → Bool
  | .methodStart | .methodEnd => true
  | _ => false

/-- Operations whose operands are floating-point by construction. -/
def isFloat : Opcode → Bool
  | .ldcR4 | .ldcR8 | .convR4 | .convR8 | .convRUn | .ldindR4 | .ldindR8 | .stindR4 | .stindR8
  | .ldelemR4 | .ldelemR8 | .stelemR4 | .stelemR8 => true
  | _ => false

/-- Control never falls through to the next instruction. -/
def endsFlow : Opcode → Bool
  | .br | .brS | .leave | .leaveS | .ret | .throw | .methodEnd => true
  | _ => false

/-- Argument or local index that the operation itself implies. -/
def implicitIndex? : Opcode → Option Nat
  | .ldarg0 | .ldloc0 | .stloc0 => some 0
  | .ldarg1 | .ldloc1 | .stloc1 => some 1
  | .ldarg2 | .ldloc2 | .stloc2 => some 2
  | .ldarg3 | .ldloc3 | .stloc3 => some 3
  | _ => none

def implicitConstant? : Opcode → Option Int32
  | .ldcI4M1 => some (-1)
  | .ldcI40 => some 0
  | .ldcI41 => some 1
  | .ldcI42 => some 2
  | .ldcI43 => some 3
  | .ldcI44 => some 4
  | .ldcI45 => some 5
  | .ldcI46 => some 6
  | .ldcI47 => some 7
  | .ldcI48 => some 8
  | _ => none

end Opcode

/-- The encoded operand shape of an operation. -/
inductive OperandKind where
  | none
  /-- Unsigned index of one byte. -/
  | shortIndex
  /-- Unsigned index of two bytes. -/
  | index
  | int8 | int32 | int64 | float32 | float64
  /-- Branch offset of one byte. -/
  | shortBranch
  /-- Branch offset of four bytes. -/
  | branch
  /-- A count of four bytes, then that many offsets of four bytes. -/
  | switch
  /-- A metadata token, already resolved into a reference of the instruction. -/
  | token
  deriving DecidableEq

/-- Bytes of the operand; a switch has no fixed width. -/
def OperandKind.width? : OperandKind → Option Nat
  | .none => some 0
  | .shortIndex | .int8 | .shortBranch => some 1
  | .index => some 2
  | .int32 | .float32 | .branch | .token => some 4
  | .int64 | .float64 => some 8
  | .switch => Option.none

/-- The operand shape of each operation. -/
def Opcode.operandKind : Opcode → OperandKind
  | .ldargS | .ldargaS | .stargS | .ldlocS | .ldlocaS | .stlocS => .shortIndex
  | .ldarg | .ldarga | .starg | .ldloc | .ldloca | .stloc => .index
  | .ldcI4S => .int8
  | .ldcI4 => .int32
  | .ldcI8 => .int64
  | .ldcR4 => .float32
  | .ldcR8 => .float64
  | .brS | .brfalseS | .brtrueS | .beqS | .bgeS | .bgtS | .bleS | .bltS | .bneUnS | .bgeUnS
  | .bgtUnS | .bleUnS | .bltUnS | .leaveS => .shortBranch
  | .br | .brfalse | .brtrue | .beq | .bge | .bgt | .ble | .blt | .bneUn | .bgeUn | .bgtUn
  | .bleUn | .bltUn | .leave => .branch
  | .switch => .switch
  | .call | .calli | .callvirt | .ldstr | .newobj | .castclass | .isinst | .ldfld | .ldflda
  | .stfld | .ldsfld | .ldsflda | .stsfld | .newarr | .ldelema | .ldelem | .stelem | .ldtoken
  | .ldftn | .initobj | .sizeof => .token
  | _ => .none

end Stencil
