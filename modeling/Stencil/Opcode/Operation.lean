import Stencil.Opcode.Basic

/-!
# Operations

What an opcode asks for, free of its encoding: the many encodings of one operation (short and long
branches, implicit and explicit indices) meet here. Stack simulation and code templates are both
functions of the operation.
-/

namespace Stencil

/-- Arithmetic and bitwise operations on two integers. -/
inductive BinaryOp where
  | add | sub | mul | div | divUn | rem | remUn | and | or | xor
  deriving DecidableEq

/-- Division and remainder exist for single words only. -/
def BinaryOp.isDivision : BinaryOp → Bool
  | .div | .divUn | .rem | .remUn => true
  | _ => false

/-- Operations on one integer. -/
inductive UnaryOp where
  | neg | not
  deriving DecidableEq

/-- Shifts; `shr` keeps the sign and `shrUn` fills with zeros. -/
inductive ShiftOp where
  | shl | shr | shrUn
  deriving DecidableEq

/-- Comparisons that push their answer. -/
inductive CompareOp where
  | eq | gt | gtUn | lt | ltUn
  deriving DecidableEq

/-- The condition under which a branch is taken. -/
inductive BranchCondition where
  | always | isTrue | isFalse | eq | neUn | ge | gt | le | lt | geUn | gtUn | leUn | ltUn
  deriving DecidableEq

namespace BranchCondition

def operandCount : BranchCondition → Nat
  | .always => 0
  | .isTrue | .isFalse => 1
  | _ => 2

def isUnsigned : BranchCondition → Bool
  | .neUn | .geUn | .gtUn | .leUn | .ltUn => true
  | _ => false

end BranchCondition

/-- The target of an integer conversion. -/
inductive ConvTarget where
  | i1 | i2 | i4 | i8 | u1 | u2 | u4 | u8 | i | u
  deriving DecidableEq

namespace ConvTarget

/-- Bytes of the converted value before it fills a stack slot again. -/
def valueSize (pointerSize : Nat) : ConvTarget → Nat
  | .i1 | .u1 => 1
  | .i2 | .u2 => 2
  | .i4 | .u4 => 4
  | .i8 | .u8 => 8
  | .i | .u => pointerSize

def isSigned : ConvTarget → Bool
  | .i1 | .i2 | .i4 | .i8 | .i => true
  | _ => false

end ConvTarget

/-- The kind of value an indirect or element access moves. -/
inductive ValueKind where
  | i1 | u1 | i2 | u2 | i4 | u4 | i8 | i | r4 | r8 | ref
  /-- The type reference of the instruction gives the shape. -/
  | typed
  deriving DecidableEq

namespace ValueKind

/-- Bytes in memory, unless a type reference decides. -/
def storageSize? (pointerSize : Nat) : ValueKind → Option Nat
  | .i1 | .u1 => some 1
  | .i2 | .u2 => some 2
  | .i4 | .u4 | .r4 => some 4
  | .i8 | .r8 => some 8
  | .i | .ref => some pointerSize
  | .typed => none

def isSigned : ValueKind → Bool
  | .i1 | .i2 | .i4 | .i8 | .i => true
  | _ => false

def isFloat : ValueKind → Bool
  | .r4 | .r8 => true
  | _ => false

end ValueKind

/-- What an instruction does, whatever its encoding. -/
inductive Operation where
  | nop
  | loadArg | loadArgAddress | storeArg
  | loadLocal | loadLocalAddress | storeLocal
  | loadConst | loadNull | loadString | loadToken | loadFunction | sizeOf
  | dup | pop
  | branch (condition : BranchCondition)
  | switch | leave | ret
  | binary (op : BinaryOp)
  | unary (op : UnaryOp)
  | shift (op : ShiftOp)
  | compare (op : CompareOp)
  /-- No target stands for a floating-point conversion. -/
  | convert (target : Option ConvTarget)
  | loadIndirect (kind : ValueKind) | storeIndirect (kind : ValueKind)
  | loadField | loadFieldAddress | storeField
  | loadStatic | loadStaticAddress | storeStatic
  | newArray | loadLength
  | loadElement (kind : ValueKind) | loadElementAddress | storeElement (kind : ValueKind)
  | call | callIndirect | callVirtual
  | newObject | isInstance | castClass | throw | initObject
  | methodStart | methodEnd
  deriving DecidableEq

def Operation.valueKind? : Operation → Option ValueKind
  | .loadIndirect kind | .storeIndirect kind | .loadElement kind | .storeElement kind => some kind
  | _ => none

/-- The operation that each opcode encodes. -/
def Opcode.operation : Opcode → Operation
  | .nop => .nop
  | .ldarg0 | .ldarg1 | .ldarg2 | .ldarg3 | .ldargS | .ldarg => .loadArg
  | .ldargaS | .ldarga => .loadArgAddress
  | .stargS | .starg => .storeArg
  | .ldloc0 | .ldloc1 | .ldloc2 | .ldloc3 | .ldlocS | .ldloc => .loadLocal
  | .ldlocaS | .ldloca => .loadLocalAddress
  | .stloc0 | .stloc1 | .stloc2 | .stloc3 | .stlocS | .stloc => .storeLocal
  | .ldcI4M1 | .ldcI40 | .ldcI41 | .ldcI42 | .ldcI43 | .ldcI44 | .ldcI45 | .ldcI46 | .ldcI47
  | .ldcI48 | .ldcI4S | .ldcI4 | .ldcI8 | .ldcR4 | .ldcR8 => .loadConst
  | .ldnull => .loadNull
  | .ldstr => .loadString
  | .ldtoken => .loadToken
  | .ldftn => .loadFunction
  | .sizeof => .sizeOf
  | .dup => .dup
  | .pop => .pop
  | .br | .brS => .branch .always
  | .brtrue | .brtrueS => .branch .isTrue
  | .brfalse | .brfalseS => .branch .isFalse
  | .beq | .beqS => .branch .eq
  | .bneUn | .bneUnS => .branch .neUn
  | .bge | .bgeS => .branch .ge
  | .bgt | .bgtS => .branch .gt
  | .ble | .bleS => .branch .le
  | .blt | .bltS => .branch .lt
  | .bgeUn | .bgeUnS => .branch .geUn
  | .bgtUn | .bgtUnS => .branch .gtUn
  | .bleUn | .bleUnS => .branch .leUn
  | .bltUn | .bltUnS => .branch .ltUn
  | .switch => .switch
  | .leave | .leaveS => .leave
  | .ret => .ret
  | .add => .binary .add
  | .sub => .binary .sub
  | .mul => .binary .mul
  | .div => .binary .div
  | .divUn => .binary .divUn
  | .rem => .binary .rem
  | .remUn => .binary .remUn
  | .and => .binary .and
  | .or => .binary .or
  | .xor => .binary .xor
  | .neg => .unary .neg
  | .not => .unary .not
  | .shl => .shift .shl
  | .shr => .shift .shr
  | .shrUn => .shift .shrUn
  | .ceq => .compare .eq
  | .cgt => .compare .gt
  | .cgtUn => .compare .gtUn
  | .clt => .compare .lt
  | .cltUn => .compare .ltUn
  | .convI1 => .convert (some .i1)
  | .convI2 => .convert (some .i2)
  | .convI4 => .convert (some .i4)
  | .convI8 => .convert (some .i8)
  | .convU1 => .convert (some .u1)
  | .convU2 => .convert (some .u2)
  | .convU4 => .convert (some .u4)
  | .convU8 => .convert (some .u8)
  | .convI => .convert (some .i)
  | .convU => .convert (some .u)
  | .convR4 | .convR8 | .convRUn => .convert none
  | .ldindI1 => .loadIndirect .i1
  | .ldindU1 => .loadIndirect .u1
  | .ldindI2 => .loadIndirect .i2
  | .ldindU2 => .loadIndirect .u2
  | .ldindI4 => .loadIndirect .i4
  | .ldindU4 => .loadIndirect .u4
  | .ldindI8 => .loadIndirect .i8
  | .ldindI => .loadIndirect .i
  | .ldindR4 => .loadIndirect .r4
  | .ldindR8 => .loadIndirect .r8
  | .ldindRef => .loadIndirect .ref
  | .stindRef => .storeIndirect .ref
  | .stindI1 => .storeIndirect .i1
  | .stindI2 => .storeIndirect .i2
  | .stindI4 => .storeIndirect .i4
  | .stindI8 => .storeIndirect .i8
  | .stindI => .storeIndirect .i
  | .stindR4 => .storeIndirect .r4
  | .stindR8 => .storeIndirect .r8
  | .ldfld => .loadField
  | .ldflda => .loadFieldAddress
  | .stfld => .storeField
  | .ldsfld => .loadStatic
  | .ldsflda => .loadStaticAddress
  | .stsfld => .storeStatic
  | .newarr => .newArray
  | .ldlen => .loadLength
  | .ldelemI1 => .loadElement .i1
  | .ldelemU1 => .loadElement .u1
  | .ldelemI2 => .loadElement .i2
  | .ldelemU2 => .loadElement .u2
  | .ldelemI4 => .loadElement .i4
  | .ldelemU4 => .loadElement .u4
  | .ldelemI8 => .loadElement .i8
  | .ldelemI => .loadElement .i
  | .ldelemR4 => .loadElement .r4
  | .ldelemR8 => .loadElement .r8
  | .ldelemRef => .loadElement .ref
  | .ldelem => .loadElement .typed
  | .ldelema => .loadElementAddress
  | .stelemI => .storeElement .i
  | .stelemI1 => .storeElement .i1
  | .stelemI2 => .storeElement .i2
  | .stelemI4 => .storeElement .i4
  | .stelemI8 => .storeElement .i8
  | .stelemR4 => .storeElement .r4
  | .stelemR8 => .storeElement .r8
  | .stelemRef => .storeElement .ref
  | .stelem => .storeElement .typed
  | .call => .call
  | .calli => .callIndirect
  | .callvirt => .callVirtual
  | .newobj => .newObject
  | .isinst => .isInstance
  | .castclass => .castClass
  | .throw => .throw
  | .initobj => .initObject
  | .methodStart => .methodStart
  | .methodEnd => .methodEnd

end Stencil
