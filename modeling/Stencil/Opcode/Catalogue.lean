import Stencil.Opcode.Operation
import Stencil.Target.Comparison

/-!
# Names in the catalogue

What the catalogue of opcodes calls the cases of its types.
-/

namespace Stencil

/-- The name of an opcode: the parts of its mnemonic joined, each with a capital. -/
def Opcode.name (op : Opcode) : String :=
  String.join ((op.mnemonic.splitOn ".").map String.capitalize)

def Opcode.ofName? (name : String) : Option Opcode :=
  all.find? (·.name == name)

def OperandKind.name : OperandKind → String
  | .none => "None"
  | .shortIndex => "ShortIndex"
  | .index => "Index"
  | .int8 => "Int8"
  | .int32 => "Int32"
  | .int64 => "Int64"
  | .float32 => "Float32"
  | .float64 => "Float64"
  | .shortBranch => "ShortBranch"
  | .branch => "Branch"
  | .switch => "Switch"
  | .token => "Token"

def BinaryOp.name : BinaryOp → String
  | .add => "Add"
  | .sub => "Sub"
  | .mul => "Mul"
  | .div => "Div"
  | .divUn => "DivUn"
  | .rem => "Rem"
  | .remUn => "RemUn"
  | .and => "And"
  | .or => "Or"
  | .xor => "Xor"

def UnaryOp.name : UnaryOp → String
  | .neg => "Neg"
  | .not => "Not"

def ShiftOp.name : ShiftOp → String
  | .shl => "Shl"
  | .shr => "Shr"
  | .shrUn => "ShrUn"

def CompareOp.name : CompareOp → String
  | .eq => "Eq"
  | .gt => "Gt"
  | .gtUn => "GtUn"
  | .lt => "Lt"
  | .ltUn => "LtUn"

def BranchCondition.name : BranchCondition → String
  | .always => "Always"
  | .isTrue => "True"
  | .isFalse => "False"
  | .eq => "Eq"
  | .neUn => "NeUn"
  | .ge => "Ge"
  | .gt => "Gt"
  | .le => "Le"
  | .lt => "Lt"
  | .geUn => "GeUn"
  | .gtUn => "GtUn"
  | .leUn => "LeUn"
  | .ltUn => "LtUn"

def ConvTarget.name : ConvTarget → String
  | .i1 => "I1"
  | .i2 => "I2"
  | .i4 => "I4"
  | .i8 => "I8"
  | .u1 => "U1"
  | .u2 => "U2"
  | .u4 => "U4"
  | .u8 => "U8"
  | .i => "I"
  | .u => "U"

def ValueKind.name : ValueKind → String
  | .i1 => "I1"
  | .u1 => "U1"
  | .i2 => "I2"
  | .u2 => "U2"
  | .i4 => "I4"
  | .u4 => "U4"
  | .i8 => "I8"
  | .i => "I"
  | .r4 => "R4"
  | .r8 => "R8"
  | .ref => "Ref"
  | .typed => "Typed"

/-- The name of an operation; all its forms share one. -/
def Operation.name : Operation → String
  | .nop => "Nop"
  | .loadArg => "LoadArg"
  | .loadArgAddress => "LoadArgAddress"
  | .storeArg => "StoreArg"
  | .loadLocal => "LoadLocal"
  | .loadLocalAddress => "LoadLocalAddress"
  | .storeLocal => "StoreLocal"
  | .loadConst => "LoadConst"
  | .loadNull => "LoadNull"
  | .loadString => "LoadString"
  | .loadToken => "LoadToken"
  | .loadFunction => "LoadFunction"
  | .sizeOf => "SizeOf"
  | .dup => "Dup"
  | .pop => "Pop"
  | .branch _ => "Branch"
  | .switch => "Switch"
  | .leave => "Leave"
  | .ret => "Return"
  | .binary _ => "Binary"
  | .unary _ => "Unary"
  | .shift _ => "Shift"
  | .compare _ => "Compare"
  | .convert _ => "Convert"
  | .loadIndirect _ => "LoadIndirect"
  | .storeIndirect _ => "StoreIndirect"
  | .loadField => "LoadField"
  | .loadFieldAddress => "LoadFieldAddress"
  | .storeField => "StoreField"
  | .loadStatic => "LoadStaticField"
  | .loadStaticAddress => "LoadStaticFieldAddress"
  | .storeStatic => "StoreStaticField"
  | .newArray => "NewArray"
  | .loadLength => "LoadLength"
  | .loadElement _ => "LoadElement"
  | .loadElementAddress => "LoadElementAddress"
  | .storeElement _ => "StoreElement"
  | .call => "Call"
  | .callIndirect => "CallIndirect"
  | .callVirtual => "CallVirtual"
  | .newObject => "NewObject"
  | .isInstance => "IsInstance"
  | .castClass => "CastClass"
  | .throw => "Throw"
  | .initObject => "InitObject"
  | .methodStart => "MethodStart"
  | .methodEnd => "MethodEnd"

def Relation.name : Relation → String
  | .eq => "Eq"
  | .ne => "Ne"
  | .lt => "Lt"
  | .le => "Le"
  | .gt => "Gt"
  | .ge => "Ge"

end Stencil
