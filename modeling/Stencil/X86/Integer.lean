import Stencil.X86.Instr

/-!
# Integer templates

The first operand is in `eax`, its high word in `edx`; the second in `ebx`, its high word in `ecx`.
Halves of double words are joined through the carry flag.
-/

namespace Stencil.X86

def isWide (item : StackItem) : Bool := item.size == 8

def popOperands (wide : Bool) : List Instr :=
  if wide then [.popReg .ebx, .popReg .ecx, .popReg .eax, .popReg .edx]
  else [.popReg .ebx, .popReg .eax]

/-- Push the first operand's registers, the high word first. -/
def pushResult (wide : Bool) : List Instr :=
  if wide then [.pushReg .edx, .pushReg .eax] else [.pushReg .eax]

/-! ## Arithmetic -/

def binaryWord : BinaryOp → List Instr
  | .add => [.aluReg .add .eax .ebx]
  | .sub => [.aluReg .sub .eax .ebx]
  | .and => [.aluReg .and .eax .ebx]
  | .or => [.aluReg .or .eax .ebx]
  | .xor => [.aluReg .xor .eax .ebx]
  | .mul => [.imulReg .eax .ebx]
  | .div => [.cdq, .idiv (.reg .ebx)]
  | .rem => [.cdq, .idiv (.reg .ebx), .movReg .eax .edx]
  | .divUn => [.aluReg .xor .edx .edx, .div (.reg .ebx)]
  | .remUn => [.aluReg .xor .edx .edx, .div (.reg .ebx), .movReg .eax .edx]

/-- The low double word of a product: the cross products reach the high word only. -/
def multiplyWide : List Instr :=
  [.movReg .esi .edx,
   .imulReg .esi .ebx,
   .movReg .edi .ecx,
   .imulReg .edi .eax,
   .aluReg .add .esi .edi,
   .mul (.reg .ebx),
   .aluReg .add .edx .esi]

/-- An operation on double words, where there is one. -/
def binaryWide? : BinaryOp → Option (List Instr)
  | .add => some [.aluReg .add .eax .ebx, .aluReg .adc .edx .ecx]
  | .sub => some [.aluReg .sub .eax .ebx, .aluReg .sbb .edx .ecx]
  | .and => some [.aluReg .and .eax .ebx, .aluReg .and .edx .ecx]
  | .or => some [.aluReg .or .eax .ebx, .aluReg .or .edx .ecx]
  | .xor => some [.aluReg .xor .eax .ebx, .aluReg .xor .edx .ecx]
  | .mul => some multiplyWide
  | .div | .divUn | .rem | .remUn => none

/-- The operands are popped before a division of double words is refused. -/
def binary (i : Instruction) (effect : Effect) (op : BinaryOp) : Template Instr :=
  if isWide (effect.operand 0) then
    match binaryWide? op with
    | some code => { code := popOperands true ++ code ++ pushResult true }
    | none => { code := popOperands true, failure := some (i.unsupported .wideDivision) }
  else
    { code := popOperands false ++ binaryWord op ++ pushResult false }

def unaryBody (wide : Bool) : UnaryOp → List Instr
  | .neg =>
    if wide then [.neg (.reg .eax), .aluImm .adc .edx 0, .neg (.reg .edx)] else [.neg (.reg .eax)]
  | .not => if wide then [.not (.reg .eax), .not (.reg .edx)] else [.not (.reg .eax)]

/-- Replace the operand by its negation or complement. -/
def unary (effect : Effect) (op : UnaryOp) : List Instr :=
  let wide := isWide (effect.operand 0)
  (if wide then [Instr.popReg .eax, .popReg .edx] else [Instr.popReg .eax]) ++
    unaryBody wide op ++ pushResult wide

/-! ## Shifts

The machine takes the count modulo 32. A double word is shifted by less than 32 with bits carried
across, by less than 64 by moving one word into the other, and by more it is cleared or filled with
its sign. A double-word count whose high word is not zero counts as more. -/

def shiftKind : ShiftOp → ShiftKind
  | .shl => .shl
  | .shr => .sar
  | .shrUn => .shr

def shiftWord (ctx : EmitContext) (i : Instruction) (op : ShiftOp) (wideCount : Bool) :
    List Instr :=
  if wideCount then
    let saturate := ctx.inside i "Saturate" 0
    let done := ctx.inside i "Done" 1
    [.testReg .esi,
     .jcc .ne saturate,
     .shiftCl (shiftKind op) .eax,
     .jump done,
     .label saturate,
     match op with
     | .shr => .shiftImm .sar .eax 31
     | .shl | .shrUn => .aluReg .xor .eax .eax,
     .label done]
  else
    [.shiftCl (shiftKind op) .eax]

/-- Shift by less than a word: bits cross from one word into the other. -/
def shiftAcross : ShiftOp → List Instr
  | .shl => [.shld (.reg .edx) .eax .cl, .shiftCl .shl .eax]
  | .shr => [.shrd (.reg .eax) .edx .cl, .shiftCl .sar .edx]
  | .shrUn => [.shrd (.reg .eax) .edx .cl, .shiftCl .shr .edx]

/-- Shift by a word or more: one word moves into the other. -/
def shiftOver : ShiftOp → List Instr
  | .shl => [.movReg .edx .eax, .shiftCl .shl .edx, .aluReg .xor .eax .eax]
  | .shr => [.movReg .eax .edx, .shiftCl .sar .eax, .shiftImm .sar .edx 31]
  | .shrUn => [.movReg .eax .edx, .shiftCl .shr .eax, .aluReg .xor .edx .edx]

def shiftOut : ShiftOp → List Instr
  | .shr => [.shiftImm .sar .edx 31, .movReg .eax .edx]
  | .shl | .shrUn => [.aluReg .xor .eax .eax, .aluReg .xor .edx .edx]

def shiftWide (ctx : EmitContext) (i : Instruction) (op : ShiftOp) (wideCount : Bool) :
    List Instr :=
  let saturate := ctx.inside i "Saturate" 0
  let big := ctx.inside i "Big" 1
  let done := ctx.inside i "Done" 2
  (if wideCount then [Instr.testReg .esi, .jcc .ne saturate] else []) ++
  [Instr.aluImm .cmp .ecx 64,
   .jcc .ae saturate,
   .aluImm .cmp .ecx 32,
   .jcc .ae big] ++
  shiftAcross op ++
  [Instr.jump done,
   .label big,
   .aluImm .sub .ecx 32] ++
  shiftOver op ++
  [Instr.jump done,
   .label saturate] ++
  shiftOut op ++
  [Instr.label done]

/-- The count is popped into `ecx`, its high word into `esi`, then the value. -/
def shift (ctx : EmitContext) (i : Instruction) (effect : Effect) (op : ShiftOp) : List Instr :=
  let wideCount := isWide (effect.operand 0)
  let wide := isWide (effect.operand 1)
  [Instr.popReg .ecx] ++
  (if wideCount then [Instr.popReg .esi] else []) ++
  [Instr.popReg .eax] ++
  (if wide then .popReg .edx :: shiftWide ctx i op wideCount else shiftWord ctx i op wideCount) ++
  pushResult wide

/-! ## Conversions -/

def narrow (signed : Bool) (size : Nat) : List Instr :=
  match Width.ofBytes? size with
  | some .dword | none => []
  | some width =>
    [if signed then .movsx .eax (.part .eax width) else .movzx .eax (.part .eax width)]

/-- Convert an operand of `size` bytes; one that has the target's width already is left alone. -/
def convertTo (pointerSize size : Nat) (target : ConvTarget) : List Instr :=
  match size, target.valueSize pointerSize with
  | 4, 4 | 8, 8 => []
  | 4, 8 =>
    if target.isSigned then [Instr.popReg .eax, .cdq, .pushReg .edx, .pushReg .eax]
    else [Instr.popReg .eax, .pushImm 0, .pushReg .eax]
  | size, value =>
    [Instr.popReg .eax] ++ (if size = 8 then Instr.drop 4 else []) ++
      narrow target.isSigned value ++ [Instr.pushReg .eax]

/-- Convert the operand; conversions to floats are refused. -/
def convert (ctx : EmitContext) (i : Instruction) (effect : Effect) :
    Option ConvTarget → Except CompileError (List Instr)
  | some target => .ok (convertTo ctx.options.pointerSize (effect.operand 0).size target)
  | none => .error (i.unsupported .floatConversion)

end Stencil.X86
