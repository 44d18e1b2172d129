import Stencil.Mips.Instr

/-!
# Integer templates

The first operand is in `$t0`, its high word in `$t1`; the second in `$t2`, its high word in `$t3`.
There is no carry flag: the carry or borrow of the low words is recovered by an unsigned comparison
and folded into the high word.
-/

namespace Stencil.Mips

def isWide (item : StackItem) : Bool := item.size == 8

/-- Pop the second operand, then the first. -/
def popOperands (wide : Bool) : List Instr :=
  if wide then Instr.pop .t2 ++ Instr.pop .t3 ++ Instr.pop .t0 ++ Instr.pop .t1
  else Instr.pop .t2 ++ Instr.pop .t0

/-- Push the first operand's registers, the high word first. -/
def pushResult (wide : Bool) : List Instr :=
  if wide then Instr.push .t1 ++ Instr.push .t0 else Instr.push .t0

/-! ## Arithmetic -/

def binaryWord : BinaryOp → List Instr
  | .add => [.alu .addu .t0 .t0 .t2]
  | .sub => [.alu .subu .t0 .t0 .t2]
  | .and => [.alu .and .t0 .t0 .t2]
  | .or => [.alu .or .t0 .t0 .t2]
  | .xor => [.alu .xor .t0 .t0 .t2]
  | .mul => [.mult .t0 .t2 false, .mflo .t0]
  | .div => [.div .t0 .t2 false, .mflo .t0]
  | .divUn => [.div .t0 .t2 true, .mflo .t0]
  | .rem => [.div .t0 .t2 false, .mfhi .t0]
  | .remUn => [.div .t0 .t2 true, .mfhi .t0]

/-- The low double word of a product, from three products of words. -/
def multiplyWide : List Instr :=
  [.mult .t0 .t2 true,
   .mflo .t4,
   .mfhi .t5,
   .mult .t1 .t2 true,
   .mflo .t6,
   .alu .addu .t5 .t5 .t6,
   .mult .t0 .t3 true,
   .mflo .t6,
   .alu .addu .t5 .t5 .t6,
   .move .t0 .t4,
   .move .t1 .t5]

/-- An operation on double words, where there is one. -/
def binaryWide? : BinaryOp → Option (List Instr)
  | .add =>
    some [.alu .addu .t0 .t0 .t2, .setLess true .t4 .t0 .t2, .alu .addu .t1 .t1 .t3,
      .alu .addu .t1 .t1 .t4]
  | .sub =>
    some [.setLess true .t4 .t0 .t2, .alu .subu .t0 .t0 .t2, .alu .subu .t1 .t1 .t3,
      .alu .subu .t1 .t1 .t4]
  | .and => some [.alu .and .t0 .t0 .t2, .alu .and .t1 .t1 .t3]
  | .or => some [.alu .or .t0 .t0 .t2, .alu .or .t1 .t1 .t3]
  | .xor => some [.alu .xor .t0 .t0 .t2, .alu .xor .t1 .t1 .t3]
  | .mul => some multiplyWide
  | .div | .divUn | .rem | .remUn => none

/-- A division of double words is refused before anything is popped. -/
def binary (i : Instruction) (effect : Effect) (op : BinaryOp) :
    Except CompileError (List Instr) :=
  if isWide (effect.operand 0) then
    match binaryWide? op with
    | some code => .ok (popOperands true ++ code ++ pushResult true)
    | none => .error (i.unsupported .wideDivision)
  else
    .ok (popOperands false ++ binaryWord op ++ pushResult false)

/-- An operation on one integer; negating borrows from the high word unless the low one is zero. -/
def unaryBody (wide : Bool) : UnaryOp → List Instr
  | .neg =>
    if wide then
      [.setLess true .t4 .zero .t0, .alu .subu .t0 .zero .t0, .alu .subu .t1 .zero .t1,
       .alu .subu .t1 .t1 .t4]
    else [.alu .subu .t0 .zero .t0]
  | .not =>
    if wide then [.alu .nor .t0 .t0 .zero, .alu .nor .t1 .t1 .zero]
    else [.alu .nor .t0 .t0 .zero]

/-- Replace the operand by its negation or complement. -/
def unary (effect : Effect) (op : UnaryOp) : List Instr :=
  let wide := isWide (effect.operand 0)
  (if wide then Instr.pop .t0 ++ Instr.pop .t1 else Instr.pop .t0) ++
    unaryBody wide op ++ pushResult wide

/-! ## Shifts

The machine takes the count modulo 32. A double word shifted by zero is left alone, since the bits
that cross would be shifted by 32; by less than 32 both words are combined, by less than 64 one
word moves into the other, and by more it is cleared or filled with its sign. -/

def shiftVar : Stencil.ShiftOp → AluOp
  | .shl => .sllv
  | .shr => .srav
  | .shrUn => .srlv

def shiftWord (ctx : EmitContext) (i : Instruction) (op : Stencil.ShiftOp) (wideCount : Bool) :
    List Instr :=
  if wideCount then
    let saturate := ctx.inside i "Saturate" 0
    let done := ctx.inside i "Done" 1
    Instr.bne .t3 .zero saturate ++
    [Instr.alu (shiftVar op) .t0 .t0 .t2] ++
    Instr.jump done ++
    [Instr.label saturate,
     match op with
     | .shr => .shift .sra .t0 .t0 31
     | .shl | .shrUn => .move .t0 .zero,
     .label done]
  else
    [Instr.alu (shiftVar op) .t0 .t0 .t2]

/-- Shift by less than a word, where `$t4` is the rest of the word. -/
def shiftAcross : Stencil.ShiftOp → List Instr
  | .shl =>
    [.alu .srlv .t5 .t0 .t4, .alu .sllv .t1 .t1 .t2, .alu .or .t1 .t1 .t5, .alu .sllv .t0 .t0 .t2]
  | .shr =>
    [.alu .sllv .t5 .t1 .t4, .alu .srlv .t0 .t0 .t2, .alu .or .t0 .t0 .t5, .alu .srav .t1 .t1 .t2]
  | .shrUn =>
    [.alu .sllv .t5 .t1 .t4, .alu .srlv .t0 .t0 .t2, .alu .or .t0 .t0 .t5, .alu .srlv .t1 .t1 .t2]

/-- Shift by a word or more: one word moves into the other. -/
def shiftOver : Stencil.ShiftOp → List Instr
  | .shl => [.alu .sllv .t1 .t0 .t2, .move .t0 .zero]
  | .shr => [.alu .srav .t0 .t1 .t2, .shift .sra .t1 .t1 31]
  | .shrUn => [.alu .srlv .t0 .t1 .t2, .move .t1 .zero]

def shiftOut : Stencil.ShiftOp → List Instr
  | .shr => [.shift .sra .t1 .t1 31, .move .t0 .t1]
  | .shl | .shrUn => [.move .t0 .zero, .move .t1 .zero]

def shiftWide (ctx : EmitContext) (i : Instruction) (op : Stencil.ShiftOp) (wideCount : Bool) :
    List Instr :=
  let saturate := ctx.inside i "Saturate" 0
  let big := ctx.inside i "Big" 1
  let done := ctx.inside i "Done" 2
  (if wideCount then Instr.bne .t3 .zero saturate else []) ++
  [Instr.aluImm .sltiu .t8 .t2 64] ++
  Instr.beq .t8 .zero saturate ++
  Instr.beq .t2 .zero done ++
  [Instr.aluImm .sltiu .t8 .t2 32] ++
  Instr.beq .t8 .zero big ++
  [Instr.addiu .t4 .zero 32,
   .alu .subu .t4 .t4 .t2] ++
  shiftAcross op ++
  Instr.jump done ++
  [Instr.label big,
   .addiu .t2 .t2 (-32)] ++
  shiftOver op ++
  Instr.jump done ++
  [Instr.label saturate] ++
  shiftOut op ++
  [Instr.label done]

/-- The count is popped into `$t2`, its high word into `$t3`, then the value. -/
def shift (ctx : EmitContext) (i : Instruction) (effect : Effect) (op : Stencil.ShiftOp) :
    List Instr :=
  let wideCount := isWide (effect.operand 0)
  let wide := isWide (effect.operand 1)
  Instr.pop .t2 ++
  (if wideCount then Instr.pop .t3 else []) ++
  Instr.pop .t0 ++
  (if wide then Instr.pop .t1 ++ shiftWide ctx i op wideCount else shiftWord ctx i op wideCount) ++
  pushResult wide

/-! ## Conversions -/

/-- Extend the low `size` bytes of `$t0` to the word. -/
def narrow (signed : Bool) (size : Nat) : List Instr :=
  if size < 4 then
    if signed then
      let rest := UInt8.ofNat (32 - 8 * size)
      [.shift .sll .t0 .t0 rest, .shift .sra .t0 .t0 rest]
    else
      [.aluImm .andi .t0 .t0 (Int32.ofNat (Word.modulus (8 * size) - 1))]
  else
    []

/-- Convert an operand of `size` bytes; one that has the target's width already is left alone. -/
def convertTo (pointerSize size : Nat) (target : ConvTarget) : List Instr :=
  match size, target.valueSize pointerSize with
  | 4, 4 | 8, 8 => []
  | 4, 8 =>
    Instr.pop .t0 ++
    (if target.isSigned then .shift .sra .t1 .t0 31 :: Instr.push .t1 else Instr.push .zero) ++
    Instr.push .t0
  | size, value =>
    Instr.pop .t0 ++ (if size = 8 then Instr.drop 4 else []) ++
      narrow target.isSigned value ++ Instr.push .t0

/-- Convert the operand; conversions to floats are refused. -/
def convert (ctx : EmitContext) (i : Instruction) (effect : Effect) :
    Option ConvTarget → Except CompileError (List Instr)
  | some target => .ok (convertTo ctx.options.pointerSize (effect.operand 0).size target)
  | none => .error (i.unsupported .floatConversion)

end Stencil.Mips
