import Stencil.Mips.Integer

/-!
# Comparisons and branches

Equality branches at once; an order is first set into `$t8`. Double words are decided by their high
words unless those are equal, and then by their low words as unsigned numbers.
-/

namespace Stencil.Mips

/-- Branch to `target` when the comparison of two registers holds. -/
def jumpIf (c : Comparison) (a b : Reg) (target : Label) : List Instr :=
  match c.relation with
  | .eq => Instr.beq a b target
  | .ne => Instr.bne a b target
  | .lt => .setLess c.unsigned .t8 a b :: Instr.bne .t8 .zero target
  | .ge => .setLess c.unsigned .t8 a b :: Instr.beq .t8 .zero target
  | .gt => .setLess c.unsigned .t8 b a :: Instr.bne .t8 .zero target
  | .le => .setLess c.unsigned .t8 b a :: Instr.beq .t8 .zero target

/-- Branch to `taken` when the comparison of `$t1:$t0` with `$t3:$t2` holds and to `notTaken` when
the high words rule it out; otherwise fall through. -/
def jumpIfWide (c : Comparison) (taken notTaken : Label) : List Instr :=
  (match c.highWord? with
    | some high => jumpIf high .t1 .t3 taken
    | none => []) ++
  Instr.bne .t1 .t3 notTaken ++
  jumpIf c.lowWord .t0 .t2 taken

/-- Push one when the comparison holds, and zero otherwise. -/
def compare (ctx : EmitContext) (i : Instruction) (effect : Effect) (op : CompareOp) :
    List Instr :=
  let c := Comparison.ofCompare op
  let wide := isWide (effect.operand 0)
  let isTrue := ctx.inside i "True" 0
  let isFalse := ctx.inside i "False" 1
  let done := ctx.inside i "End" 2
  popOperands wide ++
  (if wide then jumpIfWide c isTrue isFalse else jumpIf c .t0 .t2 isTrue) ++
  [Instr.label isFalse] ++
  Instr.push .zero ++
  Instr.jump done ++
  [Instr.label isTrue,
   .addiu .t8 .zero 1] ++
  Instr.push .t8 ++
  [Instr.label done]

/-- Branch when the popped value is zero, or when it is not. -/
def branchZero (wide onZero : Bool) (target : Label) : List Instr :=
  (if wide then Instr.pop .t0 ++ Instr.pop .t1 ++ [Instr.alu .or .t0 .t0 .t1] else Instr.pop .t0) ++
  (if onZero then Instr.beq .t0 .zero target else Instr.bne .t0 .zero target)

def branchTo (ctx : EmitContext) (i : Instruction) (wide : Bool) (condition : BranchCondition)
    (target : Label) : List Instr :=
  match Comparison.ofBranch? condition with
  | some c =>
    popOperands wide ++
    (if wide then
      let skip := ctx.inside i "Skip" 0
      jumpIfWide c target skip ++ [Instr.label skip]
    else jumpIf c .t0 .t2 target)
  | none =>
    if condition = .always then Instr.jump target
    else branchZero wide (condition = .isFalse) target

/-- Pop the operands of a branch and go to its target where the condition holds. -/
def branch (ctx : EmitContext) (i : Instruction) (effect : Effect) (condition : BranchCondition) :
    Except CompileError (List Instr) := do
  let target ← ctx.targetLabel i (← i.branchTarget)
  return branchTo ctx i (isWide (effect.operand 0)) condition target

/-- Compare the selector in `$t0` with each case number in turn, from `case` on. Cases before one
that goes nowhere are emitted. -/
def switchCases (ctx : EmitContext) (i : Instruction) (case : Nat) : List Int → Template Instr
  | [] => { code := [] }
  | target :: rest =>
    match ctx.targetLabel i target with
    | .error e => { code := [], failure := some e }
    | .ok label =>
      let tail := switchCases ctx i (case + 1) rest
      { tail with code := .li .t5 (Int32.ofNat case) :: Instr.beq .t0 .t5 label ++ tail.code }

/-- Pop an index and go to the target of that number; any other index falls through. -/
def switch (ctx : EmitContext) (i : Instruction) : Template Instr :=
  match i.switchTargets with
  | .error e => { code := [], failure := some e }
  | .ok targets =>
    let cases := switchCases ctx i 0 targets
    { cases with code := Instr.pop .t0 ++ cases.code }

def leave (ctx : EmitContext) (i : Instruction) (effect : Effect) :
    Except CompileError (List Instr) := do
  let target ← ctx.targetLabel i (← i.branchTarget)
  return Instr.drop effect.poppedBytes ++ Instr.jump target

end Stencil.Mips
