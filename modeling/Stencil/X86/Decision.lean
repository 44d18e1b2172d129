import Stencil.X86.Integer

/-!
# Comparisons and branches

Words are compared through the flags. Double words are decided by their high words unless those are
equal, and then by their low words as unsigned numbers.
-/

namespace Stencil.X86

/-- Jump to `target` when the comparison of two registers holds. -/
def jumpIf (c : Comparison) (a b : Reg) (target : Label) : List Instr :=
  [.aluReg .cmp a b, .jcc (.ofComparison c) target]

/-- Jump to `taken` when the comparison of `edx:eax` with `ecx:ebx` holds and to `notTaken` when
the high words rule it out; otherwise fall through. -/
def jumpIfWide (c : Comparison) (taken notTaken : Label) : List Instr :=
  [Instr.aluReg .cmp .edx .ecx] ++
  (match c.highWord? with
    | some high => [Instr.jcc (.ofComparison high) taken]
    | none => []) ++
  [Instr.jcc .ne notTaken] ++
  jumpIf c.lowWord .eax .ebx taken

/-- Push one when the comparison holds, and zero otherwise. -/
def compare (ctx : EmitContext) (i : Instruction) (effect : Effect) (op : CompareOp) :
    List Instr :=
  let c := Comparison.ofCompare op
  let wide := isWide (effect.operand 0)
  let isTrue := ctx.inside i "True" 0
  let isFalse := ctx.inside i "False" 1
  let done := ctx.inside i "End" 2
  popOperands wide ++
  (if wide then jumpIfWide c isTrue isFalse else jumpIf c .eax .ebx isTrue) ++
  [Instr.label isFalse,
   .pushImm 0,
   .jump done,
   .label isTrue,
   .pushImm 1,
   .label done]

/-- Jump when the popped value is zero, or when it is not. -/
def branchZero (wide onZero : Bool) (target : Label) : List Instr :=
  (if wide then [Instr.popReg .eax, .popReg .edx, .aluReg .or .eax .edx]
    else [Instr.popReg .eax, .testReg .eax]) ++
  [Instr.jcc (if onZero then .e else .ne) target]

def branchTo (ctx : EmitContext) (i : Instruction) (wide : Bool) (condition : BranchCondition)
    (target : Label) : List Instr :=
  match Comparison.ofBranch? condition with
  | some c =>
    popOperands wide ++
    (if wide then
      let skip := ctx.inside i "Skip" 0
      jumpIfWide c target skip ++ [Instr.label skip]
    else jumpIf c .eax .ebx target)
  | none =>
    if condition = .always then [.jump target]
    else branchZero wide (condition = .isFalse) target

/-- Pop the operands of a branch and go to its target where the condition holds. -/
def branch (ctx : EmitContext) (i : Instruction) (effect : Effect) (condition : BranchCondition) :
    Except CompileError (List Instr) := do
  let target ← ctx.targetLabel i (← i.branchTarget)
  return branchTo ctx i (isWide (effect.operand 0)) condition target

/-- Compare the selector in `eax` with each case number in turn, from `case` on. Cases before one
that goes nowhere are emitted. -/
def switchCases (ctx : EmitContext) (i : Instruction) (case : Nat) : List Int → Template Instr
  | [] => { code := [] }
  | target :: rest =>
    match ctx.targetLabel i target with
    | .error e => { code := [], failure := some e }
    | .ok label =>
      let tail := switchCases ctx i (case + 1) rest
      { tail with
        code := .aluImm .cmp .eax (Int32.ofNat case) :: .jcc .e label :: tail.code }

/-- Pop an index and go to the target of that number; any other index falls through. -/
def switch (ctx : EmitContext) (i : Instruction) : Template Instr :=
  match i.switchTargets with
  | .error e => { code := [], failure := some e }
  | .ok targets =>
    let cases := switchCases ctx i 0 targets
    { cases with code := .popReg .eax :: cases.code }

def leave (ctx : EmitContext) (i : Instruction) (effect : Effect) :
    Except CompileError (List Instr) := do
  let target ← ctx.targetLabel i (← i.branchTarget)
  return Instr.drop effect.poppedBytes ++ [Instr.jump target]

end Stencil.X86
