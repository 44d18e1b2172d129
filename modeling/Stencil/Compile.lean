import Stencil.Target.Basic
import Stencil.Walk

/-!
# Compiling a method

The body is bracketed by the method start and the method end, surveyed for labels, and walked a
second time while each template is emitted. Any failure ends the compilation of the method.
-/

namespace Stencil

/-- The code emitted for one instruction. -/
structure Span where
  position : Nat
  op : Opcode
  /-- Height of the operand stack before the instruction. -/
  entryHeight : Nat
  effect : Effect
  /-- The first emitted instruction. -/
  start : Nat
  /-- The first instruction after the emitted ones. -/
  stop : Nat
  deriving DecidableEq

/-- The result of compiling one method. -/
structure CompiledMethod (I : Type) where
  method : MethodId
  symbol : Symbol
  arch : Arch
  code : List I
  /-- Symbols that the linker has to resolve, in order and without repetition. -/
  externals : List Symbol
  spans : List Span
  frame : Frame

namespace CompiledMethod

variable {I : Type}

/-- The listing: labels at the margin, everything else indented. -/
def render [TargetInstr I] (m : CompiledMethod I) : String :=
  let line (instr : I) : String :=
    (if (TargetInstr.asLabel? instr).isSome then "" else "    ") ++ TargetInstr.render instr ++ "\n"
  m.symbol ++ ":\n" ++ String.join (m.code.map line)

/-- The span of the instruction at `position`; the brackets have none. -/
def spanAt? (m : CompiledMethod I) (position : Nat) : Option Span :=
  m.spans.find? fun span => span.position == position && !span.op.isPseudo

def spanCode (m : CompiledMethod I) (span : Span) : List I :=
  (m.code.drop span.start).take (span.stop - span.start)

end CompiledMethod

namespace Compile

variable {I : Type}

def endPosition (instructions : List Instruction) : Nat :=
  match instructions.getLast? with
  | some i => i.nextPosition
  | none => 0

/-- The body between the method start and the method end. -/
def bracket (instructions : List Instruction) : List Instruction :=
  [.pseudo 0 .methodStart] ++ instructions ++ [.pseudo (endPosition instructions) .methodEnd]

/-- The code of one instruction: its label if it has one, then its template. -/
def emitOne [TargetInstr I] (backend : Backend I) (ctx : EmitContext) (i : Instruction)
    (effect : Effect) : Except CompileError (List I) :=
  let template := backend.emit ctx i effect
  match template.failure with
  | some e => .error e
  | none =>
    .ok ((if i.labelRequired then [TargetInstr.label (ctx.labelAt i.position)] else []) ++
      template.code)

/-- Walk on through the instructions and emit each one; the code so far has length `start`. -/
def select [TargetInstr I] (backend : Backend I) (ctx : EmitContext) (env : WalkEnv) :
    (w : Walk) → (start : Nat) → List Instruction → Except CompileError (List (Span × List I))
  | _, _, [] => .ok []
  | w, start, i :: rest =>
    match Walk.step env i w with
    | .error e _ => .error e
    | .ok step w => do
      let code ← emitOne backend ctx i step.effect
      let stop := start + code.length
      let span : Span :=
        { position := i.position, op := i.op, entryHeight := step.entryHeight,
          effect := step.effect, start, stop }
      let tail ← select backend ctx env w stop rest
      return (span, code) :: tail

/-- A list of symbols in order and without repetition. -/
def sortedSymbols (symbols : List Symbol) : List Symbol :=
  (Std.TreeSet.ofList symbols).toList

/-- The symbols that a list of instructions mentions. -/
def externals [TargetInstr I] (code : List I) : List Symbol :=
  sortedSymbols (code.flatMap TargetInstr.symbols)

end Compile

open Compile in
/-- Compile one body for a target. -/
def compileMethod {I : Type} [TargetInstr I] (backend : Backend I) (tables : Table)
    (options : Options) (body : MethodBody) : Except CompileError (CompiledMethod I) := do
  options.validate
  let method ← Table.require (.pseudo 0 .methodStart) .method (tables.method? body.method)
  let frame ← Frame.ofMethod tables options.pointerSize method
  let env : SimEnv := { tables, frame, pointerSize := options.pointerSize }
  let (instructions, _) ← survey env (bracket body.instructions)
  let ctx : EmitContext :=
    { tables, options, frame, method
      policy := options.policy.getD backend.defaultPolicy
      endPosition := endPosition body.instructions }
  let parts ← select backend ctx (env.forWalk instructions) {} 0 instructions
  let code := parts.flatMap Prod.snd
  return {
    method := method.id
    symbol := method.symbol
    arch := backend.arch
    code
    externals := externals code
    spans := parts.map Prod.fst
    frame }

/-- Compile several bodies; the first failure ends it. -/
def compileAll {I : Type} [TargetInstr I] (backend : Backend I) (tables : Table)
    (options : Options) (bodies : List MethodBody) :
    Except CompileError (List (CompiledMethod I)) :=
  bodies.mapM (compileMethod backend tables options)

end Stencil
