import Stencil.Simulation
import Std.Data.TreeSet

/-!
# Walking a body

The walk simulates the instructions in program order and follows the stack across control flow:

* a branch records its stack at the target;
* after an unconditional transfer the next instruction starts from a recorded stack, or empty;
* where two ways meet, their stacks have the same shape.
-/

namespace Stencil

/-- What a walk reads: the simulation's environment and the positions that branches may go to. -/
structure WalkEnv extends SimEnv where
  positions : Std.TreeSet Nat

def SimEnv.forWalk (env : SimEnv) (instructions : List Instruction) : WalkEnv :=
  { env with
    positions := Std.TreeSet.ofList
      ((instructions.filter (!·.op.isPseudo)).map Instruction.position) }

/-- What is known so far on a walk. -/
structure Walk where
  stack : OperandStack := []
  /-- Stacks of branches to positions not yet reached. -/
  pending : Std.TreeMap Nat OperandStack := ∅
  /-- Stacks on entry to positions already passed. -/
  entries : Std.TreeMap Nat OperandStack := ∅
  /-- Positions that some branch goes to. -/
  targets : Std.TreeSet Nat := ∅
  /-- Control does not fall through to the next instruction. -/
  unreachable : Bool := false

/-- What a walk finds at one instruction. -/
structure WalkStep where
  /-- Height of the stack before the instruction. -/
  entryHeight : Nat
  effect : Effect

/-- Steps of a walk keep its state when they fail. -/
abbrev WalkM := EStateM CompileError Walk

namespace Walk

/-- Choose the stack on entry to `i` and check it against the branches that arrive there. -/
def enter (i : Instruction) : WalkM Unit := do
  let w ← get
  if i.op.isPseudo then
    if w.unreachable then
      set { w with stack := [], unreachable := false }
  else
    let recorded := w.pending[i.position]?
    let pending := w.pending.erase i.position
    if w.unreachable then
      let stack := recorded.getD []
      set { w with
        stack, pending, unreachable := false, entries := w.entries.insert i.position stack }
    else
      match recorded with
      | some expected =>
        if !expected.sameShape w.stack then
          throw (i.stackShape (.fallThrough w.stack expected))
      | none => pure ()
      set { w with pending, entries := w.entries.insert i.position w.stack }

def simulateHere (env : SimEnv) (i : Instruction) : WalkM Effect := fun w =>
  match simulate env i w.stack with
  | .ok effect stack => .ok effect { w with stack }
  | .error e stack => .error e { w with stack }

/-- Note that `i` goes to `target` with the present stack. -/
def record (env : WalkEnv) (i : Instruction) (target : Int) : WalkM Unit := do
  let position := target.toNat
  if target < 0 ∨ !env.positions.contains position then
    throw (i.badTarget target)
  modify fun w => { w with targets := w.targets.insert position }
  let w ← get
  match w.entries[position]? <|> w.pending[position]? with
  | some expected =>
    if !expected.sameShape w.stack then
      throw (i.stackShape (.branchInto position w.stack expected))
  | none => set { w with pending := w.pending.insert position w.stack }

/-- Walk over one instruction. -/
def step (env : WalkEnv) (i : Instruction) : WalkM WalkStep := do
  enter i
  let entryHeight := (← get).stack.height
  let effect ← simulateHere env.toSimEnv i
  match i.targets with
  | .ok targets => targets.forM (record env i)
  | .error e => throw e
  if i.op.endsFlow then
    modify fun w => { w with unreachable := true }
  return { entryHeight, effect }

end Walk

/-- The steps of a walk over `instructions` and the positions that branches go to. -/
def walk (env : SimEnv) (instructions : List Instruction) :
    Except CompileError (List WalkStep × Std.TreeSet Nat) :=
  match instructions.mapM (Walk.step (env.forWalk instructions)) {} with
  | .ok steps w => .ok (steps, w.targets)
  | .error e _ => .error e

/-- Mark the instructions that some branch arrives at. The method end is one when the body
returns, the method start never is. -/
def markLabels (targets : Std.TreeSet Nat) (instructions : List Instruction) : List Instruction :=
  let returns := instructions.any (·.op = .ret)
  instructions.map fun i =>
    { i with
      labelRequired :=
        match i.op with
        | .methodStart => false
        | .methodEnd => returns
        | _ => targets.contains i.position }

/-- The first pass over a body: mark labels and find every effect, before any code is emitted. -/
def survey (env : SimEnv) (instructions : List Instruction) :
    Except CompileError (List Instruction × List Effect) := do
  let (steps, targets) ← walk env instructions
  return (markLabels targets instructions, steps.map WalkStep.effect)

end Stencil
