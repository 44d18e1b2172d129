import Stencil.Effect
import Stencil.Frame
import Stencil.Opcode.Operation

/-!
# Simulation of one instruction

`simulate` is the one definition of what every operation pops and pushes, whatever the target. It
also refuses every operand that no template could handle, before any code is emitted. Items popped
before an error stay popped.
-/

namespace Stencil

namespace OperandStack

def popFor (op : Opcode) (position : Nat) :
    OperandStack → Except CompileError (StackItem × OperandStack)
  | [] => .error (.stackShape op position .underflow)
  | item :: rest => .ok (item, rest)

/-- The topmost `n` items, the top first, and the stack below them. -/
def popMany (n : Nat) (op : Opcode) (position : Nat) (stack : OperandStack) :
    Except CompileError (List StackItem × OperandStack) :=
  if stack.length < n then
    .error (.stackShape op position (.tooFew n stack.length))
  else
    .ok (stack.take n, stack.drop n)

end OperandStack

/-- What a simulation reads. -/
structure SimEnv where
  tables : Table
  frame : Frame
  pointerSize : Nat

/-- The stack and the effect so far. -/
structure SimState where
  stack : OperandStack
  effect : Effect := {}

/-- Simulation steps keep the state when they fail. -/
abbrev Sim := EStateM CompileError SimState

namespace Sim

def lift {α : Type} : Except CompileError α → Sim α
  | .ok a => pure a
  | .error e => throw e

variable (env : SimEnv) (i : Instruction)

/-- Push `item`, which must not be a float. -/
def push (item : StackItem) : Sim Unit :=
  if item.isFloat then
    throw (i.unsupported .floatPush)
  else
    modify fun s =>
      { stack := item :: s.stack, effect := { s.effect with pushed := s.effect.pushed ++ [item] } }

/-- Pop an item, which must not be a float. -/
def pop : Sim StackItem := do
  let (item, rest) ← lift ((← get).stack.popFor i.op i.position)
  modify fun s => { s with stack := rest }
  if item.isFloat then
    throw (i.unsupported .floatOperand)
  modify fun s => { s with effect := { s.effect with popped := s.effect.popped ++ [item] } }
  return item

def popInt : Sim StackItem := do
  let item ← pop i
  if item.size ≠ 4 ∧ item.size ≠ 8 then
    throw (i.stackShape (.notInteger item.size))
  return item

/-- Pop two integers of the same width; their width is returned. -/
def popPair : Sim Nat := do
  let b ← popInt i
  let a ← popInt i
  if a.size ≠ b.size then
    throw (i.stackShape (.mismatch a.size b.size))
  return a.size

def popSized (size : Nat) : Sim Unit := do
  let item ← pop i
  if item.size ≠ size then
    throw (i.stackShape (.wrongSize item.size size))

def popObject : Sim Unit := popSized i env.pointerSize

def popAll : Sim Unit := do
  (← get).stack.forM fun _ => discard (pop i)

/-- The shape of a value whose type another descriptor mentions. -/
def typeItem (id : TypeId) : Sim StackItem :=
  lift ((env.tables.typeFor i id).map (TypeDescriptor.stackItem env.pointerSize))

/-- The shape of a value that an access of this kind moves. -/
def valueItem : ValueKind → Sim StackItem
  | .ref => pure (.reference env.pointerSize)
  | .i8 => pure .int64
  | .r4 => pure (.float 4)
  | .r8 => pure (.float 8)
  | .i => pure (.nativeInt env.pointerSize)
  | .typed => lift ((env.tables.resolveType i).map (TypeDescriptor.stackItem env.pointerSize))
  | _ => pure .int32

/-- Pop arguments of the given types, the last one first. -/
def popArguments (params : List TypeId) : Sim Unit :=
  params.reverse.forM fun id => do
    let item ← typeItem env i id
    popSized i item.size

def call (m : MethodDescriptor) (onReceiver : Bool) : Sim Unit := do
  popArguments env i m.params
  if onReceiver then
    popObject env i
  match m.returnType with
  | some id => push i (← typeItem env i id)
  | none => pure ()

def argument : Sim FrameSlot := do
  let index ← lift i.index
  match env.frame.args[index]? with
  | some slot => pure slot
  | none => throw (i.stackShape (.argumentRange index))

def localSlot : Sim FrameSlot := do
  let index ← lift i.index
  match env.frame.locals[index]? with
  | some slot => pure slot
  | none => throw (i.stackShape (.localRange index))

/-- The shape of the instance field that is accessed. -/
def instanceField : Sim StackItem := do
  let field ← lift (env.tables.resolveField i)
  if field.isStatic then
    throw (i.unsupported .instanceAccessToStatic)
  typeItem env i field.fieldType

def staticField : Sim StackItem := do
  let field ← lift (env.tables.resolveField i)
  if !field.isStatic then
    throw (i.unsupported .staticAccessToInstance)
  typeItem env i field.fieldType

/-- A token names a type, else a field, else a method. -/
def token : Sim Unit :=
  if i.typeRef.isSome then
    discard (lift (env.tables.resolveType i))
  else if i.fieldRef.isSome then
    discard (lift (env.tables.resolveField i))
  else
    discard (lift (env.tables.resolveMethod i))

/-- Pop what a constructor call needs and push the new object. The instance of a delegate is the
function pointer it was made from. -/
def newObject : Sim Unit := do
  let ctor ← lift (env.tables.resolveMethod i)
  let declaring ← lift (env.tables.typeFor i ctor.declaringType)
  if declaring.isValueType then
    throw (i.unsupported .valueConstruction)
  if declaring.isDelegate then
    popObject env i
    popObject env i
    push i (.nativeInt env.pointerSize)
  else
    popArguments env i ctor.params
    push i (.newObject env.pointerSize)

/-- What an operation does to the stack. -/
def operate : Operation → Sim Unit
  | .nop | .methodStart | .methodEnd => pure ()
  | .loadArg => do
    let slot ← argument env i
    push i slot.item.stored
  | .loadArgAddress => do
    discard (argument env i)
    push i (.nativeInt env.pointerSize)
  | .storeArg => do
    let slot ← argument env i
    popSized i slot.item.size
  | .loadLocal => do
    let slot ← localSlot env i
    push i slot.item.stored
  | .loadLocalAddress => do
    discard (localSlot env i)
    push i (.nativeInt env.pointerSize)
  | .storeLocal => do
    let slot ← localSlot env i
    popSized i slot.item.size
  | .loadConst =>
    if i.op = .ldcI8 then do
      discard (lift i.longConstant)
      push i .int64
    else do
      discard (lift i.constant)
      push i .int32
  | .loadNull => push i (.reference env.pointerSize)
  | .loadString => do
    discard (lift (env.tables.resolveString i))
    push i (.reference env.pointerSize)
  | .loadToken => do
    token env i
    push i (.nativeInt env.pointerSize)
  | .loadFunction => do
    discard (lift (env.tables.resolveMethod i))
    push i (.nativeInt env.pointerSize)
  | .sizeOf => do
    discard (lift (env.tables.resolveType i))
    push i .int32
  | .dup => do
    match (← get).stack with
    | [] => throw (i.stackShape .underflow)
    | top :: _ => push i top.stored
  | .pop => discard (pop i)
  | .branch condition =>
    match condition.operandCount with
    | 0 => pure ()
    | 1 => discard (popInt i)
    | _ => discard (popPair i)
  | .switch => popSized i 4
  | .leave => popAll i
  | .ret => do
    match env.frame.returnItem with
    | some item => popSized i item.size
    | none => pure ()
    let stack := (← get).stack
    if !stack.isEmpty then
      throw (i.stackShape (.leftAtReturn stack.height))
  | .binary op => do
    let size ← popPair i
    if size = 8 ∧ op.isDivision then
      throw (i.unsupported .wideDivision)
    push i (.value size)
  | .unary _ => do
    let item ← popInt i
    push i (.value item.size)
  | .shift _ => do
    discard (popInt i)
    let item ← popInt i
    push i (.value item.size)
  | .compare _ => do
    discard (popPair i)
    push i .int32
  | .convert none => throw (i.unsupported .floatConversion)
  | .convert (some target) => do
    discard (popInt i)
    push i (if target.valueSize env.pointerSize = 8 then .int64 else .int32)
  | .loadIndirect kind => do
    let item ← valueItem env i kind
    popObject env i
    push i item
  | .storeIndirect kind => do
    let item ← valueItem env i kind
    popSized i item.size
    popObject env i
  | .loadField => do
    let item ← instanceField env i
    popObject env i
    push i item
  | .loadFieldAddress => do
    discard (instanceField env i)
    popObject env i
    push i (.nativeInt env.pointerSize)
  | .storeField => do
    let item ← instanceField env i
    popSized i item.size
    popObject env i
  | .loadStatic => do
    let item ← staticField env i
    push i item
  | .loadStaticAddress => do
    discard (staticField env i)
    push i (.nativeInt env.pointerSize)
  | .storeStatic => do
    let item ← staticField env i
    popSized i item.size
  | .newArray => do
    discard (lift (env.tables.resolveType i))
    popSized i 4
    push i (.newObject env.pointerSize)
  | .loadLength => do
    popObject env i
    push i (.nativeInt env.pointerSize)
  | .loadElement kind => do
    let item ← valueItem env i kind
    popSized i 4
    popObject env i
    push i item
  | .loadElementAddress => do
    discard (lift (env.tables.resolveType i))
    popSized i 4
    popObject env i
    push i (.nativeInt env.pointerSize)
  | .storeElement kind => do
    let item ← valueItem env i kind
    popSized i item.size
    popSized i 4
    popObject env i
  | .call => do
    let m ← lift (env.tables.resolveMethod i)
    call env i m (!m.isStatic)
  | .callIndirect => do
    let m ← lift (env.tables.resolveMethod i)
    popObject env i
    call env i m (!m.isStatic)
  | .callVirtual => do
    let m ← lift (env.tables.resolveMethod i)
    if m.isStatic then
      throw (i.unsupported .virtualCallToStatic)
    call env i m true
  | .newObject => newObject env i
  | .isInstance | .castClass => do
    discard (lift (env.tables.resolveType i))
    popObject env i
    push i (.reference env.pointerSize)
  | .throw => popObject env i
  | .initObject => do
    discard (lift (env.tables.resolveType i))
    popObject env i

end Sim

/-- Apply `i` to the stack and report what it popped and pushed. -/
def simulate (env : SimEnv) (i : Instruction) : EStateM CompileError OperandStack Effect :=
  fun stack =>
    if i.op.isFloat then
      .error (i.unsupported .floatOpcode) stack
    else
      match Sim.operate env i i.op.operation { stack } with
      | .ok _ s => .ok s.effect s.stack
      | .error e s => .error e s.stack

/-- Apply instructions one after another, going on after errors: what each one answers and the stack
after it. -/
def simulateAll (env : SimEnv) :
    OperandStack → List Instruction → List (Except CompileError Effect × OperandStack)
  | _, [] => []
  | stack, i :: rest =>
    match simulate env i stack with
    | .ok effect stack => (.ok effect, stack) :: simulateAll env stack rest
    | .error e stack => (.error e, stack) :: simulateAll env stack rest

end Stencil
