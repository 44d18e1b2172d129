import Stencil.Compile
import Stencil.Intrinsic
import Stencil.Machine.Memory
import Std.Data.HashMap

/-!
# Linked programs

Linking gives every instruction, intrinsic, type, static field and string an address and lays out
the data that templates read: type descriptors, method tables and strings. A program is what never
changes afterwards; memory and heap are the store that runs work on.
-/

namespace Stencil

open AddressMap

/-- Limits of the runs of a program. -/
structure RunConfig where
  /-- Bytes of heap. -/
  heapCapacity : UInt32 := 0x100000
  /-- Instructions that one run may execute. -/
  stepLimit : Nat := 1000000

/-- A method inside a linked program. -/
structure LinkedMethod where
  symbol : Symbol
  /-- Index of the first instruction. -/
  base : Nat
  spans : List Span
  localBytes : Nat

/-- What allocation knows about a type. -/
structure TypeInfo where
  instanceSize : UInt32
  elementSize : UInt32

/-- The fixed part of a linked program. -/
structure Program (I : Type) where
  code : Array I
  labels : Std.HashMap Label Nat
  symbols : Std.HashMap Symbol UInt32
  methods : List LinkedMethod
  /-- Descriptor addresses of the types. -/
  types : Std.HashMap TypeId UInt32
  /-- What allocation knows, by descriptor address. -/
  typeInfo : Std.HashMap UInt32 TypeInfo
  layout : ObjectLayout
  stepLimit : Nat

/-- What runs change: memory, the allocation pointer and the list of released objects. -/
structure Store where
  memory : Memory
  heapNext : UInt32
  heapEnd : UInt32
  /-- Objects that were released, in order. -/
  released : Array UInt32 := #[]

/-- A place of a span: where its first instruction was found. -/
structure SpanSite where
  method : Symbol
  span : Span
  localBytes : Nat

namespace Program

variable {I : Type} (p : Program I)

def indexOf (address : UInt32) : Except Fault Nat :=
  let offset := address - codeBase
  let index := (offset / 4).toNat
  if address < codeBase ∨ offset % 4 ≠ 0 ∨ p.code.size ≤ index then
    .error (.invalidInstruction address)
  else
    .ok index

def labelAddress (label : Label) : Except Fault UInt32 :=
  match p.labels[label]? with
  | some index => .ok (codeAddress index)
  | none => .error (.unboundLabel label)

def resolve (symbol : Symbol) : Except Fault UInt32 :=
  match p.symbols[symbol]? with
  | some address => .ok address
  | none => .error (.unknownSymbol symbol)

/-- The span whose first instruction has this index. -/
def locate? (index : Nat) : Option SpanSite := do
  let m ← p.methods.reverse.find? (·.base ≤ index)
  let span ← m.spans.find? fun span => span.start == index - m.base && span.start < span.stop
  return { method := m.symbol, span, localBytes := m.localBytes }

end Program

def Intrinsic.atAddress? (address : UInt32) : Option Intrinsic :=
  if address < intrinsicBase ∨ (address - intrinsicBase) % 4 ≠ 0 then none
  else all[((address - intrinsicBase) / 4).toNat]?

namespace Link

variable {I : Type}

/-! ## Code -/

/-- The methods with the index of their first instructions, from `base` on. -/
def placeMethods (base : Nat) : List (CompiledMethod I) → List (Nat × CompiledMethod I)
  | [] => []
  | m :: rest => (base, m) :: placeMethods (base + m.code.length) rest

/-- The labels of a list of instructions, from index `start` on. -/
def labelsFrom [TargetInstr I] (start : Nat) : List I → List (Label × Nat)
  | [] => []
  | instr :: rest =>
    match TargetInstr.asLabel? instr with
    | some label => (label, start) :: labelsFrom (start + 1) rest
    | none => labelsFrom (start + 1) rest

/-! ## Data -/

/-- The least multiple of `unit` from `size` on, modulo the word. -/
def roundUp (size unit : UInt32) : UInt32 :=
  if size % unit = 0 then size else size + (unit - size % unit)

/-- Take `size` bytes of linked data at `next`; the address and what follows. -/
def takeData (next size : UInt32) : Except Fault (UInt32 × UInt32) :=
  let stop := next + roundUp (max size 4) 8
  if heapBase < stop then .error (.memory next) else .ok (next, stop)

/-- A type with the addresses of its descriptor and its method table. -/
structure TypePlace where
  type : TypeDescriptor
  address : UInt32
  table : UInt32

def descriptorSize (layout : ObjectLayout) : UInt32 :=
  4 + UInt32.ofNat
    (max (max layout.typeSize layout.typeId) (max layout.typeMethodTable layout.typeBase))

/-- Place descriptors and method tables of all types. -/
def placeTypes (size next : UInt32) :
    List TypeDescriptor → Except Fault (List TypePlace × UInt32)
  | [] => .ok ([], next)
  | type :: rest => do
    let (address, next) ← takeData next size
    let (table, next) ← takeData next (8 * (UInt32.ofNat type.methodTable.length + 1))
    let (places, next) ← placeTypes size next rest
    return ({ type, address, table } :: places, next)

def placeStatics (tables : Table) (pointerSize : Nat) (next : UInt32) :
    List FieldDescriptor → Except Fault (List (Symbol × UInt32) × UInt32)
  | [] => .ok ([], next)
  | field :: rest => do
    let size :=
      match tables.type? field.fieldType with
      | some t => t.storageSize pointerSize
      | none => pointerSize
    let (address, next) ← takeData next (UInt32.ofNat size)
    let (places, next) ← placeStatics tables pointerSize next rest
    return ((field.symbol, address) :: places, next)

/-- Place the string literals: a word, then the number of characters. -/
def placeStrings (next : UInt32) :
    List StringLiteral → Except Fault (List (StringLiteral × UInt32) × UInt32)
  | [] => .ok ([], next)
  | literal :: rest => do
    let (address, next) ← takeData next 8
    let (places, next) ← placeStrings next rest
    return ((literal, address) :: places, next)

/-- The pairs of a method table: slots and implementations, then zero and the base's table. -/
def tableEntries (tables : Table) (symbols : Std.HashMap Symbol UInt32) (parent : UInt32) :
    List (MethodId × MethodId) → List (UInt32 × UInt32)
  | [] => [(0, parent)]
  | (slot, implementation) :: rest =>
    let target := ((tables.method? implementation).bind (symbols[·.symbol]?)).getD 0
    (UInt32.ofNat slot.val, target) :: tableEntries tables symbols parent rest

def pairWords (address : UInt32) : List (UInt32 × UInt32) → List (UInt32 × UInt32)
  | [] => []
  | (first, second) :: rest =>
    (address, first) :: (address + 4, second) :: pairWords (address + 8) rest

/-- The words of a type's descriptor and method table. -/
def typeWords (tables : Table) (layout : ObjectLayout) (symbols : Std.HashMap Symbol UInt32)
    (places : Std.HashMap TypeId TypePlace) (place : TypePlace) : List (UInt32 × UInt32) :=
  let base := place.type.baseType.bind (places[·]?)
  let word (offset : Nat) (value : UInt32) := (place.address + UInt32.ofNat offset, value)
  [word layout.typeSize (UInt32.ofNat place.type.heapSize),
   word layout.typeId (UInt32.ofNat place.type.id),
   word layout.typeMethodTable place.table,
   word layout.typeBase ((base.map TypePlace.address).getD 0)] ++
  pairWords place.table
    (tableEntries tables symbols ((base.map TypePlace.table).getD 0) place.type.methodTable)

def writeWords (m : Memory) (words : List (UInt32 × UInt32)) : Except Fault Memory :=
  words.foldlM (fun m (address, value) => m.write address 4 value) m

/-- Bind symbols in order; a later binding replaces an earlier one. -/
def bindAll (symbols : Std.HashMap Symbol UInt32) (bindings : List (Symbol × UInt32)) :
    Std.HashMap Symbol UInt32 :=
  bindings.foldl (fun symbols (symbol, address) => symbols.insert symbol address) symbols

def intrinsicSymbols : List (Symbol × UInt32) :=
  Intrinsic.all.mapIdx fun k intrinsic =>
    (intrinsic.symbol, intrinsicBase + 4 * UInt32.ofNat k)

end Link

open Link in
/-- Link compiled methods with the data that the descriptors ask for. -/
def link {I : Type} [TargetInstr I] (methods : List (CompiledMethod I)) (tables : Table)
    (options : Options) (config : RunConfig) : Except Fault (Program I × Store) := do
  let layout := options.layout
  let placed := placeMethods 0 methods
  let code := methods.flatMap CompiledMethod.code
  let symbols := bindAll ∅ intrinsicSymbols
  let symbols := bindAll symbols (placed.map fun (base, m) => (m.symbol, codeAddress base))
  let (types, next) ← placeTypes (descriptorSize layout) dataBase tables.types
  let symbols := bindAll symbols (types.map fun place => (place.type.symbol, place.address))
  let places := Std.HashMap.ofList (types.map fun place => (place.type.id, place))
  let memory ← writeWords Memory.empty (types.flatMap (typeWords tables layout symbols places))
  let (statics, next) ←
    placeStatics tables options.pointerSize next (tables.fields.filter FieldDescriptor.isStatic)
  let (strings, _) ← placeStrings next tables.strings
  let memory ← writeWords memory
    (strings.map fun (literal, address) => (address + 4, UInt32.ofNat literal.value.length))
  let symbols := bindAll symbols statics
  let symbols := bindAll symbols (strings.map fun (literal, address) => (literal.symbol, address))
  let program : Program I :=
    { code := code.toArray
      labels := Std.HashMap.ofList (labelsFrom 0 code)
      symbols
      methods := placed.map fun (base, m) =>
        { symbol := m.symbol, base, spans := m.spans, localBytes := m.frame.localBytes }
      types := Std.HashMap.ofList (types.map fun place => (place.type.id, place.address))
      typeInfo := Std.HashMap.ofList (types.map fun place =>
        (place.address,
          { instanceSize := UInt32.ofNat place.type.heapSize
            elementSize := UInt32.ofNat (place.type.storageSize options.pointerSize) }))
      layout
      stepLimit := config.stepLimit }
  return (program,
    { memory, heapNext := heapBase, heapEnd := heapBase + min config.heapCapacity heapLimit })

end Stencil
