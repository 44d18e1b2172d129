import Stencil.Descriptor
import Stencil.Instruction
import Std.Data.TreeMap

/-!
# Descriptor tables

All descriptors that one compilation sees, by number. A descriptor added under a number that is
already taken replaces the earlier one. Listings are in the order of the numbers.
-/

namespace Stencil

/-- The descriptors of one compilation. -/
structure Table where
  typeMap : Std.TreeMap TypeId TypeDescriptor := ∅
  fieldMap : Std.TreeMap FieldId FieldDescriptor := ∅
  methodMap : Std.TreeMap Nat MethodDescriptor := ∅
  stringMap : Std.TreeMap StringId StringLiteral := ∅

namespace Table

/-! ## Building -/

def addType (t : Table) (d : TypeDescriptor) : Table :=
  { t with typeMap := t.typeMap.insert d.id d }

def addField (t : Table) (d : FieldDescriptor) : Table :=
  { t with fieldMap := t.fieldMap.insert d.id d }

def addMethod (t : Table) (d : MethodDescriptor) : Table :=
  { t with methodMap := t.methodMap.insert d.id.val d }

def addString (t : Table) (d : StringLiteral) : Table :=
  { t with stringMap := t.stringMap.insert d.id d }

/-! ## Look-up -/

def type? (t : Table) (id : TypeId) : Option TypeDescriptor := t.typeMap[id]?

def field? (t : Table) (id : FieldId) : Option FieldDescriptor := t.fieldMap[id]?

def method? (t : Table) (id : MethodId) : Option MethodDescriptor := t.methodMap[id.val]?

def string? (t : Table) (id : StringId) : Option StringLiteral := t.stringMap[id]?

def types (t : Table) : List TypeDescriptor := t.typeMap.values

def fields (t : Table) : List FieldDescriptor := t.fieldMap.values

def methods (t : Table) : List MethodDescriptor := t.methodMap.values

/-- The string literals in the order of their numbers. -/
def strings (t : Table) : List StringLiteral := t.stringMap.values

/-! ## Resolution on behalf of an instruction -/

/-- The descriptor, or the error that `i` lacks one of this kind. -/
def require {α : Type} (i : Instruction) (kind : DescriptorKind) :
    Option α → Except CompileError α
  | some a => .ok a
  | none => .error (i.unresolved kind)

def resolveType (t : Table) (i : Instruction) : Except CompileError TypeDescriptor :=
  require i .type (i.typeRef.bind t.type?)

def resolveField (t : Table) (i : Instruction) : Except CompileError FieldDescriptor :=
  require i .field (i.fieldRef.bind t.field?)

def resolveMethod (t : Table) (i : Instruction) : Except CompileError MethodDescriptor :=
  require i .method (i.methodRef.bind t.method?)

def resolveString (t : Table) (i : Instruction) : Except CompileError StringLiteral :=
  require i .string (i.stringRef.bind t.string?)

/-- The type of number `id`, which another descriptor mentions. -/
def typeFor (t : Table) (i : Instruction) (id : TypeId) : Except CompileError TypeDescriptor :=
  require i .type (t.type? id)

/-! ## Subtyping -/

/-- `target` is met within `steps` base links from `id`. -/
def isSubtypeWithin (t : Table) (target : TypeId) : (steps : Nat) → TypeId → Bool
  | 0, id => id == target
  | steps + 1, id =>
    id == target ||
      match (t.type? id).bind TypeDescriptor.baseType with
      | some base => isSubtypeWithin t target steps base
      | none => false

/-- `id` is `target` or derives from it. A chain without repetition has at most as many links as
the table has types, so no longer one is followed. -/
def isSubtype (t : Table) (id target : TypeId) : Bool :=
  isSubtypeWithin t target t.typeMap.size id

end Table

end Stencil
