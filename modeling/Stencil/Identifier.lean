/-!
# Identifiers

Numbers that name descriptors, and the symbols that the linker knows them by.
-/

namespace Stencil

/-- A name visible to the linker. -/
abbrev Symbol := String

abbrev TypeId := Nat

abbrev FieldId := Nat

abbrev StringId := Nat

/-- A method's number; zero is never one, because it ends a method table. -/
structure MethodId where
  val : Nat
  pos : 0 < val
  deriving DecidableEq

def MethodId.ofNat? (n : Nat) : Option MethodId :=
  if h : 0 < n then some ⟨n, h⟩ else none

end Stencil
