import Stencil.Identifier
import Stencil.Text.Hex

/-!
# Labels

A label is named by the method it belongs to, the bytecode position it marks and, inside the
template of one instruction, an extension. Nothing else enters the name, so compiling a method
twice gives the same text.
-/

namespace Stencil

/-- A place in emitted code. -/
structure Label where
  scope : Symbol
  position : Nat
  extension : Option String := none
  deriving DecidableEq, Hashable

namespace Label

/-- The label `name` of number `index` inside the template at `position`. -/
def inside (scope : Symbol) (position : Nat) (name : String) (index : Nat) : Label :=
  { scope, position, extension := some (name ++ toString index) }

/-- The label stands inside a template. -/
def isSynthetic (label : Label) : Bool := label.extension.isSome

/-- The text of a label, such as `M1.main.IL_001C_True0`. -/
def render (label : Label) : String :=
  label.scope ++ "." ++ Text.position label.position ++
    match label.extension with
    | some extension => "_" ++ extension
    | none => ""

/-- Labels are ordered by scope, position and extension, a missing extension first. -/
instance : Ord Label where
  compare a b :=
    (compare a.scope b.scope).then <| (compare a.position b.position).then <|
      match a.extension, b.extension with
      | none, none => .eq
      | none, some _ => .lt
      | some _, none => .gt
      | some x, some y => compare x y

end Label

end Stencil
