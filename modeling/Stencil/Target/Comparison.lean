import Stencil.Opcode.Operation

/-!
# Comparisons

The relation that a comparison or a branch decides between its two operands, and how a relation
between double words splits into relations between their halves.
-/

namespace Stencil

/-- A relation between two integers. -/
inductive Relation where
  | eq | ne | lt | le | gt | ge
  deriving DecidableEq

/-- A relation together with the order it is taken in. -/
structure Comparison where
  relation : Relation
  unsigned : Bool
  deriving DecidableEq

namespace Comparison

def ofBranch? : BranchCondition → Option Comparison
  | .eq => some ⟨.eq, false⟩
  | .neUn => some ⟨.ne, true⟩
  | .ge => some ⟨.ge, false⟩
  | .geUn => some ⟨.ge, true⟩
  | .gt => some ⟨.gt, false⟩
  | .gtUn => some ⟨.gt, true⟩
  | .le => some ⟨.le, false⟩
  | .leUn => some ⟨.le, true⟩
  | .lt => some ⟨.lt, false⟩
  | .ltUn => some ⟨.lt, true⟩
  | .always | .isTrue | .isFalse => none

def ofCompare : CompareOp → Comparison
  | .eq => ⟨.eq, false⟩
  | .gt => ⟨.gt, false⟩
  | .gtUn => ⟨.gt, true⟩
  | .lt => ⟨.lt, false⟩
  | .ltUn => ⟨.lt, true⟩

/-- The relation of the high words that decides at once; equality needs both words. -/
def highWord? (c : Comparison) : Option Comparison :=
  match c.relation with
  | .eq => none
  | .ne => some ⟨.ne, true⟩
  | .gt | .ge => some ⟨.gt, c.unsigned⟩
  | .lt | .le => some ⟨.lt, c.unsigned⟩

/-- The relation of the low words once the high words are equal. -/
def lowWord (c : Comparison) : Comparison := ⟨c.relation, true⟩

end Comparison

end Stencil
