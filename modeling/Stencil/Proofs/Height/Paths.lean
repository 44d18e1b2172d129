import Stencil.Proofs.Mips.Labels
import Stencil.Proofs.Mips.Path
import Stencil.Proofs.Mips.Templates
import Stencil.Proofs.X86.Labels
import Stencil.Proofs.X86.Path
import Stencil.Proofs.X86.Templates

/-!
# Paths through templates on both targets

A template that is emitted for what the simulation accepts is tracked, and so all paths through it add the same
to the stack pointer.
-/

namespace Stencil

open AddressMap Link

theorem Effect.rise_eq_neg_delta (e : Effect) : e.rise = -UInt32.ofInt e.delta := by
  have hdelta : UInt32.ofInt e.delta = UInt32.ofNat e.pushedBytes - UInt32.ofNat e.poppedBytes := by
    have hnat : ∀ n : Nat, UInt32.ofInt n = UInt32.ofNat n := UInt32.intCast_ofNat
    rw [Effect.delta, Int.sub_eq_add_neg, UInt32.ofInt_add, UInt32.ofInt_neg, hnat, hnat,
      UInt32.sub_eq_add_neg]
  rw [hdelta, UInt32.neg_sub]
  rfl

section Paths

variable {ctx : EmitContext} {env : SimEnv} {i : Instruction} {stack stack' : OperandStack}
  {e : Effect}

theorem X86.emit_pathsAdd (hmatches : Matches ctx env i stack)
    (hsimulate : simulate env i stack = .ok e stack') (hpseudo : i.op.isPseudo = false)
    (hthrow : i.op ≠ .throw) (hfailure : (X86.emit ctx i e).failure = none) :
    X86.PathsAdd (X86.emit ctx i e).code (-UInt32.ofInt e.delta) := by
  have hexchange := simulate_exchange hsimulate
  have hconserves := X86.emit_conserves hmatches hexchange.sizes hpseudo hthrow hfailure
  obtain ⟨heights, hbalanced⟩ := hconserves.balanced (X86.emit_labels ctx i hfailure)
  rw [← e.rise_eq_neg_delta]
  exact X86.pathsAdd_of_balanced hbalanced

theorem Mips.emit_pathsAdd (hmatches : Matches ctx env i stack)
    (hsimulate : simulate env i stack = .ok e stack') (hpseudo : i.op.isPseudo = false)
    (hthrow : i.op ≠ .throw) (hfailure : (Mips.emit ctx i e).failure = none) :
    Mips.PathsAdd (Mips.emit ctx i e).code (-UInt32.ofInt e.delta) := by
  have hexchange := simulate_exchange hsimulate
  have hconserves := Mips.emit_conserves hmatches hexchange.sizes hpseudo hthrow hfailure
  obtain ⟨heights, hbalanced⟩ := hconserves.balanced (Mips.emit_labels ctx i hfailure)
  rw [← e.rise_eq_neg_delta]
  exact Mips.pathsAdd_of_balanced hbalanced

end Paths

/-! ## A template alone -/

def Program.ofTemplate {I : Type} [TargetInstr I] (code : List I) : Program I where
  code := code.toArray
  labels := Std.HashMap.ofList (labelsFrom 0 code)
  symbols := bindAll ∅ intrinsicSymbols
  methods := []
  types := ∅
  typeInfo := ∅
  layout := {}
  stepLimit := 1

def dropFrame : Frame :=
  { args := [], locals := [], returnItem := none, argBytes := 0, localBytes := 0 }

def dropContext : EmitContext :=
  { tables := {}, options := {}, policy := X86.backend.defaultPolicy, frame := dropFrame,
    method := .ofName ⟨1, Nat.one_pos⟩ 0 "drop", endPosition := 1 }

def dropStore : Store := { memory := .empty, heapNext := 0, heapEnd := 0 }

end Stencil
