import Stencil.Proofs.Height.Paths
import Stencil.Proofs.Mips.Isolation
import Stencil.Proofs.X86.Isolation

/-!
# Templates share nothing but memory, stack pointer and frame pointer

What a template does depends on memory, the stack pointer and the frame pointer alone. Whatever else
the machine held before, it ends in the same way: in the same fault, never, or at the same place with
the same memory, stack pointer and frame pointer, and after a return with the same result.
-/

namespace Stencil

open AddressMap

section Isolation

variable (ctx : EmitContext) (i : Instruction) (e : Effect)

/-- On both targets two runs of a template that calls no method end alike if they start with the same
memory, stack pointer and frame pointer. -/
theorem templates_isolated (hcalls : i.op.operation.entersMethods = false) :
    ((X86.backend.emit ctx i e).failure = none →
      X86.RunsAlike (X86.backend.emit ctx i e).code
        (if i.op.operation = .ret then X86.returnCells e.poppedBytes else [])) ∧
    ((Mips.backend.emit ctx i e).failure = none →
      Mips.RunsAlike (Mips.backend.emit ctx i e).code
        (if i.op.operation = .ret then Mips.returnCells e.poppedBytes else [])) := by
  constructor
  · intro hfailure
    exact X86.runsAlike_of_isolated (X86.emit_isolated hcalls hfailure)
      (X86.emit_labels ctx i hfailure)
  · intro hfailure
    exact Mips.runsAlike_of_isolated (Mips.emit_isolated hcalls hfailure)
      (Mips.emit_labels ctx i hfailure)

end Isolation

/-! ## A comparison -/

section Compare

def compareInstruction : Instruction := .placed 0 .clt []

def compareEffect : Effect := { popped := [.int32, .int32], pushed := [.int32] }

/-- The comparison of two words on a target. -/
abbrev compareCode {I : Type} (backend : Backend I) : List I :=
  (backend.emit dropContext compareInstruction compareEffect).code

theorem ofTemplate_wellFormed {I : Type} [TargetInstr I] (code : List I)
    (hfits : code.length ≤ codeLimit) : (Program.ofTemplate code).WellFormed :=
  Program.wellFormed_of_layout code rfl rfl hfits [] (by rw [List.append_nil]; rfl)
    fun _ => List.not_mem_nil

theorem ofTemplate_placed {I : Type} [TargetInstr I] {code : List I}
    (hnodup : (boundLabels code).Nodup) : Placed (Program.ofTemplate code) 0 code :=
  Placed.of_layout code rfl rfl hnodup [] code [] (by simp)

/-- Whatever `eax` or `$t0` held, a comparison ends alike. -/
theorem templates_isolated_compare :
    (∃ m₁ m₂ : X86.Machine, m₁.reg .eax ≠ m₂.reg .eax ∧
      EndAlike (X86.Machine.cycle (Program.ofTemplate (compareCode X86.backend)))
        (X86.StandsIn 0 (compareCode X86.backend)) (fun m₁ m₂ => ∃ pc, X86.Machine.Agree [] pc m₁ m₂)
        m₁ m₂) ∧
    ∃ m₁ m₂ : Mips.Machine, m₁.reg .t0 ≠ m₂.reg .t0 ∧
      EndAlike (Mips.Machine.cycle (Program.ofTemplate (compareCode Mips.backend)))
        (Mips.StandsIn 0 (compareCode Mips.backend))
        (fun m₁ m₂ => ∃ pc npc, Mips.Machine.Agree [] pc npc m₁ m₂) m₁ m₂ := by
  obtain ⟨hx86, hmips⟩ := templates_isolated dropContext compareInstruction compareEffect rfl
  constructor
  · let m : X86.Machine := { pc := codeAddress 0, store := dropStore }
    refine ⟨m, m.setReg .eax 7, by decide, ?_⟩
    exact hx86 rfl _ 0 m (m.setReg .eax 7)
      (ofTemplate_wellFormed _ (Nat.le_of_ble_eq_true rfl))
      (ofTemplate_placed (X86.emit_labels dropContext compareInstruction rfl).nodup)
      (Nat.zero_le _) ⟨rfl, rfl, rfl, by decide, by decide, nofun, nofun⟩
  · let m : Mips.Machine := { pc := codeAddress 0, npc := codeAddress 0 + 4, store := dropStore }
    refine ⟨m, m.setReg .t0 7, by decide, ?_⟩
    exact hmips rfl _ 0 m (m.setReg .t0 7)
      (ofTemplate_wellFormed _ (Nat.le_of_ble_eq_true rfl))
      (ofTemplate_placed (Mips.emit_labels dropContext compareInstruction rfl).nodup)
      (Nat.lt_of_sub_pos (by decide)) ⟨⟨rfl, rfl⟩, ⟨rfl, rfl⟩, rfl, by decide, by decide, by decide,
        nofun, nofun, nofun⟩

end Compare

end Stencil
