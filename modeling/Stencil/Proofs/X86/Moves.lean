import Stencil.Proofs.Execution.Turns
import Stencil.Proofs.X86.View
import Stencil.X86.Transfer

/-!
# Moves on the stack of the x86 machine

Pushes, pops and the transfer of values between the operand stack and the frame, as templates are made
of them.
-/

namespace Stencil.X86

open AddressMap

variable {words : List UInt32} {fp : UInt32}

/-- What it means for a machine to be about to run an instruction with a stack. -/
theorem poised_iff {m : Machine} {k : Nat} : Poised Instr m k words fp ↔
    m.pc = codeAddress k ∧ m.reg .esp = stackPointer words ∧ m.reg .ebp = fp ∧
      m.store.memory.Holds words := by
  constructor
  · rintro ⟨v, hstands, rfl, rfl⟩
    exact ⟨hstands.pc, hstands.sees.reg .esp, hstands.sees.reg .ebp, hstands.sees.shows.holds⟩
  · rintro ⟨hpc, hsp, rfl, hholds⟩
    have hfits : words.length + (stackCapacity - words.length) = stackCapacity :=
      Nat.add_sub_of_le hholds.length_le
    refine ⟨{ words, free := _, fp := m.reg .ebp, regs := { gpr := m.reg, flags := m.flags } },
      ⟨hpc, fun r => ?_, rfl, hfits, hholds⟩, rfl, rfl⟩
    cases r with
    | esp => exact hsp
    | eax | ecx | edx | ebx | ebp | esi | edi => rfl

theorem at_put? {v v' : View Registers} {r : Reg} {w : UInt32} (hv : v.At words fp)
    (hput : put? v r w = some v') : v'.At words fp := by
  unfold put? at hput
  split at hput
  · cases hput
  · cases hput
  · obtain rfl := Option.some.inj hput
    exact ⟨hv.words_eq, hv.fp_eq, hv.fits⟩

/-- A register that instructions compute in. -/
def Reg.isPlain (r : Reg) : Bool := r ≠ .esp && r ≠ .ebp

/-- An instruction that changes a register and maybe the flags. -/
theorem exec_put {v : View Registers} (instr : Instr) (r : Reg) {flags : Flags} {w : UInt32}
    (hv : v.At words fp) (hstep : step v instr = put? (withFlags v flags) r w)
    (hr : r.isPlain = true) :
    ∃ v', Exec [instr] v .next v' ∧ v'.At words fp ∧
      ∀ r', get v' r' = if r' = r then w else get v r' := by
  obtain ⟨v', hput⟩ : ∃ v', put? (withFlags v flags) r w = some v' := by
    cases r <;> first | cases hr; done | exact ⟨_, rfl⟩
  have hflags : (withFlags v flags).At words fp := ⟨hv.words_eq, hv.fp_eq, hv.fits⟩
  refine ⟨v', .of_steps (Steps.plain (hstep.trans hput)), at_put? hflags hput, fun r' => ?_⟩
  rw [get_put? hput, get_withFlags]

/-- Code without jumps that leaves no more words than it takes. -/
theorem turns_of_run {code : List Instr} {front result : List UInt32} (extra : Nat)
    (hsize : front.length = result.length + extra)
    (h : ∀ free regs, ∃ v', run ⟨front ++ words, free, fp, regs⟩ code = some v' ∧
      v'.words = result ++ words ∧ v'.fp = fp ∧ v'.free = free + extra) :
    Turns code (front ++ words) fp .next (result ++ words) fp := by
  rintro ⟨_, free, _, regs⟩ ⟨rfl, rfl, hfits⟩
  obtain ⟨v', hrun, hwords, hfp, hfree⟩ := h free regs
  refine ⟨v', exec_of_run hrun, hwords, hfp, ?_⟩
  dsimp only at hfits
  rw [List.length_append] at hfits ⊢
  omega

theorem turns_pushImm (value : Int32) (hroom : words.length < stackCapacity) :
    Turns [Instr.pushImm value] words fp .next (value.toUInt32 :: words) fp := by
  intro v hv
  obtain ⟨v', hpush, hv', -⟩ := hv.push? hroom value.toUInt32
  exact ⟨v', .of_steps (Steps.plain hpush), hv'⟩

theorem exec_pushReg {v : View Registers} {r : Reg} (hv : v.At words fp)
    (hroom : words.length < stackCapacity) :
    ∃ v', Exec [Instr.pushReg r] v .next v' ∧ v'.At (get v r :: words) fp ∧ v'.regs = v.regs := by
  obtain ⟨v', hpush, hv', hregs⟩ := hv.push? hroom (get v r)
  exact ⟨v', .of_steps (Steps.plain hpush), hv', hregs⟩

theorem exec_popReg {v : View Registers} {r : Reg} {w : UInt32} (hv : v.At (w :: words) fp)
    (hr : r ≠ .esp ∧ r ≠ .ebp) :
    ∃ v', Exec [Instr.popReg r] v .next v' ∧ v'.At words fp ∧ v'.regs.gpr r = w ∧
      ∀ r', r' ≠ r → v'.regs.gpr r' = v.regs.gpr r' := by
  obtain ⟨v', hput⟩ : ∃ v', put? { v with words, free := v.free + 1 } r w = some v' := by
    cases r <;> first | exact absurd rfl hr.1 | exact absurd rfl hr.2 | exact ⟨_, rfl⟩
  have hstep : step v (Instr.popReg r) = some v' := by
    rw [Instr.popReg, step, hv.words_eq]
    exact hput
  have hfits := hv.fits
  rw [List.length_cons] at hfits
  refine ⟨v', .of_steps (Steps.plain hstep), ?_⟩
  unfold put? at hput
  split at hput
  · cases hput
  · cases hput
  · obtain rfl := Option.some.inj hput
    refine ⟨⟨rfl, hv.fp_eq, ?_⟩, if_pos rfl, fun r' hr' => if_neg hr'⟩
    show words.length + (v.free + 1) = _
    omega

theorem exec_drop {v : View Registers} (front : List UInt32) (hv : v.At (front ++ words) fp) :
    ∃ v', Exec (Instr.drop (4 * front.length)) v .next v' ∧ v'.At words fp ∧
      v'.regs.gpr = v.regs.gpr := by
  by_cases hzero : 4 * front.length = 0
  · obtain rfl : front = [] := List.length_eq_zero_iff.mp (by omega)
    rw [Instr.drop, if_pos hzero]
    exact ⟨v, .nil, hv, rfl⟩
  · have himm : (Int32.ofNat (4 * front.length)).toUInt32 = 4 * UInt32.ofNat front.length :=
      ofNat_four_mul _
    have hfits := hv.fits
    rw [List.length_append] at hfits
    rw [Instr.drop, if_neg hzero]
    refine ⟨_, .of_steps (Steps.drop hv.words_eq himm), ⟨?_, hv.fp_eq, ?_⟩, withFlags_gpr _ _⟩
    · show v.words.drop front.length = words
      rw [hv.words_eq, List.drop_left]
    · show words.length + (v.free + front.length) = _
      omega

/-- Push a value that lies in the frame, the high word first. -/
theorem turns_pushSlot {offset : Int32} {front value rest : List UInt32}
    (hlies : Lies words fp offset front value rest)
    (hroom : value.length + words.length ≤ stackCapacity) :
    Turns ((List.range value.length).reverse.map fun k => Instr.pushMem ((Mem.based .ebp offset).word k))
      words fp .next (value ++ words) fp := by
  have hstep : ∀ k < value.length, Turns [Instr.pushMem ((Mem.based .ebp offset).word k)]
      (value.drop (k + 1) ++ words) fp .next (value.drop k ++ words) fp := by
    intro k hk v hv
    obtain ⟨gap, tail, hword, hpushed, haddress⟩ := hlies.push_step hk
    rw [← hv.fp_eq, UInt32.add_comm] at haddress
    have hshort : (value.drop (k + 1) ++ words).length < stackCapacity := by
      rw [List.length_append, List.length_drop]
      omega
    obtain ⟨v', hpush, hv', -⟩ := hv.push? hshort value[k]
    rw [hpushed]
    exact ⟨v', .of_steps (Steps.pushMem (r := .ebp) (hv.words_eq.trans hword) haddress hpush), hv'⟩
  have hloop := Turns.countDown _ (fun k => value.drop k ++ words) hstep
  rw [List.drop_length, List.nil_append, ← List.map_eq_flatMap] at hloop
  exact hloop

/-- Pop a value into a place of the frame, the low word first. -/
theorem turns_popSlot {offset : Int32} {front old rest value : List UInt32}
    (hlies : Lies words fp offset front old rest) (hlength : value.length = old.length) :
    Turns ((List.range value.length).map fun k => Instr.popMem ((Mem.based .ebp offset).word k))
      (value ++ words) fp .next (front ++ (value ++ rest)) fp := by
  have hstep : ∀ k < value.length, Turns [Instr.popMem ((Mem.based .ebp offset).word k)]
      (Lies.popping front old rest value k) fp .next (Lies.popping front old rest value (k + 1)) fp := by
    intro k hk v hv
    obtain ⟨gap, w, tail, hbefore, hafter, haddress⟩ := hlies.pop_step hlength hk
    rw [← hv.fp_eq, UInt32.add_comm] at haddress
    rw [hbefore] at hv
    rw [hafter]
    refine ⟨_, .of_steps (Steps.popMem hv.words_eq haddress), rfl, hv.fp_eq, ?_⟩
    have hfits := hv.fits
    simp only [List.length_append, List.length_cons] at hfits ⊢
    omega
  have hloop := Turns.countUp _ _ hstep
  rw [hlies.popping_zero, Lies.popping_length hlength, ← List.map_eq_flatMap] at hloop
  exact hloop

/-! ## Jumps -/

section Jump

variable {v : View Registers}

/-- A conditional jump goes to its label or on to the next instruction. -/
theorem exec_jcc (cond : Cond) (l : Label) :
    Exec [Instr.jcc cond l] v (if v.regs.flags.holds cond then .goto l else .next) v := by
  split
  · rename_i hcond
    exact .of_jumps (.jcc hcond)
  · rename_i hcond
    have hstep : step v (.jcc cond l) = some v := by
      rw [step, if_neg hcond]
    exact .of_steps (Steps.plain hstep)

theorem exec_jump {l : Label} (rest : List Instr) : Exec (.jump l :: rest) v (.goto l) v := by
  have hjump : Exec [Instr.jump l] v (.goto l) v := .of_jumps .jump
  exact hjump.append_goto

theorem exec_label {l : Label} : Exec [Instr.label l] v .next v := .of_steps (Steps.plain rfl)

end Jump

end Stencil.X86
