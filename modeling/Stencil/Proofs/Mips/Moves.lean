import Stencil.Proofs.Execution.Turns
import Stencil.Proofs.Mips.View

/-!
# Moves on the stack of the MIPS32 machine

Pushes, pops and the transfer of values between the operand stack and the frame, as templates are made
of them.
-/

namespace Stencil.Mips

open AddressMap

variable {words : List UInt32} {fp : UInt32}

/-- What it means for a machine to be about to run an instruction with a stack. -/
theorem poised_iff {m : Machine} {k : Nat} : Poised Instr m k words fp ↔
    m.pc = codeAddress k ∧ m.npc = codeAddress (k + 1) ∧ m.reg .zero = 0 ∧
      m.reg .sp = stackPointer words ∧ m.reg .fp = fp ∧ m.store.memory.Holds words := by
  constructor
  · rintro ⟨v, hstands, rfl, rfl⟩
    exact ⟨hstands.pc, hstands.npc, hstands.sees.reg .zero, hstands.sees.reg .sp,
      hstands.sees.reg .fp, hstands.sees.shows.holds⟩
  · rintro ⟨hpc, hnpc, hzero, hsp, rfl, hholds⟩
    have hfits : words.length + (stackCapacity - words.length) = stackCapacity :=
      Nat.add_sub_of_le hholds.length_le
    refine ⟨{ words, free := _, fp := m.reg .fp, regs := { gpr := m.reg, hi := m.hi, lo := m.lo } },
      ⟨hpc, hnpc, fun r => ?_, rfl, rfl, hfits, hholds⟩, rfl, rfl⟩
    cases r with
    | zero => exact hzero
    | sp => exact hsp
    | _ => rfl

theorem at_put? {v v' : View Registers} {r : Reg} {w : UInt32} (hv : v.At words fp)
    (hput : put? v r w = some v') : v'.At words fp := by
  unfold put? at hput
  split at hput
  · cases hput
  · cases hput
  · cases hput
  · obtain rfl := Option.some.inj hput
    exact ⟨hv.words_eq, hv.fp_eq, hv.fits⟩

def Reg.isPlain (r : Reg) : Bool := r ≠ .zero && r ≠ .sp && r ≠ .fp

theorem exec_put {v : View Registers} (instr : Instr) (r : Reg) {w : UInt32} (hv : v.At words fp)
    (hcompute : compute v instr = put? v r w) (hr : r.isPlain = true) :
    ∃ v', Exec [instr] v .next v' ∧ v'.At words fp ∧
      ∀ r', get v' r' = if r' = r then w else get v r' := by
  obtain ⟨v', hput⟩ : ∃ v', put? v r w = some v' := by
    cases r <;> first | cases hr; done | exact ⟨_, rfl⟩
  have hstep : step v (.one instr) = some v' := hcompute.trans hput
  have hsteps : Steps (Group.one instr).code v v' := .plain hstep
  exact ⟨v', .of_steps hsteps, at_put? hv hput, get_put? hput⟩

/-- Code without jumps that leaves no more words than it takes. -/
theorem turns_of_run (groups : List Group) {front result : List UInt32} (extra : Nat)
    (hsize : front.length = result.length + extra)
    (h : ∀ free regs, ∃ v', run ⟨front ++ words, free, fp, regs⟩ groups = some v' ∧
      v'.words = result ++ words ∧ v'.fp = fp ∧ v'.free = free + extra) :
    Turns (groups.flatMap Group.code) (front ++ words) fp .next (result ++ words) fp := by
  rintro ⟨_, free, _, regs⟩ ⟨rfl, rfl, hfits⟩
  obtain ⟨v', hrun, hwords, hfp, hfree⟩ := h free regs
  refine ⟨v', exec_of_run hrun, hwords, hfp, ?_⟩
  dsimp only at hfits
  rw [List.length_append] at hfits ⊢
  omega

theorem exec_push {v : View Registers} {r : Reg} (hv : v.At words fp) (hr : r ≠ .sp)
    (hroom : words.length < stackCapacity) :
    ∃ v', Exec (Instr.push r) v .next v' ∧ v'.At (get v r :: words) fp ∧ v'.regs = v.regs := by
  obtain ⟨v', hpush, hv', hregs⟩ := hv.push? hroom (get v r)
  have hstep : step v (.push r) = some v' := by
    cases r <;> first | exact absurd rfl hr | exact hpush
  exact ⟨v', .of_steps (Steps.plain hstep), hv', hregs⟩

theorem exec_pop {v : View Registers} {r : Reg} {w : UInt32} (hv : v.At (w :: words) fp)
    (hr : r.isPlain = true) :
    ∃ v', Exec (Instr.pop r) v .next v' ∧ v'.At words fp ∧ get v' r = w ∧
      ∀ r', r' ≠ r → v'.regs.gpr r' = v.regs.gpr r' := by
  obtain ⟨v', hput⟩ : ∃ v', put? { v with words, free := v.free + 1 } r w = some v' := by
    cases r <;> first | cases hr; done | exact ⟨_, rfl⟩
  have hstep : step v (.pop r) = some v' := by
    rw [step, hv.words_eq]
    exact hput
  have hfits := hv.fits
  rw [List.length_cons] at hfits
  have hpopped : View.At { v with words, free := v.free + 1 } words fp :=
    ⟨rfl, hv.fp_eq, show words.length + (v.free + 1) = _ by omega⟩
  refine ⟨v', .of_steps (Steps.plain hstep), at_put? hpopped hput, ?_, fun r' hr' => ?_⟩
  · rw [get_put? hput, if_pos rfl]
  · unfold put? at hput
    split at hput
    · cases hput
    · cases hput
    · cases hput
    · obtain rfl := Option.some.inj hput
      exact if_neg hr'

theorem exec_drop {v : View Registers} (front : List UInt32) (hv : v.At (front ++ words) fp) :
    ∃ v', Exec (Instr.drop (4 * front.length)) v .next v' ∧ v'.At words fp ∧ v'.regs = v.regs := by
  by_cases hzero : 4 * front.length = 0
  · obtain rfl : front = [] := List.length_eq_zero_iff.mp (by omega)
    rw [Instr.drop, if_pos hzero]
    exact ⟨v, .nil, hv, rfl⟩
  · have himm : (Int32.ofNat (4 * front.length)).toUInt32 = 4 * UInt32.ofNat front.length :=
      ofNat_four_mul _
    have hfits := hv.fits
    rw [List.length_append] at hfits
    rw [Instr.drop, if_neg hzero]
    refine ⟨_, .of_steps (Steps.drop hv.words_eq himm), ⟨?_, hv.fp_eq, ?_⟩, rfl⟩
    · show v.words.drop front.length = words
      rw [hv.words_eq, List.drop_left]
    · show words.length + (v.free + front.length) = _
      omega

theorem exec_load {v : View Registers} (dst base : Reg) {offset : Int32} {front tail : List UInt32}
    {w : UInt32} (hv : v.At words fp) (hwords : words = front ++ w :: tail)
    (haddress : get v base + offset.toUInt32 = wordAddress tail.length) (hdst : dst.isPlain = true) :
    ∃ v', Exec [Instr.lw dst offset base] v .next v' ∧ v'.At words fp ∧
      ∀ r, get v' r = if r = dst then w else get v r := by
  obtain ⟨v', hput⟩ : ∃ v', put? v dst w = some v' := by
    cases dst <;> first | cases hdst; done | exact ⟨_, rfl⟩
  exact ⟨v', .of_steps (Steps.load (hv.words_eq.trans hwords) haddress hput), at_put? hv hput,
    get_put? hput⟩

theorem exec_store {v : View Registers} (src base : Reg) {offset : Int32} {front tail : List UInt32}
    {old : UInt32} (hv : v.At words fp) (hwords : words = front ++ old :: tail)
    (haddress : get v base + offset.toUInt32 = wordAddress tail.length) :
    ∃ v', Exec [Instr.sw src offset base] v .next v' ∧ v'.At (front ++ get v src :: tail) fp ∧
      v'.regs = v.regs := by
  refine ⟨_, .of_steps (Steps.store (hv.words_eq.trans hwords) haddress), ⟨rfl, hv.fp_eq, ?_⟩, rfl⟩
  have hfits := hv.fits
  rw [hwords] at hfits
  simpa using hfits

/-- Push a value that lies in the frame, the high word first. -/
theorem turns_pushSlot {offset : Int32} {front value rest : List UInt32}
    (hlies : Lies words fp offset front value rest)
    (hroom : value.length + words.length ≤ stackCapacity) :
    Turns ((List.range value.length).reverse.flatMap fun k =>
      Instr.lw .t6 (offset + Int32.ofNat (4 * k)) .fp :: Instr.push .t6)
      words fp .next (value ++ words) fp := by
  have hloop : Turns ((List.range value.length).reverse.flatMap fun k =>
      Instr.lw .t6 (offset + Int32.ofNat (4 * k)) .fp :: Instr.push .t6)
      (value.drop value.length ++ words) fp .next (value.drop 0 ++ words) fp := by
    refine Turns.countDown _ (fun k => value.drop k ++ words) fun k hk v hv => ?_
    obtain ⟨gap, tail, hword, hpushed, haddress⟩ := hlies.push_step hk
    rw [← hv.fp_eq] at haddress
    have hshort : (value.drop (k + 1) ++ words).length < stackCapacity := by
      rw [List.length_append, List.length_drop]
      omega
    obtain ⟨t, hload, ht, hreg⟩ := exec_load .t6 .fp hv hword haddress (by decide)
    obtain ⟨v', hpush, hv', -⟩ := exec_push (r := .t6) ht (by decide) hshort
    rw [hreg, if_pos rfl, ← hpushed] at hv'
    exact ⟨v', hload.append hpush, hv'⟩
  rw [List.drop_length, List.nil_append] at hloop
  exact hloop

/-- Pop a value into a place of the frame, the low word first. -/
theorem turns_popSlot {offset : Int32} {front old rest value : List UInt32}
    (hlies : Lies words fp offset front old rest) (hlength : value.length = old.length) :
    Turns ((List.range value.length).flatMap fun k =>
      Instr.pop .t6 ++ [Instr.sw .t6 (offset + Int32.ofNat (4 * k)) .fp])
      (value ++ words) fp .next (front ++ (value ++ rest)) fp := by
  have hloop : Turns ((List.range value.length).flatMap fun k =>
      Instr.pop .t6 ++ [Instr.sw .t6 (offset + Int32.ofNat (4 * k)) .fp])
      (Lies.popping front old rest value 0) fp .next
      (Lies.popping front old rest value value.length) fp := by
    refine Turns.countUp _ (Lies.popping front old rest value) fun k hk v hv => ?_
    obtain ⟨gap, w, tail, hbefore, hafter, haddress⟩ := hlies.pop_step hlength hk
    rw [← hv.fp_eq] at haddress
    rw [hbefore] at hv
    obtain ⟨t, hpop, ht, hreg, -⟩ := exec_pop (r := .t6) hv (by decide)
    rw [hv.fp_eq, ← ht.fp_eq] at haddress
    obtain ⟨v', hstore, hv', -⟩ := exec_store .t6 .fp ht rfl haddress
    rw [hreg, ← hafter] at hv'
    exact ⟨v', hpop.append hstore, hv'⟩
  rw [hlies.popping_zero, Lies.popping_length hlength] at hloop
  exact hloop

theorem turns_pushZero (hroom : words.length < stackCapacity) :
    Turns (Instr.push .zero) words fp .next (0 :: words) fp := by
  intro v hv
  obtain ⟨v', hexec, hv', -⟩ := exec_push (r := .zero) hv (by decide) hroom
  exact ⟨v', hexec, hv'⟩

/-! ## Jumps -/

section Jump

variable {v : View Registers}

/-- A branch goes to its label or on to the next instruction. -/
theorem exec_branch (onEqual : Bool) (lhs rhs : Reg) (l : Label) :
    Exec [Instr.branch onEqual lhs rhs l, .nop] v
      (if (get v lhs == get v rhs) = onEqual then .goto l else .next) v := by
  split
  · rename_i hcond
    exact .of_jumps (.branch hcond)
  · rename_i hcond
    refine .of_steps (Steps.passed ?_)
    cases onEqual with
    | false => exact Bool.eq_true_of_not_eq_false hcond
    | true => exact Bool.eq_false_of_not_eq_true hcond

theorem exec_label {l : Label} : Exec [Instr.label l] v .next v :=
  .of_steps (show Steps (Group.one (.label l)).code v v from .plain rfl)

end Jump

end Stencil.Mips
