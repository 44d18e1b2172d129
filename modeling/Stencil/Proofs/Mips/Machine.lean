import Stencil.Mips.Machine
import Stencil.Proofs.Machine.Code
import Stencil.Proofs.Stateful
import Mathlib.Data.UInt

/-!
# The MIPS32 machine, one instruction at a time

The registers as a map, the fields that each change of the machine leaves alone, and what fetching an
instruction does (`Machine.cycle_at`).
-/

namespace Stencil.Mips

open AddressMap Stateful

/-- The instruction goes where a register says. -/
def Instr.jumpsByRegister : Instr → Bool
  | .jalr _ | .jr _ => true
  | _ => false

theorem Reg.all_index (r : Reg) : Reg.all[r.index.val]? = some r := by
  cases r <;> rfl

theorem Reg.index_inj {r r' : Reg} : r.index = r'.index ↔ r = r' := by
  constructor
  · intro h
    have hsome : some r = some r' := by rw [← Reg.all_index r, h, Reg.all_index r']
    exact Option.some.inj hsome
  · rintro rfl
    rfl

namespace Machine

@[simp] theorem reg_setReg_self (m : Machine) {r : Reg} (value : UInt32) (h : r ≠ .zero) :
    (m.setReg r value).reg r = value := by
  simp [reg, setReg, h]

@[simp] theorem reg_setReg_of_ne (m : Machine) {r r' : Reg} (value : UInt32) (h : r' ≠ r) :
    (m.setReg r value).reg r' = m.reg r' := by
  have hindex : r.index ≠ r'.index := fun heq => h (Reg.index_inj.mp heq).symm
  have hval : r.index.val ≠ r'.index.val := fun heq => hindex (Fin.ext heq)
  unfold setReg
  split
  · rfl
  · simp [reg, hval]

@[simp] theorem setReg_pc (m : Machine) (r : Reg) (value : UInt32) :
    (m.setReg r value).pc = m.pc := by
  unfold setReg
  split <;> rfl

@[simp] theorem setReg_npc (m : Machine) (r : Reg) (value : UInt32) :
    (m.setReg r value).npc = m.npc := by
  unfold setReg
  split <;> rfl

@[simp] theorem setReg_store (m : Machine) (r : Reg) (value : UInt32) :
    (m.setReg r value).store = m.store := by
  unfold setReg
  split <;> rfl

variable {p : Program Instr}

theorem get_apply (r : Reg) (m : Machine) : get r m = .ok (m.reg r) m := rfl

theorem put_apply (r : Reg) (value : UInt32) (m : Machine) : put r value m = .ok () (m.setReg r value) := rfl

/-- The machine once the instruction at index `k` is noted in the trace. -/
def fetched (m : Machine) (k : Nat) : Machine :=
  { m with trace := m.trace.push { index := k, sp := m.reg .sp, fp := m.reg .fp } }

@[simp] theorem fetched_reg (m : Machine) (k : Nat) (r : Reg) : (m.fetched k).reg r = m.reg r := rfl

@[simp] theorem fetched_pc (m : Machine) (k : Nat) : (m.fetched k).pc = m.pc := rfl

@[simp] theorem fetched_npc (m : Machine) (k : Nat) : (m.fetched k).npc = m.npc := rfl

@[simp] theorem fetched_store (m : Machine) (k : Nat) : (m.fetched k).store = m.store := rfl

/-- The machine past one instruction, which sends control to `next` after the delay slot. -/
def advance (m : Machine) (next : Option UInt32) : Machine :=
  { m with pc := m.npc, npc := next.getD (m.npc + 4) }

@[simp] theorem advance_reg (m : Machine) (next : Option UInt32) (r : Reg) :
    (m.advance next).reg r = m.reg r := rfl

@[simp] theorem advance_pc (m : Machine) (next : Option UInt32) : (m.advance next).pc = m.npc := rfl

@[simp] theorem advance_npc_none (m : Machine) : (m.advance none).npc = m.npc + 4 := rfl

@[simp] theorem advance_npc_some (m : Machine) (a : UInt32) : (m.advance (some a)).npc = a := rfl

@[simp] theorem advance_store (m : Machine) (next : Option UInt32) :
    (m.advance next).store = m.store := rfl

theorem cycle_at (hfits : p.code.size ≤ codeLimit) {m : Machine} {k : Nat} {instr : Instr}
    (hpc : m.pc = codeAddress k) (hinstr : p.code[k]? = some instr) :
    cycle p m = (execute p instr >>= fun next => modify (advance · next)) (m.fetched k) := by
  have hk : k < p.code.size := (Array.getElem?_eq_some_iff.mp hinstr).1
  have hindex := Program.indexOf_codeAddress hfits hk
  have hnot := atAddress?_codeAddress (k := k) (by omega)
  unfold cycle
  simp only [bind_apply, estate_get_apply, hpc, hnot, hindex, lift, pure_apply, modify_apply, hinstr,
    fetched]
  rfl

theorem cycle_ok (hfits : p.code.size ≤ codeLimit) {m m' : Machine} {k : Nat} {instr : Instr}
    (hpc : m.pc = codeAddress k) (hinstr : p.code[k]? = some instr) (h : cycle p m = .ok () m') :
    ∃ next t, execute p instr (m.fetched k) = .ok next t ∧ m' = t.advance next := by
  rw [cycle_at hfits hpc hinstr] at h
  obtain ⟨next, t, hrun, hmodify⟩ := bind_eq_ok.mp h
  exact ⟨next, t, hrun, (EStateM.Result.ok.inj hmodify).2.symm⟩

theorem cycle_intrinsic {m : Machine} {intrinsic : Intrinsic}
    (h : Intrinsic.atAddress? m.pc = some intrinsic) : cycle p m = callIntrinsic p intrinsic m := by
  unfold cycle
  simp only [bind_apply, estate_get_apply, h]

/-- A cycle runs an intrinsic, stops for want of an instruction, or notes the instruction and runs it. -/
theorem cycle_cases (hfits : p.code.size ≤ codeLimit) (m : Machine) :
    (∃ intrinsic, Intrinsic.atAddress? m.pc = some intrinsic ∧ cycle p m = callIntrinsic p intrinsic m) ∨
      Intrinsic.atAddress? m.pc = none ∧ (cycle p m = .error (.invalidInstruction m.pc) m ∨
        ∃ k instr, m.pc = codeAddress k ∧ p.code[k]? = some instr ∧
          cycle p m = (execute p instr >>= fun next => modify (advance · next)) (m.fetched k)) := by
  cases hat : Intrinsic.atAddress? m.pc with
  | some intrinsic => exact .inl ⟨intrinsic, rfl, cycle_intrinsic hat⟩
  | none =>
    refine .inr ⟨rfl, ?_⟩
    cases hindex : p.indexOf m.pc with
    | error fault =>
      obtain rfl := Program.indexOf_error hindex
      refine .inl ?_
      unfold cycle
      simp only [bind_apply, estate_get_apply, hat, hindex, lift]
      rfl
    | ok k =>
      obtain ⟨hpc, instr, hinstr⟩ := Program.indexOf_ok hindex
      exact .inr ⟨k, instr, hpc, hinstr, cycle_at hfits hpc hinstr⟩

end Machine

end Stencil.Mips
