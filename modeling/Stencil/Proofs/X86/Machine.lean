import Stencil.Proofs.Machine.Code
import Stencil.Proofs.Stateful
import Stencil.X86.Machine
import Mathlib.Data.UInt

/-!
# The x86 machine, one instruction at a time

The registers as a map, the fields that each change of the machine leaves alone, and what fetching an
instruction does (`Machine.cycle_at`). Operations on operands of 32 bits are those of machine words.
-/

namespace Stencil.X86

open AddressMap Stateful

theorem Reg.all_index (r : Reg) : Reg.all[r.index.val]? = some r := by
  cases r <;> rfl

theorem Reg.index_inj {r r' : Reg} : r.index = r'.index ↔ r = r' := by
  constructor
  · intro h
    have hsome : some r = some r' := by rw [← Reg.all_index r, h, Reg.all_index r']
    exact Option.some.inj hsome
  · rintro rfl
    rfl

namespace Machine

@[simp] theorem reg_setReg_self (m : Machine) (r : Reg) (value : UInt32) :
    (m.setReg r value).reg r = value := by
  simp [reg, setReg]

@[simp] theorem reg_setReg_of_ne (m : Machine) {r r' : Reg} (value : UInt32) (h : r' ≠ r) :
    (m.setReg r value).reg r' = m.reg r' := by
  have hindex : r.index ≠ r'.index := fun heq => h (Reg.index_inj.mp heq).symm
  have hval : r.index.val ≠ r'.index.val := fun heq => hindex (Fin.ext heq)
  simp [reg, setReg, hval]

@[simp] theorem setReg_pc (m : Machine) (r : Reg) (value : UInt32) : (m.setReg r value).pc = m.pc :=
  rfl

@[simp] theorem setReg_store (m : Machine) (r : Reg) (value : UInt32) :
    (m.setReg r value).store = m.store := rfl

@[simp] theorem setReg_flags (m : Machine) (r : Reg) (value : UInt32) :
    (m.setReg r value).flags = m.flags := rfl

theorem get_apply (r : Reg) (m : Machine) : get r m = .ok (m.reg r) m := rfl

theorem put_apply (r : Reg) (value : UInt32) (m : Machine) :
    put r value m = .ok () (m.setReg r value) := rfl

theorem onStore_of_ok {α : Type} {action : StoreM α} {a : α} {m : Machine} {s : Store}
    (h : action m.store = .ok a s) : onStore action m = .ok a { m with store := s } := by
  obtain ⟨regs, flags, pc, store, trace⟩ := m
  have haction : action store = .ok a s := h
  unfold onStore
  simp only [haction]

variable {p : Program Instr}

/-- The machine once the instruction at index `k` is fetched. -/
def fetched (m : Machine) (k : Nat) : Machine :=
  { m with
    trace := m.trace.push { index := k, sp := m.reg .esp, fp := m.reg .ebp }
    pc := codeAddress (k + 1) }

@[simp] theorem fetched_reg (m : Machine) (k : Nat) (r : Reg) : (m.fetched k).reg r = m.reg r := rfl

@[simp] theorem fetched_pc (m : Machine) (k : Nat) : (m.fetched k).pc = codeAddress (k + 1) := rfl

@[simp] theorem fetched_store (m : Machine) (k : Nat) : (m.fetched k).store = m.store := rfl

@[simp] theorem fetched_flags (m : Machine) (k : Nat) : (m.fetched k).flags = m.flags := rfl

theorem cycle_at (hfits : p.code.size ≤ codeLimit) {m : Machine} {k : Nat} {instr : Instr}
    (hpc : m.pc = codeAddress k) (hinstr : p.code[k]? = some instr) :
    cycle p m = execute p (codeAddress k) instr (m.fetched k) := by
  have hk : k < p.code.size := (Array.getElem?_eq_some_iff.mp hinstr).1
  have hindex := Program.indexOf_codeAddress hfits hk
  unfold cycle
  simp only [bind_apply, estate_get_apply, hpc, hindex, lift, pure_apply, modify_apply, hinstr]
  rw [codeAddress_succ]
  rfl

/-- A cycle stops for want of an instruction, or it notes the instruction and runs it. -/
theorem cycle_cases (hfits : p.code.size ≤ codeLimit) (m : Machine) :
    cycle p m = .error (.invalidInstruction m.pc) m ∨ ∃ k instr, m.pc = codeAddress k ∧ p.code[k]? = some instr ∧
      cycle p m = execute p (codeAddress k) instr (m.fetched k) := by
  cases hindex : p.indexOf m.pc with
  | error fault =>
    obtain rfl := Program.indexOf_error hindex
    refine .inl ?_
    unfold cycle
    rw [bind_of_ok (estate_get_apply m), hindex]
    rfl
  | ok k =>
    obtain ⟨hpc, instr, hinstr⟩ := Program.indexOf_ok hindex
    exact .inr ⟨k, instr, hpc, hinstr, cycle_at hfits hpc hinstr⟩

theorem onStore_of_error {α : Type} {action : StoreM α} {fault : Fault} {m : Machine}
    (h : action m.store = .error fault m.store) : onStore action m = .error fault m := by
  unfold onStore
  simp only [h]

theorem cycle_callSymbol (hwf : p.WellFormed) {intrinsic : Intrinsic} {k : Nat} {m : Machine}
    (hpc : m.pc = codeAddress k) (hinstr : p.code[k]? = some (.callSymbol intrinsic.symbol)) :
    cycle p m = (onStore (p.runIntrinsic intrinsic (m.reg .esp) (codeAddress k)) >>= fun
      | some value => put .eax value
      | none => pure ()) (m.fetched k) := by
  obtain ⟨address, hresolve, hintrinsic⟩ := hwf.intrinsics intrinsic
  have htarget : targetAddress p (.symbol intrinsic.symbol) (m.fetched k) = .ok address (m.fetched k) := by
    rw [targetAddress, hresolve]
    rfl
  rw [cycle_at hwf.fits hpc hinstr, Instr.callSymbol, execute, call, bind_of_ok htarget]
  simp only [hintrinsic]
  exact (bind_of_ok (get_apply ..)).trans rfl

end Machine

/-! ## Arithmetic of the x86 machine on words -/

section Words

theorem modulus_word : Word.modulus 32 = 2 ^ 32 := rfl

theorem toNat_mod_word (a : UInt32) : a.toNat % Word.modulus 32 = a.toNat :=
  Nat.mod_eq_of_lt a.toNat_lt

theorem alu_add (a b : UInt32) (carry : Bool) : (alu .add 32 a b carry).1 = a + b := by
  simp only [alu, addWith, toNat_mod_word]
  rw [← UInt32.toNat_inj, UInt32.toNat_ofNat', UInt32.toNat_add, modulus_word]
  omega

theorem alu_sub (a b : UInt32) (carry : Bool) : (alu .sub 32 a b carry).1 = a - b := by
  have hb := b.toNat_lt
  simp only [alu, subWith, toNat_mod_word]
  rw [← UInt32.toNat_inj, UInt32.toNat_ofNat', UInt32.toNat_sub, modulus_word,
    show Word.modulus (32 + 1) = 2 ^ 33 from rfl]
  omega

theorem alu_adc (a b : UInt32) (carry : Bool) :
    (alu .adc 32 a b carry).1 = a + b + UInt32.ofNat carry.toNat := by
  have hcarry := carry.toNat_le
  simp only [alu, addWith, toNat_mod_word]
  rw [← UInt32.toNat_inj, UInt32.toNat_ofNat', UInt32.toNat_add, UInt32.toNat_add,
    UInt32.toNat_ofNat', modulus_word]
  omega

theorem alu_sbb (a b : UInt32) (carry : Bool) :
    (alu .sbb 32 a b carry).1 = a - b - UInt32.ofNat carry.toNat := by
  have hcarry := carry.toNat_le
  have hb := b.toNat_lt
  simp only [alu, subWith, toNat_mod_word]
  rw [← UInt32.toNat_inj, UInt32.toNat_ofNat', UInt32.toNat_sub, UInt32.toNat_sub,
    UInt32.toNat_ofNat', modulus_word, show Word.modulus (32 + 1) = 2 ^ 33 from rfl]
  omega

theorem alu_and (a b : UInt32) (carry : Bool) : (alu .and 32 a b carry).1 = a &&& b := by
  simp only [alu, logical, toNat_mod_word]
  rw [← UInt32.toNat_and, UInt32.ofNat_toNat]

theorem alu_or (a b : UInt32) (carry : Bool) : (alu .or 32 a b carry).1 = a ||| b := by
  simp only [alu, logical, toNat_mod_word]
  rw [← UInt32.toNat_or, UInt32.ofNat_toNat]

theorem alu_xor (a b : UInt32) (carry : Bool) : (alu .xor 32 a b carry).1 = a ^^^ b := by
  simp only [alu, logical, toNat_mod_word]
  rw [← UInt32.toNat_xor, UInt32.ofNat_toNat]

/-! ## Flags -/

theorem carry_alu_add (a b : UInt32) (carry : Bool) :
    (alu .add 32 a b carry).2.carry = decide (0x100000000 ≤ a.toNat + b.toNat) := by
  simp only [alu, addWith, toNat_mod_word]
  rfl

theorem carry_alu_sub (a b : UInt32) (carry : Bool) :
    (alu .sub 32 a b carry).2.carry = decide (a.toNat < b.toNat) := by
  simp only [alu, subWith, flagsOf, toNat_mod_word]
  rfl

theorem zero_alu_cmp (a b : UInt32) (carry : Bool) : (alu .cmp 32 a b carry).2.zero = (a == b) := by
  have ha := a.toNat_lt
  have hb := b.toNat_lt
  simp only [alu, subWith, flagsOf, modulus_word]
  rw [Bool.eq_iff_iff, beq_iff_eq, beq_iff_eq, ← UInt32.toNat_inj,
    show Word.modulus (32 + 1) = 2 ^ 33 from rfl]
  omega

theorem zero_alu_and_self (a : UInt32) (carry : Bool) : (alu .and 32 a a carry).2.zero = (a == 0) := by
  simp only [alu, logical, flagsOf, toNat_mod_word, Nat.and_self]
  rw [Bool.eq_iff_iff, beq_iff_eq, beq_iff_eq, ← UInt32.toNat_inj]
  rfl

theorem zero_alu_or (a b : UInt32) (carry : Bool) :
    (alu .or 32 a b carry).2.zero = (a ||| b == 0) := by
  simp only [alu, logical, flagsOf, toNat_mod_word]
  rw [← UInt32.toNat_or, Bool.eq_iff_iff, beq_iff_eq, beq_iff_eq, ← UInt32.toNat_inj]
  rfl

theorem signBit_word (n : Nat) : signBit 32 n = decide (0x80000000 ≤ n % 0x100000000) := by
  rw [signBit, Nat.testBit_eq_decide_div_mod_eq, decide_eq_decide]
  show n / 0x80000000 % 2 = 1 ↔ _
  omega

end Words

end Stencil.X86
