import Stencil.Proofs.X86.View
import Mathlib.Logic.Function.Basic

/-!
# Single instructions on x86

Code that looks into memory outside of the stack is followed instruction by instruction: `Rests` says
where a machine is and what its registers are, and a lemma for each instruction says where it goes.
-/

namespace Stencil.X86

open AddressMap Stateful Function

/-- Where a machine stands, and what its registers, its zero flag and its store are. -/
structure Rests (m : Machine) (k : Nat) (regs : Reg → UInt32) (zero : Bool) (store : Store) :
    Prop where
  pc : m.pc = codeAddress k
  reg : ∀ r, m.reg r = regs r
  zero : m.flags.zero = zero
  store : m.store = store

theorem Rests.of_pc {m : Machine} {k : Nat} (h : m.pc = codeAddress k) :
    Rests m k m.reg m.flags.zero m.store := ⟨h, fun _ => rfl, rfl, rfl⟩

namespace Rests

variable {p : Program Instr} {m : Machine} {k : Nat} {regs : Reg → UInt32} {zero : Bool}
  {store : Store} {Q : Machine → Prop} (h : Rests m k regs zero store)
  (hfits : p.code.size ≤ codeLimit)

include h

theorem setReg (r : Reg) (w : UInt32) :
    Rests ((m.fetched k).setReg r w) (k + 1) (update regs r w) zero store where
  pc := rfl
  reg r' := by
    by_cases hr : r' = r
    · rw [hr, Machine.reg_setReg_self, update_self]
    · rw [Machine.reg_setReg_of_ne _ _ hr, update_of_ne hr, Machine.fetched_reg, h.reg]
  zero := h.zero
  store := h.store

include hfits

theorem label {l : Label} (hinstr : p.code[k]? = some (.label l)) :
    Succeeds (Machine.cycle p) m (Rests · (k + 1) regs zero store) := by
  refine ⟨m.fetched k, ?_, ⟨rfl, h.reg, h.zero, h.store⟩⟩
  rw [Machine.cycle_at hfits h.pc hinstr]
  rfl

theorem load {dst base : Reg} {disp : Int32} (w : UInt32)
    (hinstr : p.code[k]? = some (.load dst (.based base disp)))
    (hread : store.memory.read (disp.toUInt32 + regs base) 4 = .ok w) :
    Succeeds (Machine.cycle p) m (Rests · (k + 1) (update regs dst w) zero store) := by
  refine ⟨_, ?_, h.setReg dst w⟩
  have hstore : Store.read (disp.toUInt32 + (m.fetched k).reg base) 4 (m.fetched k).store =
      .ok w (m.fetched k).store := by
    rw [Store.read, Machine.fetched_store, Machine.fetched_reg, h.store, h.reg, hread]
  have hmem : Machine.read p (.mem .dword (.based base disp)) (m.fetched k) = .ok w (m.fetched k) := by
    rw [Machine.read, bind_of_ok (address_based base disp)]
    exact Machine.onStore_of_ok hstore
  rw [Machine.cycle_at hfits h.pc hinstr, Instr.load, Machine.execute, bind_of_ok hmem]
  rfl

theorem load_faults {dst base : Reg} {disp : Int32} {fault : Fault}
    (hinstr : p.code[k]? = some (.load dst (.based base disp)))
    (hread : store.memory.read (disp.toUInt32 + regs base) 4 = .error fault) :
    Ends (Machine.cycle p) fault m := by
  refine .here ⟨m.fetched k, ?_⟩
  have hstore : Store.read (disp.toUInt32 + (m.fetched k).reg base) 4 (m.fetched k).store =
      .error fault (m.fetched k).store := by
    rw [Store.read, Machine.fetched_store, Machine.fetched_reg, h.store, h.reg, hread]
  have hmem : Machine.read p (.mem .dword (.based base disp)) (m.fetched k) =
      .error fault (m.fetched k) := by
    rw [Machine.read, bind_of_ok (address_based base disp)]
    exact Machine.onStore_of_error hstore
  rw [Machine.cycle_at hfits h.pc hinstr, Instr.load, Machine.execute, bind_of_error hmem]

theorem cmp {r : Reg} {value : Int32} (hinstr : p.code[k]? = some (.aluImm .cmp r value)) :
    Succeeds (Machine.cycle p) m (Rests · (k + 1) regs (regs r == value.toUInt32) store) := by
  refine ⟨{ m.fetched k with
    flags := (alu .cmp 32 (m.reg r) value.toUInt32 m.flags.carry).2 }, ?_, ⟨rfl, h.reg, ?_, h.store⟩⟩
  · rw [Machine.cycle_at hfits h.pc hinstr]
    rfl
  · rw [← h.reg]
    exact zero_alu_cmp (m.reg r) value.toUInt32 m.flags.carry

theorem test {r : Reg} (hinstr : p.code[k]? = some (.testReg r)) :
    Succeeds (Machine.cycle p) m (Rests · (k + 1) regs (regs r == 0) store) := by
  refine ⟨{ m.fetched k with
    flags := (alu .and 32 (m.reg r) (m.reg r) false).2 }, ?_, ⟨rfl, h.reg, ?_, h.store⟩⟩
  · rw [Machine.cycle_at hfits h.pc hinstr]
    rfl
  · rw [← h.reg]
    exact zero_alu_and_self (m.reg r) false

theorem addImm {r : Reg} {value : Int32} (hinstr : p.code[k]? = some (.aluImm .add r value)) :
    Succeeds (Machine.cycle p) m fun m' =>
      ∃ zero, Rests m' (k + 1) (update regs r (regs r + value.toUInt32)) zero store := by
  let flags := (alu .add 32 (m.reg r) value.toUInt32 m.flags.carry).2
  have hset := h.setReg r (regs r + value.toUInt32)
  refine ⟨{ (m.fetched k).setReg r (regs r + value.toUInt32) with flags }, ?_, flags.zero,
    ⟨rfl, hset.reg, rfl, hset.store⟩⟩
  rw [Machine.cycle_at hfits h.pc hinstr, ← h.reg, ← alu_add (m.reg r) value.toUInt32 m.flags.carry]
  rfl

theorem subImm {r : Reg} {value : Int32} (hinstr : p.code[k]? = some (.aluImm .sub r value)) :
    Succeeds (Machine.cycle p) m fun m' =>
      ∃ zero, Rests m' (k + 1) (update regs r (regs r - value.toUInt32)) zero store := by
  let flags := (alu .sub 32 (m.reg r) value.toUInt32 m.flags.carry).2
  have hset := h.setReg r (regs r - value.toUInt32)
  refine ⟨{ (m.fetched k).setReg r (regs r - value.toUInt32) with flags }, ?_, flags.zero,
    ⟨rfl, hset.reg, rfl, hset.store⟩⟩
  rw [Machine.cycle_at hfits h.pc hinstr, ← h.reg, ← alu_sub (m.reg r) value.toUInt32 m.flags.carry]
  rfl

theorem jump {l : Label} {target : Nat} (hinstr : p.code[k]? = some (.jump l))
    (hlabel : p.labels[l]? = some target) :
    Succeeds (Machine.cycle p) m (Rests · target regs zero store) := by
  refine ⟨{ m.fetched k with pc := codeAddress target }, ?_, ⟨rfl, h.reg, h.zero, h.store⟩⟩
  have haddress : p.labelAddress l = .ok (codeAddress target) := by
    unfold Program.labelAddress
    rw [hlabel]
  rw [Machine.cycle_at hfits h.pc hinstr, Instr.jump, Machine.execute, Machine.targetAddress, haddress]
  rfl

theorem jcc_taken {cond : Cond} {l : Label} {target : Nat} (hinstr : p.code[k]? = some (.jcc cond l))
    (hcond : ∀ flags : Flags, flags.zero = zero → flags.holds cond = true)
    (hlabel : p.labels[l]? = some target) :
    Succeeds (Machine.cycle p) m (Rests · target regs zero store) := by
  refine ⟨{ m.fetched k with pc := codeAddress target }, ?_, ⟨rfl, h.reg, h.zero, h.store⟩⟩
  have haddress : p.labelAddress l = .ok (codeAddress target) := by
    unfold Program.labelAddress
    rw [hlabel]
  rw [Machine.cycle_at hfits h.pc hinstr, Machine.execute, bind_of_ok (estate_get_apply _),
    Machine.fetched_flags, if_pos (hcond _ h.zero), haddress]
  rfl

theorem jcc_passed {cond : Cond} {l : Label} (hinstr : p.code[k]? = some (.jcc cond l))
    (hcond : ∀ flags : Flags, flags.zero = zero → flags.holds cond = false) :
    Succeeds (Machine.cycle p) m (Rests · (k + 1) regs zero store) := by
  refine ⟨m.fetched k, ?_, ⟨rfl, h.reg, h.zero, h.store⟩⟩
  rw [Machine.cycle_at hfits h.pc hinstr, Machine.execute, bind_of_ok (estate_get_apply _),
    Machine.fetched_flags, if_neg (by rw [hcond _ h.zero]; decide)]
  rfl

theorem push {src : Operand} {w : UInt32} (hinstr : p.code[k]? = some (.push src))
    (hvalue : ∀ m' : Machine, (∀ r, m'.reg r = regs r) → Machine.read p src m' = .ok w m')
    (hroom : Memory.mapped (regs .esp - 4) 4 = true) :
    Succeeds (Machine.cycle p) m (Rests · (k + 1) (update regs .esp (regs .esp - 4)) zero
      (store.withWord (regs .esp - 4) w)) := by
  have hset := h.setReg .esp (regs .esp - 4)
  refine ⟨{ (m.fetched k).setReg .esp (regs .esp - 4) with
    store := store.withWord (regs .esp - 4) w }, ?_, ⟨rfl, hset.reg, hset.zero, rfl⟩⟩
  have hwrite : Store.writeWord (regs .esp - 4) w (m.fetched k).store =
      .ok () (store.withWord (regs .esp - 4) w) := by
    rw [Machine.fetched_store, h.store, Store.writeWord_of_mapped hroom]
  have hsp : (m.fetched k).reg .esp = regs .esp := h.reg .esp
  rw [Machine.cycle_at hfits h.pc hinstr, Machine.execute, bind_of_ok (hvalue (m.fetched k) h.reg),
    Machine.push, bind_of_ok (Machine.get_apply ..), hsp, bind_of_ok (Machine.onStore_of_ok hwrite)]
  rfl

theorem pop {r : Reg} {w : UInt32} (hinstr : p.code[k]? = some (.popReg r))
    (hread : store.memory.read (regs .esp) 4 = .ok w) :
    Succeeds (Machine.cycle p) m (Rests · (k + 1) (update (update regs .esp (regs .esp + 4)) r w) zero store) := by
  have hmoved := h.setReg .esp (regs .esp + 4)
  let moved := (m.fetched k).setReg .esp (regs .esp + 4)
  have hset : Rests (moved.setReg r w) (k + 1) (update (update regs .esp (regs .esp + 4)) r w) zero
      store := by
    refine ⟨rfl, fun r' => ?_, hmoved.zero, hmoved.store⟩
    by_cases hr : r' = r
    · rw [hr, Machine.reg_setReg_self, update_self]
    · rw [Machine.reg_setReg_of_ne _ _ hr, update_of_ne hr]
      exact hmoved.reg r'
  refine ⟨_, ?_, hset⟩
  have hsp : (m.fetched k).reg .esp = regs .esp := h.reg .esp
  have hstore : Store.readWord (regs .esp) (m.fetched k).store = .ok w (m.fetched k).store := by
    rw [Store.readWord, Store.read, Machine.fetched_store, h.store, hread]
  have hpop : Machine.pop (m.fetched k) = .ok w moved := by
    rw [Machine.pop, bind_of_ok (Machine.get_apply ..), hsp, bind_of_ok (Machine.onStore_of_ok hstore)]
    rfl
  rw [Machine.cycle_at hfits h.pc hinstr, Instr.popReg, Machine.execute, bind_of_ok hpop]
  rfl

theorem cmpAddr {r : Reg} {symbol : Symbol} {address : UInt32}
    (hinstr : p.code[k]? = some (.alu .cmp (.reg r) (.addr symbol)))
    (hresolve : p.resolve symbol = .ok address) :
    Succeeds (Machine.cycle p) m (Rests · (k + 1) regs (regs r == address) store) := by
  refine ⟨{ m.fetched k with
    flags := (alu .cmp 32 (m.reg r) address m.flags.carry).2 }, ?_, ⟨rfl, h.reg, ?_, h.store⟩⟩
  · have haddress : Machine.read p (.addr symbol) (m.fetched k) = .ok address (m.fetched k) := by
      rw [Machine.read, hresolve]
      rfl
    have hreg : Machine.read p (.reg r) (m.fetched k) = .ok (m.reg r) (m.fetched k) := rfl
    rw [Machine.cycle_at hfits h.pc hinstr, Machine.execute, bind_of_ok hreg, bind_of_ok haddress]
    rfl
  · rw [← h.reg]
    exact zero_alu_cmp (m.reg r) address m.flags.carry

theorem clear {r : Reg} (hinstr : p.code[k]? = some (.aluReg .xor r r)) :
    Succeeds (Machine.cycle p) m fun m' => ∃ zero, Rests m' (k + 1) (update regs r 0) zero store := by
  let flags := (alu .xor 32 (m.reg r) (m.reg r) m.flags.carry).2
  have hset := h.setReg r 0
  refine ⟨{ (m.fetched k).setReg r 0 with flags }, ?_, flags.zero, ⟨rfl, hset.reg, rfl, hset.store⟩⟩
  have hxor : (alu .xor 32 (m.reg r) (m.reg r) m.flags.carry).1 = 0 := by
    simp [alu, logical]
  rw [Machine.cycle_at hfits h.pc hinstr, ← hxor]
  rfl

/-- A call through a register to an address that is no intrinsic's. -/
theorem callReg {r : Reg} (hinstr : p.code[k]? = some (.callReg r))
    (htarget : Intrinsic.atAddress? (regs r) = none)
    (hroom : Memory.mapped (regs .esp - 4) 4 = true) :
    Succeeds (Machine.cycle p) m fun m' => m'.pc = regs r ∧
      (∀ r', m'.reg r' = update regs .esp (regs .esp - 4) r') ∧
      m'.store = store.withWord (regs .esp - 4) (codeAddress (k + 1)) := by
  have hset := h.setReg .esp (regs .esp - 4)
  let written : Store := store.withWord (regs .esp - 4) (codeAddress (k + 1))
  refine ⟨{ (m.fetched k).setReg .esp (regs .esp - 4) with pc := regs r, store := written }, ?_, rfl,
    hset.reg, rfl⟩
  have hwrite : Store.writeWord (regs .esp - 4) (codeAddress (k + 1)) (m.fetched k).store =
      .ok () written := by
    rw [Machine.fetched_store, h.store, Store.writeWord_of_mapped hroom]
  have hsp : (m.fetched k).reg .esp = regs .esp := h.reg .esp
  have hget : Machine.targetAddress p (.reg r) (m.fetched k) = .ok (regs r) (m.fetched k) := by
    rw [← h.reg]
    rfl
  rw [Machine.cycle_at hfits h.pc hinstr, Instr.callReg, Machine.execute, Machine.call,
    bind_of_ok hget]
  simp only [htarget]
  rw [codeAddress_succ, Machine.push, bind_assoc, bind_of_ok (Machine.get_apply ..), hsp, bind_assoc,
    bind_of_ok (Machine.onStore_of_ok hwrite)]
  rfl

theorem callSite (hwf : p.WellFormed)
    (hinstr : p.code[k]? = some (.callSymbol Intrinsic.callSite.symbol)) :
    Succeeds (Machine.cycle p) m (Rests · (k + 1) (update regs .eax (codeAddress k)) zero store) := by
  refine ⟨_, ?_, h.setReg .eax (codeAddress k)⟩
  obtain ⟨address, hresolve, hat⟩ := hwf.intrinsics .callSite
  have htarget : Machine.targetAddress p (.symbol Intrinsic.callSite.symbol) (m.fetched k) =
      .ok address (m.fetched k) := by
    rw [Machine.targetAddress, hresolve]
    rfl
  rw [Machine.cycle_at hfits h.pc hinstr, Instr.callSymbol, Machine.execute, Machine.call,
    bind_of_ok htarget]
  simp only [hat]
  rfl

omit hfits in
/-- An intrinsic that stops the run with what lies on top of the stack. -/
theorem stops (hwf : p.WellFormed) {intrinsic : Intrinsic} {fault : Fault}
    (hinstr : p.code[k]? = some (.callSymbol intrinsic.symbol))
    (hrun : ∀ site, p.runIntrinsic intrinsic (regs .esp) site store = .error fault store) :
    ∃ t, Machine.cycle p m = .error fault t := by
  have hfault := hrun (codeAddress k)
  rw [← h.store, ← h.reg] at hfault
  rw [Machine.cycle_callSymbol hwf h.pc hinstr,
    bind_of_error (Machine.onStore_of_error (m := m.fetched k) hfault)]
  exact ⟨_, rfl⟩

theorem throws (hwf : p.WellFormed) {intrinsic : Intrinsic} {fault : UInt32 → Fault}
    (hplaced : Placed p k (throwHere intrinsic)) (hroom : Memory.mapped (regs .esp - 4) 4 = true)
    (hrun : ∀ {sp site w : UInt32} {store : Store}, store.memory.read sp 4 = .ok w →
      p.runIntrinsic intrinsic sp site store = .error (fault w) store) :
    Ends (Machine.cycle p) (fault (codeAddress k)) m := by
  refine (h.callSite hfits hwf (hplaced.fetch 0 _ rfl)).reaches fun m₁ h₁ => ?_
  have hesp : update regs .eax (codeAddress k) .esp = regs .esp := update_of_ne (by decide) _ _
  refine (h₁.push hfits (w := codeAddress k) (hplaced.fetch 1 _ rfl) ?_ ?_).reaches fun m₂ h₂ => ?_
  · intro m' hreg
    show EStateM.Result.ok (m'.reg .eax) m' = _
    rw [hreg, update_self]
  · rwa [hesp]
  refine .here (h₂.stops hwf (hplaced.fetch 2 _ rfl) fun site => hrun ?_)
  rw [update_self, hesp]
  exact Store.read_withWord hroom _ _

theorem nullCheck_null (hwf : p.WellFormed) {ctx : EmitContext} {i : Instruction} {r : Reg}
    {rest : List Instr} (hplaced : Placed p k (nullCheck ctx i r ++ rest)) (hnull : regs r = 0)
    (hroom : Memory.mapped (regs .esp - 4) 4 = true) :
    Ends (Machine.cycle p) (.nullReference (codeAddress (k + 2))) m := by
  refine (h.test hfits (hplaced.fetch 0 _ rfl)).reaches fun m₁ h₁ => ?_
  refine (h₁.jcc_passed hfits (hplaced.fetch 1 _ rfl) ?_).reaches fun m₂ h₂ => ?_
  · intro flags hflag
    rw [Flags.holds, hflag, hnull]
    rfl
  have hthrow : Placed p (k + 2) (throwHere .throwNullReference) := hplaced.front.front.back
  exact h₂.throws hfits hwf hthrow hroom Program.runIntrinsic_throwNullReference

theorem nullCheck_object {ctx : EmitContext} {i : Instruction} {r : Reg} {rest : List Instr}
    (hplaced : Placed p k (nullCheck ctx i r ++ rest)) (hobject : regs r ≠ 0)
    (hnext : ∀ m' zero, Rests m' (k + 6) regs zero store → Reaches (Machine.cycle p) m' Q) :
    Reaches (Machine.cycle p) m Q := by
  have hnotNull : p.labels[ctx.inside i "NotNull" 0]? = some (k + 5) := hplaced.labels 5 _ _ rfl rfl
  refine (h.test hfits (hplaced.fetch 0 _ rfl)).reaches fun m₁ h₁ => ?_
  refine (h₁.jcc_taken hfits (hplaced.fetch 1 _ rfl) ?_ hnotNull).reaches fun m₂ h₂ => ?_
  · intro flags hflag
    rw [Flags.holds, hflag, beq_false_of_ne hobject]
    rfl
  exact (h₂.label hfits (hplaced.fetch 5 _ rfl)).reaches fun m₃ h₃ => hnext m₃ _ h₃

end Rests

end Stencil.X86
