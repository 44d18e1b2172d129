import Stencil.Proofs.Mips.View
import Stencil.Proofs.Mips.Words
import Mathlib.Logic.Function.Basic

/-!
# Single instructions on MIPS32

Code that looks into memory outside of the stack is followed instruction by instruction: `Rests` says
where a machine is and what its registers are, and a lemma for each instruction says where it is next. A
branch is taken together with the `nop` in its delay slot.
-/

namespace Stencil.Mips

open AddressMap Stateful Function

/-- Where a machine stands, and what its registers and its store are. -/
structure Rests (m : Machine) (k : Nat) (regs : Reg → UInt32) (store : Store) : Prop where
  pc : m.pc = codeAddress k
  npc : m.npc = codeAddress (k + 1)
  reg : ∀ r, m.reg r = regs r
  store : m.store = store

/-- A call returns behind its delay slot. -/
theorem codeAddress_sub_eight (k : Nat) : codeAddress (k + 2) - 8 = codeAddress k := by
  rw [← codeAddress_succ, ← codeAddress_succ, UInt32.add_assoc, show (4 : UInt32) + 4 = 8 from rfl,
    UInt32.add_sub_cancel]

/-- The machine is in a delay slot, and goes to the target behind it. -/
structure Departs (m : Machine) (k : Nat) (target : UInt32) (regs : Reg → UInt32) (store : Store) : Prop where
  pc : m.pc = codeAddress k
  npc : m.npc = target
  reg : ∀ r, m.reg r = regs r
  store : m.store = store

/-- The machine is at the target, which may be the address of an intrinsic. -/
structure Lands (m : Machine) (target : UInt32) (regs : Reg → UInt32) (store : Store) : Prop where
  pc : m.pc = target
  npc : m.npc = target + 4
  reg : ∀ r, m.reg r = regs r
  store : m.store = store

theorem Lands.rests {m : Machine} {k : Nat} {regs : Reg → UInt32} {store : Store}
    (h : Lands m (codeAddress k) regs store) : Rests m k regs store where
  pc := h.pc
  npc := h.npc.trans (codeAddress_succ k)
  reg := h.reg
  store := h.store

theorem Departs.nop {p : Program Instr} {m : Machine} {k : Nat} {target : UInt32} {regs : Reg → UInt32}
    {store : Store} (h : Departs m k target regs store) (hfits : p.code.size ≤ codeLimit)
    (hnop : p.code[k]? = some .nop) :
    Succeeds (Machine.cycle p) m (Lands · target regs store) := by
  refine ⟨_, Machine.cycle_of_execute hfits h.pc hnop rfl, ?_, ?_, h.reg, h.store⟩
  · rw [Machine.advance_pc]
    exact h.npc
  · rw [Machine.advance_npc_none]
    exact congrArg (· + 4) h.npc

/-- The intrinsic that tells the call site returns behind the call. -/
theorem Lands.tells {p : Program Instr} {m : Machine} {k : Nat} {a : UInt32} {regs : Reg → UInt32} {store : Store}
    (h : Lands m a regs store) (hat : Intrinsic.atAddress? a = some .callSite) (hra : regs .ra = codeAddress (k + 2)) :
    Succeeds (Machine.cycle p) m (Rests · (k + 2) (update regs .v0 (codeAddress k)) store) := by
  have hra : m.reg .ra = codeAddress (k + 2) := (h.reg .ra).trans hra
  have hsite : m.reg .ra - 8 = codeAddress k := by rw [hra, codeAddress_sub_eight]
  have hcycle : Machine.cycle p m = .ok () { m.setReg .v0 (codeAddress k) with
      pc := codeAddress (k + 2), npc := codeAddress (k + 2) + 4 } := by
    rw [Machine.cycle_intrinsic (by rw [h.pc]; exact hat), ← hsite, ← hra]
    rfl
  refine ⟨_, hcycle, rfl, codeAddress_succ _, fun r => ?_, ?_⟩
  · show (m.setReg .v0 (codeAddress k)).reg r = _
    by_cases hr : r = .v0
    · rw [hr, Machine.reg_setReg_self _ _ (by decide), update_self]
    · rw [Machine.reg_setReg_of_ne _ _ hr, update_of_ne hr, h.reg]
  · show (m.setReg .v0 (codeAddress k)).store = _
    rw [Machine.setReg_store, h.store]

/-- An intrinsic that stops the run with what lies on top of the stack. -/
theorem Lands.stops {p : Program Instr} {m : Machine} {a : UInt32} {regs : Reg → UInt32} {store : Store}
    {intrinsic : Intrinsic} {fault : Fault} (h : Lands m a regs store) (hat : Intrinsic.atAddress? a = some intrinsic)
    (hrun : ∀ site, p.runIntrinsic intrinsic (regs .sp) site store = .error fault store) :
    ∃ t, Machine.cycle p m = .error fault t := by
  refine ⟨m, Machine.cycle_intrinsic_of_error (by rwa [h.pc]) ?_⟩
  rw [h.reg, h.store, hrun]

namespace Rests

variable {p : Program Instr} {m : Machine} {k : Nat} {regs : Reg → UInt32} {store : Store}
  {Q : Machine → Prop} (h : Rests m k regs store) (hfits : p.code.size ≤ codeLimit)

include h

theorem reg_setReg {r : Reg} (hr : r ≠ .zero) (w : UInt32) (r' : Reg) :
    (m.setReg r w).reg r' = update regs r w r' := by
  by_cases hr' : r' = r
  · rw [hr', Machine.reg_setReg_self _ _ hr, update_self]
  · rw [Machine.reg_setReg_of_ne _ _ hr', update_of_ne hr', h.reg]

theorem advance_npc : m.npc + 4 = codeAddress (k + 1 + 1) := by
  rw [h.npc, codeAddress_succ]

include hfits

theorem step {instr : Instr} {t : Machine} {regs' : Reg → UInt32} {store' : Store}
    (hinstr : p.code[k]? = some instr)
    (hexecute : Machine.execute p instr (m.fetched k) = .ok none t) (hnpc : t.npc = m.npc)
    (hreg : ∀ r, t.reg r = regs' r) (hstore : t.store = store') :
    Succeeds (Machine.cycle p) m (Rests · (k + 1) regs' store') := by
  refine ⟨_, Machine.cycle_of_execute hfits h.pc hinstr hexecute, ?_, ?_, hreg, hstore⟩
  · rw [Machine.advance_pc, hnpc, h.npc]
  · rw [Machine.advance_npc_none, hnpc, h.advance_npc]

theorem label {l : Label} (hinstr : p.code[k]? = some (.label l)) :
    Succeeds (Machine.cycle p) m (Rests · (k + 1) regs store) :=
  h.step hfits hinstr rfl rfl h.reg h.store

theorem nop (hinstr : p.code[k]? = some .nop) :
    Succeeds (Machine.cycle p) m (Rests · (k + 1) regs store) :=
  h.step hfits hinstr rfl rfl h.reg h.store

theorem set {instr : Instr} {dst : Reg} {w : UInt32} (hinstr : p.code[k]? = some instr)
    (hexecute : Machine.execute p instr (m.fetched k) = .ok none ((m.fetched k).setReg dst w))
    (hdst : dst ≠ .zero) :
    Succeeds (Machine.cycle p) m (Rests · (k + 1) (update regs dst w) store) := by
  refine h.step hfits hinstr hexecute (Machine.setReg_npc ..) (fun r => ?_) ?_
  · have hfetched : Rests (m.fetched k) k regs store := ⟨h.pc, h.npc, h.reg, h.store⟩
    exact hfetched.reg_setReg hdst w r
  · rw [Machine.setReg_store]
    exact h.store

theorem li {dst : Reg} {imm : Int32} (hinstr : p.code[k]? = some (.li dst imm)) (hdst : dst ≠ .zero) :
    Succeeds (Machine.cycle p) m (Rests · (k + 1) (update regs dst imm.toUInt32) store) :=
  h.set hfits hinstr rfl hdst

theorem addiu {dst src : Reg} {imm : Int32} (hinstr : p.code[k]? = some (.addiu dst src imm))
    (hdst : dst ≠ .zero) :
    Succeeds (Machine.cycle p) m (Rests · (k + 1) (update regs dst (regs src + imm.toUInt32)) store) := by
  refine h.set hfits hinstr ?_ hdst
  rw [← h.reg]
  rfl

theorem lw {dst base : Reg} {offset : Int32} {a : UInt32} (w : UInt32)
    (hinstr : p.code[k]? = some (.lw dst offset base)) (hdst : dst ≠ .zero)
    (ha : regs base + offset.toUInt32 = a) (haligned : a.toNat % 4 = 0)
    (hread : store.memory.read a 4 = .ok w) :
    Succeeds (Machine.cycle p) m (Rests · (k + 1) (update regs dst w) store) := by
  refine h.set hfits hinstr (Machine.execute_lw ?_ haligned ?_) hdst
  · rw [Machine.fetched_reg, h.reg, ha]
  · rw [Machine.fetched_store, h.store, hread]

/-- A load from an address that is not a multiple of its width. -/
theorem load_unaligned {width : Width} {signed : Bool} {dst base : Reg} {offset : Int32} {a : UInt32}
    (hinstr : p.code[k]? = some (.load width signed dst offset base))
    (ha : regs base + offset.toUInt32 = a) (hunaligned : a.toNat % width.bytes ≠ 0) :
    Ends (Machine.cycle p) (.unaligned a) m := by
  have haddress : Machine.address width offset base (m.fetched k) = .error (.unaligned a) (m.fetched k) := by
    unfold Machine.address
    rw [bind_of_ok (Machine.get_apply ..), Machine.fetched_reg, h.reg, ha]
    dsimp only
    rw [if_pos hunaligned]
    rfl
  refine .here ⟨m.fetched k, ?_⟩
  rw [Machine.cycle_at hfits h.pc hinstr, Machine.execute]
  exact bind_of_error (bind_of_error haddress)

theorem sw {src base : Reg} {offset : Int32} {a : UInt32}
    (hinstr : p.code[k]? = some (.sw src offset base)) (ha : regs base + offset.toUInt32 = a)
    (haligned : a.toNat % 4 = 0) (hmapped : Memory.mapped a 4 = true) :
    Succeeds (Machine.cycle p) m (Rests · (k + 1) regs (store.withWord a (regs src))) := by
  have ha' : (m.fetched k).reg base + offset.toUInt32 = a := by rw [Machine.fetched_reg, h.reg, ha]
  refine h.step hfits hinstr (Machine.execute_sw ha' haligned hmapped) rfl h.reg ?_
  rw [Machine.fetched_store, Machine.fetched_reg, h.store, h.reg]

theorem la {dst : Reg} {symbol : Symbol} {address : UInt32} (hinstr : p.code[k]? = some (.la dst symbol))
    (hdst : dst ≠ .zero) (hresolve : p.resolve symbol = .ok address) :
    Succeeds (Machine.cycle p) m (Rests · (k + 1) (update regs dst address) store) := by
  refine h.set hfits hinstr ?_ hdst
  rw [Machine.execute, hresolve]
  rfl

theorem move {dst src : Reg} (hinstr : p.code[k]? = some (.move dst src)) (hdst : dst ≠ .zero) :
    Succeeds (Machine.cycle p) m (Rests · (k + 1) (update regs dst (regs src)) store) := by
  refine h.set hfits hinstr ?_ hdst
  rw [← h.reg]
  rfl

theorem pop {dst : Reg} {w : UInt32} (hplaced : Placed p k (Instr.pop dst)) (hdst : dst ≠ .zero)
    (hsp : dst ≠ .sp) (haligned : (regs .sp).toNat % 4 = 0)
    (hread : store.memory.read (regs .sp) 4 = .ok w)
    (hnext : ∀ m', Rests m' (k + 2) (update (update regs dst w) .sp (regs .sp + 4)) store →
      Reaches (Machine.cycle p) m' Q) :
    Reaches (Machine.cycle p) m Q := by
  refine (h.lw hfits w (hplaced.fetch 0 _ rfl) hdst (add_zero_offset _) haligned hread).reaches fun m₁ h₁ => ?_
  refine (h₁.addiu hfits (hplaced.fetch 1 _ rfl) (by decide)).reaches fun m₂ h₂ => ?_
  rw [update_of_ne hsp.symm] at h₂
  exact hnext m₂ h₂

theorem push {src : Reg} (hplaced : Placed p k (Instr.push src)) (hsrc : src ≠ .sp)
    (haligned : (regs .sp).toNat % 4 = 0) (hroom : Memory.mapped (regs .sp - 4) 4 = true)
    (hnext : ∀ m', Rests m' (k + 2) (update regs .sp (regs .sp - 4))
      (store.withWord (regs .sp - 4) (regs src)) → Reaches (Machine.cycle p) m' Q) :
    Reaches (Machine.cycle p) m Q := by
  refine (h.addiu hfits (hplaced.fetch 0 _ rfl) (by decide)).reaches fun m₁ h₁ => ?_
  rw [add_minus_four] at h₁
  refine (h₁.sw hfits (hplaced.fetch 1 _ rfl) (a := regs .sp - 4) ?_ (aligned_sub_four haligned) hroom).reaches
    fun m₂ h₂ => ?_
  · rw [update_self, add_zero_offset]
  · rw [update_of_ne hsrc] at h₂
    exact hnext m₂ h₂

theorem depart {instr : Instr} {t : Machine} {target : UInt32} {regs' : Reg → UInt32}
    (hinstr : p.code[k]? = some instr)
    (hexecute : Machine.execute p instr (m.fetched k) = .ok (some target) t) (hnpc : t.npc = m.npc)
    (hreg : ∀ r, t.reg r = regs' r) (hstore : t.store = store) :
    Succeeds (Machine.cycle p) m (Departs · (k + 1) target regs' store) := by
  refine ⟨_, Machine.cycle_of_execute hfits h.pc hinstr hexecute, ?_, rfl, hreg, hstore⟩
  rw [Machine.advance_pc, hnpc, h.npc]

/-- A transfer of control and the `nop` in its delay slot. -/
theorem transfer {instr : Instr} {t : Machine} {target : UInt32} {regs' : Reg → UInt32}
    (hinstr : p.code[k]? = some instr) (hnop : p.code[k + 1]? = some .nop)
    (hexecute : Machine.execute p instr (m.fetched k) = .ok (some target) t) (hnpc : t.npc = m.npc)
    (hreg : ∀ r, t.reg r = regs' r) (hstore : t.store = store)
    (hnext : ∀ m', Lands m' target regs' store → Reaches (Machine.cycle p) m' Q) :
    Reaches (Machine.cycle p) m Q := by
  refine (h.depart hfits hinstr hexecute hnpc hreg hstore).reaches fun m₁ h₁ => ?_
  exact (h₁.nop hfits hnop).reaches hnext

theorem jump {l : Label} {target : Nat} (hinstr : p.code[k]? = some (.j l))
    (hnop : p.code[k + 1]? = some .nop) (hlabel : p.labels[l]? = some target)
    (hnext : ∀ m', Rests m' target regs store → Reaches (Machine.cycle p) m' Q) :
    Reaches (Machine.cycle p) m Q := by
  have haddress : p.labelAddress l = .ok (codeAddress target) := by
    unfold Program.labelAddress
    rw [hlabel]
  have hexecute : Machine.execute p (.j l) (m.fetched k) =
      .ok (some (codeAddress target)) (m.fetched k) := by
    rw [Machine.execute_j_apply]
    unfold Machine.branchAnswer
    rw [haddress]
  refine h.transfer hfits hinstr hnop hexecute rfl h.reg h.store fun m' h' => hnext m' h'.rests

theorem branch_taken {onEqual : Bool} {lhs rhs : Reg} {l : Label} {target : Nat}
    (hinstr : p.code[k]? = some (.branch onEqual lhs rhs l)) (hnop : p.code[k + 1]? = some .nop)
    (hcond : (regs lhs == regs rhs) = onEqual) (hlabel : p.labels[l]? = some target)
    (hnext : ∀ m', Rests m' target regs store → Reaches (Machine.cycle p) m' Q) :
    Reaches (Machine.cycle p) m Q := by
  have haddress : p.labelAddress l = .ok (codeAddress target) := by
    unfold Program.labelAddress
    rw [hlabel]
  have hexecute : Machine.execute p (.branch onEqual lhs rhs l) (m.fetched k) =
      .ok (some (codeAddress target)) (m.fetched k) := by
    rw [Machine.execute_branch_apply, Machine.fetched_reg, Machine.fetched_reg, h.reg, h.reg, hcond,
      beq_self_eq_true]
    unfold Machine.branchAnswer
    rw [haddress]
  refine h.transfer hfits hinstr hnop hexecute rfl h.reg h.store fun m' h' => hnext m' h'.rests

/-- A branch that is not taken goes on to its delay slot in order. -/
theorem branch_passes {onEqual : Bool} {lhs rhs : Reg} {l : Label}
    (hinstr : p.code[k]? = some (.branch onEqual lhs rhs l)) (hcond : (regs lhs == regs rhs) = !onEqual) :
    Succeeds (Machine.cycle p) m (Rests · (k + 1) regs store) := by
  have hexecute : Machine.execute p (.branch onEqual lhs rhs l) (m.fetched k) =
      .ok none (m.fetched k) := by
    rw [Machine.execute_branch_apply, Machine.fetched_reg, Machine.fetched_reg, h.reg, h.reg, hcond]
    cases onEqual <;> rfl
  exact h.step hfits hinstr hexecute rfl h.reg h.store

theorem branch_passed {onEqual : Bool} {lhs rhs : Reg} {l : Label}
    (hinstr : p.code[k]? = some (.branch onEqual lhs rhs l)) (hnop : p.code[k + 1]? = some .nop)
    (hcond : (regs lhs == regs rhs) = !onEqual)
    (hnext : ∀ m', Rests m' (k + 1 + 1) regs store → Reaches (Machine.cycle p) m' Q) :
    Reaches (Machine.cycle p) m Q := by
  refine (h.branch_passes hfits hinstr hcond).reaches fun m₁ h₁ => ?_
  exact (h₁.nop hfits hnop).reaches hnext

omit hfits in
theorem link : (m.fetched k).pc + 8 = codeAddress (k + 2) := by
  rw [Machine.fetched_pc, h.pc, show (8 : UInt32) = 4 + 4 from rfl, ← UInt32.add_assoc, codeAddress_succ,
    codeAddress_succ]

theorem call {symbol : Symbol} {address : UInt32} (hinstr : p.code[k]? = some (.jal symbol))
    (hresolve : p.resolve symbol = .ok address) :
    Succeeds (Machine.cycle p) m (Departs · (k + 1) address (update regs .ra (codeAddress (k + 2))) store) := by
  have hexecute : Machine.execute p (.jal symbol) (m.fetched k) =
      .ok (some address) ((m.fetched k).setReg .ra (codeAddress (k + 2))) := by
    simp only [Machine.execute, bind_apply, hresolve, Machine.lift, pure_apply, Machine.link, h.link]
  have hfetched : Rests (m.fetched k) k regs store := ⟨h.pc, h.npc, h.reg, h.store⟩
  refine h.depart hfits hinstr hexecute (Machine.setReg_npc ..) (hfetched.reg_setReg (by decide) _) ?_
  rw [Machine.setReg_store]
  exact h.store

theorem callSymbol {symbol : Symbol} {address : UInt32} (hinstr : p.code[k]? = some (.jal symbol))
    (hnop : p.code[k + 1]? = some .nop) (hresolve : p.resolve symbol = .ok address)
    (hnext : ∀ m', Lands m' address (update regs .ra (codeAddress (k + 2))) store →
      Reaches (Machine.cycle p) m' Q) :
    Reaches (Machine.cycle p) m Q := by
  refine (h.call hfits hinstr hresolve).reaches fun m₁ h₁ => ?_
  exact (h₁.nop hfits hnop).reaches hnext

theorem callReg {r : Reg} (hinstr : p.code[k]? = some (.jalr r)) (hnop : p.code[k + 1]? = some .nop)
    (hnext : ∀ m', Lands m' (regs r) (update regs .ra (codeAddress (k + 2))) store →
      Reaches (Machine.cycle p) m' Q) :
    Reaches (Machine.cycle p) m Q := by
  have hexecute : Machine.execute p (.jalr r) (m.fetched k) =
      .ok (some (regs r)) ((m.fetched k).setReg .ra (codeAddress (k + 2))) := by
    rw [← h.reg, ← h.link]
    rfl
  have hfetched : Rests (m.fetched k) k regs store := ⟨h.pc, h.npc, h.reg, h.store⟩
  refine h.transfer hfits hinstr hnop hexecute (Machine.setReg_npc ..)
    (hfetched.reg_setReg (by decide) _) ?_ hnext
  rw [Machine.setReg_store]
  exact h.store

theorem callSite (hwf : p.WellFormed)
    (hinstr : p.code[k]? = some (.jal Intrinsic.callSite.symbol)) (hnop : p.code[k + 1]? = some .nop)
    (hnext : ∀ m', Rests m' (k + 2)
      (update (update regs .ra (codeAddress (k + 2))) .v0 (codeAddress k)) store →
        Reaches (Machine.cycle p) m' Q) :
    Reaches (Machine.cycle p) m Q := by
  obtain ⟨address, hresolve, hat⟩ := hwf.intrinsics .callSite
  refine h.callSymbol hfits hinstr hnop hresolve fun m' h' => ?_
  exact (h'.tells hat (update_self ..)).reaches hnext

/-- An intrinsic that stops the run with what lies on top of the stack. -/
theorem stops (hwf : p.WellFormed) {intrinsic : Intrinsic} {fault : Fault}
    (hinstr : p.code[k]? = some (.jal intrinsic.symbol)) (hnop : p.code[k + 1]? = some .nop)
    (hrun : ∀ site, p.runIntrinsic intrinsic (regs .sp) site store = .error fault store) :
    Ends (Machine.cycle p) fault m := by
  obtain ⟨address, hresolve, hat⟩ := hwf.intrinsics intrinsic
  refine h.callSymbol hfits hinstr hnop hresolve fun m' h' => .here (h'.stops hat fun site => ?_)
  rw [update_of_ne (by decide)]
  exact hrun site

theorem throws (hwf : p.WellFormed) {intrinsic : Intrinsic} {fault : UInt32 → Fault}
    (hplaced : Placed p k (throwHere intrinsic)) (hsp : (regs .sp).toNat % 4 = 0)
    (hroom : Memory.mapped (regs .sp - 4) 4 = true)
    (hrun : ∀ {sp site w : UInt32} {store : Store}, store.memory.read sp 4 = .ok w →
      p.runIntrinsic intrinsic sp site store = .error (fault w) store) :
    Ends (Machine.cycle p) (fault (codeAddress k)) m := by
  refine h.callSite hfits hwf (hplaced.fetch 0 _ rfl) (hplaced.fetch 1 _ rfl) fun m₁ h₁ => ?_
  refine (h₁.addiu hfits (hplaced.fetch 2 _ rfl) (by decide)).reaches fun m₂ h₂ => ?_
  rw [update_of_ne (by decide : Reg.sp ≠ .v0), update_of_ne (by decide : Reg.sp ≠ .ra),
    add_minus_four] at h₂
  refine (h₂.sw hfits (hplaced.fetch 3 _ rfl) (add_zero_offset _) (aligned_sub_four hsp) hroom).reaches
    fun m₃ h₃ => ?_
  refine h₃.stops hfits hwf (hplaced.fetch 4 _ rfl) (hplaced.fetch 5 _ rfl) fun site => hrun ?_
  rw [update_self, update_of_ne (by decide), update_self]
  exact Store.read_withWord hroom _ _

theorem nullCheck_null (hwf : p.WellFormed) {ctx : EmitContext} {i : Instruction} {r : Reg}
    {rest : List Instr} (hplaced : Placed p k (nullCheck ctx i r ++ rest)) (hzero : regs .zero = 0)
    (hnull : regs r = 0) (hsp : (regs .sp).toNat % 4 = 0)
    (hroom : Memory.mapped (regs .sp - 4) 4 = true) :
    Ends (Machine.cycle p) (.nullReference (codeAddress (k + 2))) m := by
  refine h.branch_passed hfits (hplaced.fetch 0 _ rfl) (hplaced.fetch 1 _ rfl) ?_ fun m₁ h₁ => ?_
  · rw [hnull, hzero]
    rfl
  have hthrow : Placed p (k + 2) (throwHere .throwNullReference) := hplaced.front.front.back
  exact h₁.throws hfits hwf hthrow hsp hroom Program.runIntrinsic_throwNullReference

theorem nullCheck_object {ctx : EmitContext} {i : Instruction} {r : Reg} {rest : List Instr}
    (hplaced : Placed p k (nullCheck ctx i r ++ rest)) (hzero : regs .zero = 0) (hobject : regs r ≠ 0)
    (hnext : ∀ m', Rests m' (k + 9) regs store → Reaches (Machine.cycle p) m' Q) :
    Reaches (Machine.cycle p) m Q := by
  have hnotNull : p.labels[ctx.inside i "NotNull" 0]? = some (k + 8) := hplaced.labels 8 _ _ rfl rfl
  refine h.branch_taken hfits (hplaced.fetch 0 _ rfl) (hplaced.fetch 1 _ rfl) ?_ hnotNull
    fun m₁ h₁ => ?_
  · rw [hzero]
    exact beq_false_of_ne hobject
  exact (h₁.label hfits (hplaced.fetch 8 _ rfl)).reaches hnext

/-- An address that is pushed and popped again, and is not null. -/
theorem pushed_address {src : Reg} {ctx : EmitContext} {i : Instruction} {rest : List Instr}
    (hplaced : Placed p k (Instr.push src ++ (Instr.pop .t0 ++ (nullCheck ctx i .t0 ++ rest))))
    (hsrc : src ≠ .sp) (hsp : (regs .sp).toNat % 4 = 0) (hroom : Memory.mapped (regs .sp - 4) 4 = true)
    (hzero : regs .zero = 0) (hobject : regs src ≠ 0)
    (hnext : ∀ m' store', Rests m' (k + 13) (update regs .t0 (regs src)) store' →
      Reaches (Machine.cycle p) m' Q) :
    Reaches (Machine.cycle p) m Q := by
  have hback : update (update (update regs .sp (regs .sp - 4)) .t0 (regs src)) .sp (regs .sp - 4 + 4) =
      update regs .t0 (regs src) := by
    rw [UInt32.sub_add_cancel, update_comm (by decide), update_idem, update_eq_self]
  refine h.push hfits hplaced.front hsrc hsp hroom fun m₁ h₁ => ?_
  refine h₁.pop hfits hplaced.back.front (by decide) (by decide) (w := regs src) ?_ ?_ fun m₂ h₂ => ?_
  · rw [update_self]
    exact aligned_sub_four hsp
  · rw [update_self]
    exact Store.read_withWord hroom _ _
  rw [update_self, hback] at h₂
  refine h₂.nullCheck_object hfits hplaced.back.back ?_ ?_ fun m₃ h₃ => hnext m₃ _ h₃
  · rw [update_of_ne (by decide), hzero]
  · rwa [update_self]

end Rests

end Stencil.Mips
