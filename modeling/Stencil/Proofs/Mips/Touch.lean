import Stencil.Proofs.Access.Footprint
import Stencil.Proofs.Mips.Words

/-!
# What MIPS32 instructions touch

Each instruction that moves values between registers and memory, as a change of registers and store,
with the bytes that it touches. A branch is taken together with the `nop` in its delay slot, and a
product together with the instruction that fetches it.
-/

namespace Stencil.Mips

open AddressMap Function Stateful

instance : Storing Machine where
  store := Machine.store
  withStore m store := { m with store }
  store_withStore _ _ := rfl
  withStore_store _ := rfl

instance : Runner Instr Reg Machine where
  cycle := Machine.cycle
  reg := Machine.reg
  At m k := m.pc = codeAddress k ∧ m.npc = codeAddress (k + 1) ∧ m.reg .zero = 0
  sp := .sp
  strict := true

theorem snap_setReg (m : Machine) {r : Reg} (hr : r ≠ .zero) (w : UInt32) :
    snap Instr (m.setReg r w) = (snap Instr m).set r w := by
  have hregs : Machine.reg (m.setReg r w) = update (Machine.reg m) r w := by
    funext r'
    by_cases hr' : r' = r
    · rw [hr', Machine.reg_setReg_self _ _ hr, update_self]
    · rw [Machine.reg_setReg_of_ne _ _ hr', update_of_ne hr']
  have hstore : (m.setReg r w).store = m.store := Machine.setReg_store ..
  show Snapshot.mk (Machine.reg (m.setReg r w)) (m.setReg r w).store = _
  rw [hregs, hstore]
  rfl

/-! ## Parts of instructions -/

section Acts

variable {p : Program Instr} {touched : Set Nat} {m : Machine} {α : Type}

theorem withByte_setReg (m : Machine) (r : Reg) (w : UInt32) (c : Nat) (b : UInt8) :
    (withByte m c b).setReg r w = withByte (m.setReg r w) c b := by
  unfold Machine.setReg
  split <;> rfl

theorem acts_get (r : Reg) : Acts touched (Machine.get r) m (m.reg r) m := ⟨rfl, fun _ _ _ => rfl⟩

theorem acts_put (r : Reg) (w : UInt32) : Acts touched (Machine.put r w) m () (m.setReg r w) :=
  ⟨rfl, fun c _ b => congrArg (EStateM.Result.ok ()) (withByte_setReg m r w c b)⟩

theorem acts_lift {x : Except Fault α} {a : α} (h : x = .ok a) : Acts touched (Machine.lift x) m a m := by
  rw [h]
  exact .pure a

theorem acts_onStore {action : StoreM α} {a : α} {store : Store} (h : Acts touched action m.store a store) :
    Acts touched (Machine.onStore action) m a { m with store } := by
  refine ⟨Machine.onStore_of_ok h.ok, fun c hc b => ?_⟩
  have hstore : action (withByte m c b).store = .ok a (withByte store c b) := by
    have hblind := h.blind c hc b
    rwa [h.ok] at hblind
  rw [Machine.onStore_of_ok hstore, Machine.onStore_of_ok h.ok]
  rfl

theorem acts_address {width : Width} {offset : Int32} {base : Reg}
    (haligned : (m.reg base + offset.toUInt32).toNat % width.bytes = 0) :
    Acts touched (Machine.address width offset base) m (m.reg base + offset.toUInt32) m := by
  have hok : ∀ m' : Machine, m'.reg base = m.reg base →
      Machine.address width offset base m' = .ok (m.reg base + offset.toUInt32) m' := fun m' hreg => by
    have hget : Machine.get base m' = .ok (m.reg base) m' := by rw [← hreg]; rfl
    rw [Machine.address, bind_of_ok hget, if_neg (not_not_intro haligned)]
    rfl
  exact ⟨hok m rfl, fun c _ b => by rw [hok m rfl, hok (withByte m c b) rfl]; rfl⟩

theorem acts_cycle {k : Nat} {instr : Instr} {next : Option UInt32} {t : Machine}
    (hfits : p.code.size ≤ codeLimit) (hpc : m.pc = codeAddress k) (hinstr : p.code[k]? = some instr)
    (h : Acts touched (Machine.execute p instr) (m.fetched k) next t) :
    Acts touched (Machine.cycle p) m () (t.advance next) := by
  refine ⟨Machine.cycle_of_execute hfits hpc hinstr h.ok, fun c hc b => ?_⟩
  have hblind := h.blind c hc b
  rw [h.ok] at hblind
  rw [Machine.cycle_of_execute hfits hpc hinstr h.ok,
    Machine.cycle_of_execute (m := withByte m c b) hfits hpc hinstr hblind]
  rfl

end Acts

/-! ## Instructions -/

section Instructions

variable {p : Program Instr} {touched : Set Nat} {s : Snapshot Reg} (hfits : p.code.size ≤ codeLimit)

include hfits

theorem steps_of_acts {instr : Instr} {s' : Snapshot Reg}
    (h : ∀ m : Machine, snap Instr m = s → ∃ m', Acts touched (Machine.execute p instr) m none m' ∧
      m'.npc = m.npc ∧ m'.reg .zero = m.reg .zero ∧ snap Instr m' = s') :
    StepsWithin p touched instr s s' := by
  intro k m hinstr hat hm
  obtain ⟨hpc, hnpc, hzero⟩ := hat
  obtain ⟨m', hacts, hnpc', hzero', hm'⟩ := h (m.fetched k) hm
  refine ⟨m'.advance none, acts_cycle hfits hpc hinstr hacts, ⟨?_, ?_, ?_⟩, hm'⟩
  · rw [Machine.advance_pc, hnpc', Machine.fetched_npc, hnpc]
  · rw [Machine.advance_npc_none, hnpc', Machine.fetched_npc, hnpc, codeAddress_succ]
  · rw [Machine.advance_reg, hzero', Machine.fetched_reg, hzero]

theorem steps_still {instr : Instr} (h : Machine.execute p instr = pure none) :
    StepsWithin p touched instr s s :=
  steps_of_acts hfits fun m hm => ⟨m, by rw [h]; exact .pure none, rfl, rfl, hm⟩

theorem steps_label (l : Label) : StepsWithin p touched (.label l) s s := steps_still hfits rfl

theorem steps_nop : StepsWithin p touched .nop s s := steps_still hfits rfl

theorem steps_set {instr : Instr} {dst : Reg} {w : UInt32} (hdst : dst ≠ .zero)
    (h : ∀ m : Machine, snap Instr m = s →
      Acts touched (Machine.execute p instr) m none (m.setReg dst w)) :
    StepsWithin p touched instr s (s.set dst w) := by
  refine steps_of_acts hfits fun m hm => ⟨_, h m hm, Machine.setReg_npc .., ?_, ?_⟩
  · exact Machine.reg_setReg_of_ne _ _ hdst.symm
  · rw [snap_setReg m hdst, hm]

theorem steps_alu (op : AluOp) {dst : Reg} (lhs rhs : Reg) (hdst : dst ≠ .zero) :
    StepsWithin p touched (.alu op dst lhs rhs) s (s.set dst (alu op (s.regs lhs) (s.regs rhs))) := by
  refine steps_set hfits hdst fun m hm => ?_
  subst hm
  exact (acts_get lhs).bind ((acts_get rhs).bind ((acts_put dst _).bind (.pure none)))

theorem steps_addiu {dst : Reg} (src : Reg) (imm : Int32) (hdst : dst ≠ .zero) :
    StepsWithin p touched (.addiu dst src imm) s (s.set dst (s.regs src + imm.toUInt32)) := by
  refine steps_set hfits hdst fun m hm => ?_
  subst hm
  exact (acts_get src).bind ((acts_put dst _).bind (.pure none))

theorem steps_shift (op : ShiftOp) {dst : Reg} (src : Reg) (amount : UInt8) (hdst : dst ≠ .zero) :
    StepsWithin p touched (.shift op dst src amount) s
      (s.set dst (shiftBy op (s.regs src) amount.toUInt32)) := by
  refine steps_set hfits hdst fun m hm => ?_
  subst hm
  exact (acts_get src).bind ((acts_put dst _).bind (.pure none))

theorem steps_li {dst : Reg} (imm : Int32) (hdst : dst ≠ .zero) :
    StepsWithin p touched (.li dst imm) s (s.set dst imm.toUInt32) :=
  steps_set hfits hdst fun _ _ => (acts_put dst _).bind (.pure none)

theorem steps_la {dst : Reg} {symbol : Symbol} {a : UInt32} (hdst : dst ≠ .zero)
    (hresolve : p.resolve symbol = .ok a) : StepsWithin p touched (.la dst symbol) s (s.set dst a) :=
  steps_set hfits hdst fun _ _ => (acts_lift hresolve).bind ((acts_put dst a).bind (.pure none))

theorem steps_load {width : Width} {dst base : Reg} {offset : Int32} {a w : UInt32} (signed : Bool)
    (hdst : dst ≠ .zero) (ha : s.regs base + offset.toUInt32 = a) (haligned : a.toNat % width.bytes = 0)
    (hread : s.memory.read a width.bytes = .ok w)
    (htouched : Set.Ico a.toNat (a.toNat + width.bytes) ⊆ touched) :
    StepsWithin p touched (.load width signed dst offset base) s (s.set dst (extendLoad width signed w)) := by
  subst ha
  refine steps_set hfits hdst fun m hm => ?_
  subst hm
  exact (acts_address haligned).bind
    ((acts_onStore (Store.acts_read hread htouched)).bind ((acts_put dst _).bind (.pure none)))

theorem steps_store {width : Width} {src base : Reg} {offset : Int32} {a : UInt32}
    (ha : s.regs base + offset.toUInt32 = a) (haligned : a.toNat % width.bytes = 0)
    (hmapped : Memory.mapped a width.bytes = true)
    (htouched : Set.Ico a.toNat (a.toNat + width.bytes) ⊆ touched) :
    StepsWithin p touched (.store width src offset base) s (s.put a width.bytes (s.regs src)) := by
  subst ha
  refine steps_of_acts hfits fun m hm => ?_
  subst hm
  exact ⟨_, (acts_address haligned).bind ((acts_get src).bind
    ((acts_onStore (Store.acts_write _ hmapped htouched)).bind (.pure none))), rfl, rfl, rfl⟩

theorem steps_lw {dst base : Reg} {offset : Int32} {a w : UInt32} (hdst : dst ≠ .zero)
    (ha : s.regs base + offset.toUInt32 = a) (haligned : a.toNat % 4 = 0)
    (hread : s.memory.read a 4 = .ok w) (htouched : Set.Ico a.toNat (a.toNat + 4) ⊆ touched) :
    StepsWithin p touched (.lw dst offset base) s (s.set dst w) := by
  have hload : StepsWithin p touched (.load .word true dst offset base) s (s.set dst (extendLoad .word true w)) :=
    steps_load hfits true hdst ha haligned hread htouched
  rwa [extendLoad, if_pos rfl, show 8 * Width.word.bytes = 32 from rfl, signExtend_word] at hload

theorem steps_sw {src base : Reg} {offset : Int32} {a : UInt32} (ha : s.regs base + offset.toUInt32 = a)
    (haligned : a.toNat % 4 = 0) (hmapped : Memory.mapped a 4 = true)
    (htouched : Set.Ico a.toNat (a.toNat + 4) ⊆ touched) :
    StepsWithin p touched (.sw src offset base) s (s.put a 4 (s.regs src)) :=
  steps_store hfits ha haligned hmapped htouched

section Forms

variable {code : List Instr} {Q : Snapshot Reg → Prop} {E : Fault → Snapshot Reg → Prop}

/-- A push: the stack pointer moves, then the word is stored. -/
theorem Runs.push {r : Reg} (hr : r ≠ .sp) (haligned : (s.regs .sp).toNat % 4 = 0)
    (hmapped : Memory.mapped (s.regs .sp - 4) 4 = true)
    (htouched : Set.Ico (s.regs .sp - 4).toNat ((s.regs .sp - 4).toNat + 4) ⊆ touched)
    (h : Runs p touched code ((s.put (s.regs .sp - 4) 4 (s.regs r)).set .sp (s.regs .sp - 4)) Q E) :
    Runs p touched (Instr.push r ++ code) s Q E := by
  have hmoved : s.regs .sp + (-4 : Int32).toUInt32 = s.regs .sp - 4 := (UInt32.sub_eq_add_neg ..).symm
  refine .cons (steps_addiu hfits .sp (-4) (by decide)) ?_
  rw [hmoved]
  refine .cons (steps_store hfits (a := s.regs .sp - 4) ?_ ?_ hmapped htouched) ?_
  · rw [Snapshot.set_self]
    exact UInt32.add_zero _
  · exact aligned_sub_four haligned
  · rw [Snapshot.set_of_ne _ hr]
    exact h

/-- A pop: the word is loaded, then the stack pointer moves. -/
theorem Runs.pop {r : Reg} {w : UInt32} (hr : r ≠ .sp) (hzero : r ≠ .zero)
    (haligned : (s.regs .sp).toNat % 4 = 0) (hread : s.memory.read (s.regs .sp) 4 = .ok w)
    (htouched : Set.Ico (s.regs .sp).toNat ((s.regs .sp).toNat + 4) ⊆ touched)
    (h : Runs p touched code ((s.set r w).set .sp (s.regs .sp + 4)) Q E) :
    Runs p touched (Instr.pop r ++ code) s Q E := by
  refine .cons (steps_lw hfits hzero (UInt32.add_zero _) haligned hread htouched) <|
    .cons (steps_addiu hfits .sp 4 (by decide)) ?_
  rw [Snapshot.set_of_ne _ hr.symm]
  exact h

/-- A product and the instruction that fetches its low word. -/
theorem Runs.product {lhs rhs dst : Reg} (unsigned : Bool) (hdst : dst ≠ .zero)
    (h : Runs p touched code (s.set dst (s.regs lhs * s.regs rhs)) Q E) :
    Runs p touched (.mult lhs rhs unsigned :: .mflo dst :: code) s Q E := by
  intro base m hplaced hat hm
  subst hm
  obtain ⟨hpc, hnpc, hzero⟩ := hat
  let result := product unsigned (m.reg lhs) (m.reg rhs)
  let t := { m.fetched base with hi := (result >>> 32).toUInt32, lo := result.toUInt32 }.advance none
  let m' := ((t.fetched (base + 1)).setReg dst t.lo).advance none
  have hmult : Acts touched (Machine.cycle p) m () t := by
    refine acts_cycle hfits hpc (hplaced.fetch 0 _ rfl) ?_
    exact (acts_get lhs).bind ((acts_get rhs).bind (Acts.bind ⟨rfl, fun _ _ _ => rfl⟩ (.pure none)))
  have hmflo : Acts touched (Machine.cycle p) t () m' := by
    refine acts_cycle hfits hnpc (hplaced.fetch 1 _ rfl) ⟨rfl, fun c _ b => ?_⟩
    exact congrArg (EStateM.Result.ok none) (withByte_setReg (t.fetched (base + 1)) dst t.lo c b)
  have hnpc' : ((t.fetched (base + 1)).setReg dst t.lo).npc = codeAddress (base + 2) := by
    rw [Machine.setReg_npc]
    show m.npc + 4 = _
    rw [hnpc, codeAddress_succ]
  have hat' : Runner.At Instr m' (base + 2) := by
    refine ⟨hnpc', ?_, ?_⟩
    · rw [Machine.advance_npc_none, hnpc', codeAddress_succ]
    · rw [Machine.advance_reg, Machine.reg_setReg_of_ne _ _ hdst.symm]
      exact hzero
  have hm' : snap Instr m' = (snap Instr m).set dst (m.reg lhs * m.reg rhs) := by
    rw [← product_low unsigned]
    exact snap_setReg (t.fetched (base + 1)) hdst t.lo
  have hback : Placed p (base + [Instr.mult lhs rhs unsigned, .mflo dst].length) code := Placed.back hplaced
  refine .step hmult (.step hmflo ?_)
  rw [show base + (Instr.mult lhs rhs unsigned :: .mflo dst :: code).length = base + 2 + code.length by
    simp only [List.length_cons]; omega]
  exact h _ m' hback hat' hm'

/-! ## Branches and calls -/

/-- A transfer of control and the `nop` in its delay slot. -/
theorem goes_transfer {instr : Instr} {k : Nat} {m t : Machine} {target : UInt32} {P : Machine → Prop}
    {F : Fault → Machine → Prop}
    (hat : Runner.At Instr m k) (hplaced : Placed p k [instr, .nop])
    (h : Acts touched (Machine.execute p instr) (m.fetched k) (some target) t) (hnpc : t.npc = m.npc)
    (hnext : ∀ m' : Machine, m'.pc = target → m'.npc = target + 4 → snap Instr m' = snap Instr t →
      Goes (Machine.cycle p) touched P F m') :
    Goes (Machine.cycle p) touched P F m := by
  obtain ⟨hpc, hnpc', -⟩ := hat
  have hpc' : (t.advance (some target)).pc = codeAddress (k + 1) := by
    rw [Machine.advance_pc, hnpc, hnpc']
  refine .step (acts_cycle hfits hpc (hplaced.fetch 0 _ rfl) h) ?_
  exact .step (acts_cycle hfits hpc' (hplaced.fetch 1 _ rfl) (.pure none)) (hnext _ rfl rfl rfl)

omit hfits in
/-- The instruction goes to the label, or on, as its test of the registers has it. -/
def Branches (p : Program Instr) (instr : Instr) (l : Label) (s : Snapshot Reg) (answer : Bool) : Prop :=
  ∀ m : Machine, m.reg = s.regs → Machine.execute p instr m = Machine.branchAnswer p l answer m

theorem jumps_branch {instr : Instr} {l : Label} (h : Branches p instr l s true) :
    JumpsWithin p touched [instr, .nop] s l s := by
  intro base target m hplaced htarget hat hm
  subst hm
  have haddress : p.labelAddress l = .ok (codeAddress target) := by
    unfold Program.labelAddress
    rw [htarget]
  have hexecute : ∀ m' : Machine, m'.reg = m.reg →
      Machine.execute p instr m' = .ok (some (codeAddress target)) m' := fun m' hreg => by
    rw [h m' hreg]
    unfold Machine.branchAnswer
    rw [haddress]
  refine goes_transfer hfits hat hplaced (t := m.fetched base) ⟨hexecute _ rfl, fun c _ b => ?_⟩ rfl ?_
  · rw [hexecute (m.fetched base) rfl, hexecute (withByte (m.fetched base) c b) rfl]
    rfl
  · intro m' hpc hnpc hsnap
    rw [codeAddress_succ] at hnpc
    exact .stop ⟨⟨hpc, hnpc, (congrFun (congrArg Snapshot.regs hsnap) .zero).trans hat.2.2⟩, hsnap⟩

theorem steps_passed {instr : Instr} {l : Label} (h : Branches p instr l s false) :
    StepsWithin p touched instr s s := by
  refine steps_of_acts hfits fun m hm => ⟨m, ⟨?_, fun c _ b => ?_⟩, rfl, rfl, hm⟩
  · subst hm
    exact h m rfl
  · subst hm
    rw [h m rfl, h (withByte m c b) rfl]
    rfl

theorem Runs.passed {instr : Instr} {l : Label} (h : Branches p instr l s false)
    (h' : Runs p touched code s Q E) : Runs p touched (instr :: .nop :: code) s Q E :=
  .cons (steps_passed hfits h) (.cons (steps_nop hfits) h')

omit hfits

theorem branches_bne (lhs rhs : Reg) (l : Label) :
    Branches p (.branch false lhs rhs l) l s (s.regs lhs != s.regs rhs) := by
  intro m hm
  rw [Machine.execute_branch_apply, hm, beq_false]
  rfl

theorem branches_bltz (src : Reg) (l : Label) :
    Branches p (.branchZero .ltz src l) l s (decide ((s.regs src).toInt32 < 0)) := by
  intro m hm
  rw [Machine.execute_branchZero_apply, hm]
  rfl

theorem goes_call (hwf : p.WellFormed) {intrinsic : Intrinsic} {k : Nat} {m : Machine} {P : Machine → Prop}
    {F : Fault → Machine → Prop} (hat : Runner.At Instr m k)
    (hplaced : Placed p k (Instr.callSymbol intrinsic.symbol))
    (hnext : ∀ m' : Machine, Intrinsic.atAddress? m'.pc = some intrinsic →
      snap Instr m' = (snap Instr m).set .ra (codeAddress (k + 2)) → Goes (Machine.cycle p) touched P F m') :
    Goes (Machine.cycle p) touched P F m := by
  obtain ⟨address, hresolve, hintrinsic⟩ := hwf.intrinsics intrinsic
  have hra : m.pc + 8 = codeAddress (k + 2) := by
    rw [hat.1, show (8 : UInt32) = 4 + 4 from rfl, ← UInt32.add_assoc, codeAddress_succ, codeAddress_succ]
  have hlink : Acts touched Machine.link (m.fetched k) () ((m.fetched k).setReg .ra (codeAddress (k + 2))) := by
    rw [← hra]
    exact ⟨rfl, fun c _ b => congrArg (EStateM.Result.ok ()) (withByte_setReg (m.fetched k) .ra _ c b)⟩
  have hexecute : Acts touched (Machine.execute p (.jal intrinsic.symbol)) (m.fetched k) (some address)
      ((m.fetched k).setReg .ra (codeAddress (k + 2))) :=
    (acts_lift hresolve).bind (hlink.bind (.pure (some address)))
  refine goes_transfer hwf.fits hat hplaced hexecute (Machine.setReg_npc ..) fun m' hpc _ hm' => ?_
  refine hnext m' (by rw [hpc]; exact hintrinsic) (hm'.trans ?_)
  exact snap_setReg (m.fetched k) (by decide) _

theorem Runs.callSite (hwf : p.WellFormed)
    (h : ∀ ra site, Runs p touched code ((s.set .ra ra).set .v0 site) Q E) :
    Runs p touched (Instr.callSymbol Intrinsic.callSite.symbol ++ code) s Q E := by
  intro base m hplaced hat hm
  subst hm
  refine goes_call hwf hat hplaced.front fun m' hintrinsic hm' => ?_
  have hra : m'.reg .ra = codeAddress (base + 2) :=
    (congrFun (congrArg Snapshot.regs hm') .ra).trans (Snapshot.set_self ..)
  let site := codeAddress (base + 2) - 8
  have hcycle : ∀ m' : Machine, m'.reg .ra = codeAddress (base + 2) →
      Intrinsic.atAddress? m'.pc = some .callSite → Machine.cycle p m' = .ok () { m'.setReg .v0 site with
        pc := codeAddress (base + 2), npc := codeAddress (base + 2) + 4 } := by
    intro m' hra hintrinsic
    rw [Machine.cycle_intrinsic hintrinsic]
    show Machine.callIntrinsic p .callSite m' = _
    have hreturn : Machine.callIntrinsic p .callSite m' = .ok () { m'.setReg .v0 (m'.reg .ra - 8) with
      pc := m'.reg .ra, npc := m'.reg .ra + 4 } := rfl
    rw [hreturn, hra]
  have hacts : Acts touched (Machine.cycle p) m' () { m'.setReg .v0 site with
      pc := codeAddress (base + 2), npc := codeAddress (base + 2) + 4 } := by
    refine ⟨hcycle m' hra hintrinsic, fun c _ b => ?_⟩
    rw [hcycle m' hra hintrinsic, hcycle (withByte m' c b) hra hintrinsic, withByte_setReg]
    rfl
  refine .step hacts ?_
  rw [List.length_append, ← Nat.add_assoc]
  refine h (codeAddress (base + 2)) site _ _ hplaced.back ⟨rfl, codeAddress_succ _, ?_⟩ ?_
  · have hzero := congrFun (congrArg Snapshot.regs hm') .zero
    rw [Snapshot.set_of_ne _ (by decide)] at hzero
    show (m'.setReg .v0 site).reg .zero = 0
    rw [Machine.reg_setReg_of_ne _ _ (by decide)]
    exact hzero.trans hat.2.2
  · rw [← hm']
    exact snap_setReg m' (by decide) site

theorem Runs.raise (hwf : p.WellFormed) {intrinsic : Intrinsic} {fault : UInt32 → Fault}
    (hraises : Raises intrinsic fault) {w : UInt32} (hread : s.memory.read (s.regs .sp) 4 = .ok w)
    (htouched : Set.Ico (s.regs .sp).toNat ((s.regs .sp).toNat + 4) ⊆ touched)
    (hE : ∀ ra, E (fault w) (s.set .ra ra)) :
    Runs p touched (Instr.callSymbol intrinsic.symbol ++ code) s Q E := by
  intro base m hplaced hat hm
  subst hm
  refine goes_call hwf hat hplaced.front fun m' hintrinsic hm' => ?_
  have hstore : m'.store = m.store := congrArg Snapshot.store hm'
  have hsp : m'.reg .sp = m.reg .sp :=
    (congrFun (congrArg Snapshot.regs hm') .sp).trans (Snapshot.set_of_ne _ (by decide) _)
  have hread' : m'.store.memory.read (m'.reg .sp) 4 = .ok w := by
    rw [hstore, hsp]
    exact hread
  have htouched' : Set.Ico (m'.reg .sp).toNat ((m'.reg .sp).toNat + 4) ⊆ touched := by
    rw [hsp]
    exact htouched
  obtain ⟨hblind, hstops⟩ := hraises.stops p (m'.reg .ra - 8) hread' htouched'
  refine .fault (fun c hc b => ?_) (Machine.cycle_intrinsic_of_error hintrinsic hstops) ?_
  · have hblind' := hblind c hc b
    rw [hstops] at hblind'
    show Machine.cycle p _ = mapState _ (Machine.cycle p m')
    rw [Machine.cycle_intrinsic_of_error hintrinsic hstops,
      Machine.cycle_intrinsic_of_error (m := withByte m' c b) hintrinsic hblind']
    rfl
  · rw [hm']
    exact hE _

end Forms

end Instructions

end Stencil.Mips
