import Stencil.Proofs.Access.Footprint
import Stencil.Proofs.X86.Machine
import Stencil.Proofs.X86.Words

/-!
# What x86 instructions touch

Each instruction that moves values between registers and memory, as a change of registers and store,
with the bytes that it touches. A comparison is taken together with the jump that reads its flags.
-/

namespace Stencil.X86

open AddressMap Function Stateful Meaning

instance : Storing Machine where
  store := Machine.store
  withStore m store := { m with store }
  store_withStore _ _ := rfl
  withStore_store _ := rfl

instance : Runner Instr Reg Machine where
  cycle := Machine.cycle
  reg := Machine.reg
  At m k := m.pc = codeAddress k
  sp := .esp
  strict := false

theorem snap_setReg (m : Machine) (r : Reg) (w : UInt32) :
    snap Instr (m.setReg r w) = (snap Instr m).set r w := by
  have hregs : Machine.reg (m.setReg r w) = update (Machine.reg m) r w := by
    funext r'
    by_cases hr : r' = r
    · rw [hr, Machine.reg_setReg_self, update_self]
    · rw [Machine.reg_setReg_of_ne _ _ hr, update_of_ne hr]
  exact congrArg (Snapshot.mk · m.store) hregs

/-! ## Addresses of operands -/

/-- With these registers the operand has the address. -/
def Mem.Names (p : Program Instr) (mem : Mem) (regs : Reg → UInt32) (a : UInt32) : Prop :=
  ∃ symbol, mem.symbol.elim (symbol = 0) (p.resolve · = .ok symbol) ∧
    a = mem.disp.toUInt32 + (mem.base.map regs).getD 0 + symbol

namespace Mem.Names

variable {p : Program Instr} {mem : Mem} {regs : Reg → UInt32} {a : UInt32}

theorem based (p : Program Instr) (r : Reg) (disp : Int32) (regs : Reg → UInt32) :
    (Mem.based r disp).Names p regs (regs r + disp.toUInt32) := by
  refine ⟨0, rfl, ?_⟩
  rw [UInt32.add_comm]
  exact (UInt32.add_zero _).symm

theorem global {symbol : Symbol} (h : p.resolve symbol = .ok a) : (Mem.global symbol).Names p regs a := by
  refine ⟨a, h, ?_⟩
  show a = 0 + 0 + a
  rw [UInt32.add_zero, UInt32.zero_add]

theorem offset (h : mem.Names p regs a) (delta : Int32) :
    (mem.offset delta).Names p regs (a + delta.toUInt32) := by
  obtain ⟨symbol, hsymbol, rfl⟩ := h
  refine ⟨symbol, hsymbol, ?_⟩
  show _ = (mem.disp + delta).toUInt32 + (mem.base.map regs).getD 0 + symbol
  rw [Int32.toUInt32_add]
  ac_rfl

theorem word (h : mem.Names p regs a) (k : Nat) :
    (mem.word k).Names p regs (a + UInt32.ofNat (4 * k)) := h.offset _

theorem congr {regs' : Reg → UInt32} (h : mem.Names p regs a)
    (hregs : ∀ r, mem.base = some r → regs' r = regs r) : mem.Names p regs' a := by
  obtain ⟨symbol, hsymbol, rfl⟩ := h
  refine ⟨symbol, hsymbol, ?_⟩
  cases hbase : mem.base with
  | none => rfl
  | some r => simp only [Option.map_some, Option.getD_some, hregs r hbase]

end Mem.Names

/-! ## Parts of instructions -/

section Acts

variable {p : Program Instr} {touched : Set Nat} {m : Machine} {α : Type}

theorem acts_get (r : Reg) : Acts touched (Machine.get r) m (m.reg r) m := ⟨rfl, fun _ _ _ => rfl⟩

theorem acts_put (r : Reg) (w : UInt32) : Acts touched (Machine.put r w) m () (m.setReg r w) :=
  ⟨rfl, fun _ _ _ => rfl⟩

theorem acts_setFlags (f : Flags → Flags) :
    Acts touched (Machine.setFlags f) m () { m with flags := f m.flags } := ⟨rfl, fun _ _ _ => rfl⟩

/-- What is done with the machine does not depend on its memory. -/
theorem acts_state {f : Machine → Run α} {a : α} {m' : Machine} (h : Acts touched (f m) m a m')
    (hf : ∀ c b, f (withByte m c b) = f m) : Acts touched (EStateM.get >>= f) m a m' := by
  refine ⟨h.ok, fun c hc b => ?_⟩
  show f (withByte m c b) (withByte m c b) = _
  rw [hf]
  exact h.blind c hc b

theorem acts_lift {x : Except Fault α} {a : α} (h : x = .ok a) : Acts touched (Machine.lift x) m a m := by
  rw [h]
  exact .pure a

theorem acts_onStore {action : StoreM α} {a : α} {store : Store} (h : Acts touched action m.store a store) :
    Acts touched (Machine.onStore action) m a { m with store } := by
  refine ⟨Machine.onStore_of_ok h.ok, fun c hc b => ?_⟩
  have hstore : action (withByte m c b).store = .ok a (withByte store c b) := by
    have hblind := h.blind c hc b
    rwa [h.ok] at hblind
  rw [Machine.onStore_of_ok hstore, Machine.onStore_of_ok h.ok]
  rfl

theorem acts_address {mem : Mem} {a : UInt32} (h : mem.Names p m.reg a) :
    Acts touched (Machine.address p mem) m a m := by
  obtain ⟨symbol, hsymbol, rfl⟩ := h
  obtain ⟨base, name, disp⟩ := mem
  have hbase : Acts touched (base.elim (pure 0) Machine.get) m ((base.map m.reg).getD 0) m := by
    cases base with
    | none => exact .pure 0
    | some r => exact acts_get r
  have hresolve : Acts touched (name.elim (pure 0) fun s => Machine.lift (p.resolve s)) m symbol m := by
    cases name with
    | none =>
      obtain rfl : symbol = 0 := hsymbol
      exact .pure 0
    | some s => exact acts_lift hsymbol
  have hsum : Acts touched (base.elim (pure 0) Machine.get >>= fun b =>
      (name.elim (pure 0) fun s => Machine.lift (p.resolve s)) >>= fun s => pure (disp.toUInt32 + b + s)) m
      (disp.toUInt32 + (base.map m.reg).getD 0 + symbol) m := hbase.bind (hresolve.bind (.pure _))
  cases base <;> cases name <;> exact hsum

theorem acts_readMem {mem : Mem} {a w : UInt32} {width : Width} (hnames : mem.Names p m.reg a)
    (hread : m.store.memory.read a width.bytes = .ok w)
    (htouched : Set.Ico a.toNat (a.toNat + width.bytes) ⊆ touched) :
    Acts touched (Machine.read p (.mem width mem)) m w m :=
  (acts_address hnames).bind (acts_onStore (Store.acts_read hread htouched))

theorem acts_writeMem {mem : Mem} {a : UInt32} {width : Width} (w : UInt32) (hnames : mem.Names p m.reg a)
    (hmapped : Memory.mapped a width.bytes = true)
    (htouched : Set.Ico a.toNat (a.toNat + width.bytes) ⊆ touched) :
    Acts touched (Machine.write p w (.mem width mem)) m () { m with store := m.store.put a width.bytes w } :=
  (acts_address hnames).bind (acts_onStore (Store.acts_write w hmapped htouched))

theorem acts_push (w : UInt32) (hmapped : Memory.mapped (m.reg .esp - 4) 4 = true)
    (htouched : Set.Ico (m.reg .esp - 4).toNat ((m.reg .esp - 4).toNat + 4) ⊆ touched) :
    Acts touched (Machine.push w) m ()
      ({ m with store := m.store.put (m.reg .esp - 4) 4 w }.setReg .esp (m.reg .esp - 4)) :=
  (acts_get .esp).bind ((acts_onStore (Store.acts_write w hmapped htouched)).bind (acts_put _ _))

theorem acts_pop {w : UInt32} (hread : m.store.memory.read (m.reg .esp) 4 = .ok w)
    (htouched : Set.Ico (m.reg .esp).toNat ((m.reg .esp).toNat + 4) ⊆ touched) :
    Acts touched Machine.pop m w (m.setReg .esp (m.reg .esp + 4)) :=
  (acts_get .esp).bind ((acts_onStore (Store.acts_read hread htouched)).bind ((acts_put _ _).bind (.pure w)))

end Acts

/-! ## Instructions -/

section Instructions

variable {p : Program Instr} {touched : Set Nat} {s : Snapshot Reg} (hfits : p.code.size ≤ codeLimit)

include hfits

theorem steps_of_acts {instr : Instr} {s' : Snapshot Reg}
    (h : ∀ (m : Machine) (site : UInt32), snap Instr m = s →
      ∃ m', Acts touched (Machine.execute p site instr) m () m' ∧ m'.pc = m.pc ∧ snap Instr m' = s') :
    StepsWithin p touched instr s s' := by
  intro k m hinstr hat hm
  obtain ⟨m', hacts, hpc, hm'⟩ := h (m.fetched k) (codeAddress k) hm
  refine ⟨m', ⟨?_, fun c hc b => ?_⟩, hpc, hm'⟩
  · exact (Machine.cycle_at hfits hat hinstr).trans hacts.ok
  · have hat' : (withByte m c b).pc = codeAddress k := hat
    show Machine.cycle p _ = mapState _ (Machine.cycle p m)
    rw [Machine.cycle_at hfits hat' hinstr, Machine.cycle_at hfits hat hinstr]
    exact hacts.blind c hc b

theorem steps_label (l : Label) : StepsWithin p touched (.label l) s s :=
  steps_of_acts hfits fun m _ hm => ⟨m, .pure (), rfl, hm⟩

theorem steps_movzx {dst : Reg} {width : Width} {mem : Mem} {a w : UInt32} (hnames : mem.Names p s.regs a)
    (hread : s.memory.read a width.bytes = .ok w)
    (htouched : Set.Ico a.toNat (a.toNat + width.bytes) ⊆ touched) :
    StepsWithin p touched (.movzx dst (.mem width mem)) s (s.set dst w) := by
  refine steps_of_acts hfits fun m _ hm => ?_
  subst hm
  exact ⟨m.setReg dst w, (acts_readMem hnames hread htouched).bind (acts_put dst w), rfl, snap_setReg m dst w⟩

theorem steps_movsx {dst : Reg} {width : Width} {mem : Mem} {a w : UInt32} (hnames : mem.Names p s.regs a)
    (hread : s.memory.read a width.bytes = .ok w)
    (htouched : Set.Ico a.toNat (a.toNat + width.bytes) ⊆ touched) :
    StepsWithin p touched (.movsx dst (.mem width mem)) s (s.set dst (Word.signExtend (8 * width.bytes) w)) := by
  refine steps_of_acts hfits fun m _ hm => ?_
  subst hm
  exact ⟨_, (acts_readMem hnames hread htouched).bind (acts_put dst _), rfl, snap_setReg m dst _⟩

theorem steps_load {dst : Reg} {mem : Mem} {a w : UInt32} (hnames : mem.Names p s.regs a)
    (hread : s.memory.read a 4 = .ok w) (htouched : Set.Ico a.toNat (a.toNat + 4) ⊆ touched) :
    StepsWithin p touched (.load dst mem) s (s.set dst w) := by
  refine steps_of_acts hfits fun m _ hm => ?_
  subst hm
  have hvalue : Acts touched (Machine.read p (.mem .dword mem)) m w m := acts_readMem hnames hread htouched
  exact ⟨m.setReg dst w, hvalue.bind (acts_put dst w), rfl, snap_setReg m dst w⟩

theorem steps_storePart {src : Reg} {width : Width} {mem : Mem} {a : UInt32} (hnames : mem.Names p s.regs a)
    (hmapped : Memory.mapped a width.bytes = true)
    (htouched : Set.Ico a.toNat (a.toNat + width.bytes) ⊆ touched) :
    StepsWithin p touched (.storePart width mem src) s (s.put a width.bytes
      (UInt32.ofNat ((s.regs src).toNat % Word.modulus (8 * width.bytes)))) := by
  refine steps_of_acts hfits fun m _ hm => ?_
  subst hm
  let low := UInt32.ofNat ((m.reg src).toNat % Word.modulus (8 * width.bytes))
  have hlow : Acts touched (Machine.read p (.part src width)) m low m := (acts_get src).bind (.pure low)
  exact ⟨_, hlow.bind (acts_writeMem low hnames hmapped htouched), rfl, rfl⟩

theorem steps_storeImm {value : Int32} {width : Width} {mem : Mem} {a : UInt32}
    (hnames : mem.Names p s.regs a) (hmapped : Memory.mapped a width.bytes = true)
    (htouched : Set.Ico a.toNat (a.toNat + width.bytes) ⊆ touched) :
    StepsWithin p touched (.mov (.mem width mem) (.imm value)) s (s.put a width.bytes value.toUInt32) := by
  refine steps_of_acts hfits fun m _ hm => ?_
  subst hm
  have hvalue : Acts touched (Machine.read p (.imm value)) m value.toUInt32 m := .pure _
  exact ⟨_, hvalue.bind (acts_writeMem _ hnames hmapped htouched), rfl, rfl⟩

theorem steps_lea {dst : Reg} {mem : Mem} {a : UInt32} (hnames : mem.Names p s.regs a) :
    StepsWithin p touched (.lea dst mem) s (s.set dst a) := by
  refine steps_of_acts hfits fun m _ hm => ?_
  subst hm
  exact ⟨m.setReg dst a, (acts_address hnames).bind (acts_put dst a), rfl, snap_setReg m dst a⟩

theorem steps_push {src : Operand} {w : UInt32}
    (hvalue : ∀ m : Machine, snap Instr m = s → Acts touched (Machine.read p src) m w m)
    (hmapped : Memory.mapped (s.regs .esp - 4) 4 = true)
    (htouched : Set.Ico (s.regs .esp - 4).toNat ((s.regs .esp - 4).toNat + 4) ⊆ touched) :
    StepsWithin p touched (.push src) s ((s.put (s.regs .esp - 4) 4 w).set .esp (s.regs .esp - 4)) := by
  refine steps_of_acts hfits fun m _ hm => ?_
  have hread := hvalue m hm
  subst hm
  exact ⟨_, hread.bind (acts_push w hmapped htouched), rfl, snap_setReg ..⟩

theorem steps_pushReg {r : Reg} (hmapped : Memory.mapped (s.regs .esp - 4) 4 = true)
    (htouched : Set.Ico (s.regs .esp - 4).toNat ((s.regs .esp - 4).toNat + 4) ⊆ touched) :
    StepsWithin p touched (.pushReg r) s
      ((s.put (s.regs .esp - 4) 4 (s.regs r)).set .esp (s.regs .esp - 4)) := by
  refine steps_push hfits (fun m hm => ?_) hmapped htouched
  subst hm
  exact acts_get r

theorem steps_pushMem {mem : Mem} {a w : UInt32} (hnames : mem.Names p s.regs a)
    (hread : s.memory.read a 4 = .ok w) (hvalue : Set.Ico a.toNat (a.toNat + 4) ⊆ touched)
    (hmapped : Memory.mapped (s.regs .esp - 4) 4 = true)
    (htouched : Set.Ico (s.regs .esp - 4).toNat ((s.regs .esp - 4).toNat + 4) ⊆ touched) :
    StepsWithin p touched (.pushMem mem) s ((s.put (s.regs .esp - 4) 4 w).set .esp (s.regs .esp - 4)) := by
  refine steps_push hfits (fun m hm => ?_) hmapped htouched
  subst hm
  exact acts_readMem hnames hread hvalue

theorem steps_popReg {r : Reg} {w : UInt32} (hread : s.memory.read (s.regs .esp) 4 = .ok w)
    (htouched : Set.Ico (s.regs .esp).toNat ((s.regs .esp).toNat + 4) ⊆ touched) :
    StepsWithin p touched (.popReg r) s ((s.set .esp (s.regs .esp + 4)).set r w) := by
  refine steps_of_acts hfits fun m _ hm => ?_
  subst hm
  refine ⟨_, (acts_pop hread htouched).bind (acts_put r w), rfl, ?_⟩
  rw [snap_setReg, snap_setReg]
  rfl

theorem steps_popMem {mem : Mem} {a w : UInt32} (hread : s.memory.read (s.regs .esp) 4 = .ok w)
    (htouched : Set.Ico (s.regs .esp).toNat ((s.regs .esp).toNat + 4) ⊆ touched)
    (hnames : mem.Names p (s.set .esp (s.regs .esp + 4)).regs a) (hmapped : Memory.mapped a 4 = true)
    (hvalue : Set.Ico a.toNat (a.toNat + 4) ⊆ touched) :
    StepsWithin p touched (.popMem mem) s ((s.set .esp (s.regs .esp + 4)).put a 4 w) := by
  refine steps_of_acts hfits fun m _ hm => ?_
  subst hm
  have hsnap := snap_setReg m .esp (m.reg .esp + 4)
  have hnames' : mem.Names p (m.setReg .esp (m.reg .esp + 4)).reg a := by
    have hregs := congrArg Snapshot.regs hsnap
    exact hnames.congr fun r _ => congrFun hregs r
  let popped := m.setReg .esp (m.reg .esp + 4)
  have hwrite : Acts touched (Machine.write p w (.mem .dword mem)) popped ()
      { popped with store := popped.store.put a 4 w } := acts_writeMem w hnames' hmapped hvalue
  exact ⟨_, (acts_pop hread htouched).bind hwrite, rfl, congrArg (Snapshot.put · a 4 w) hsnap⟩

theorem steps_shiftImm (kind : ShiftKind) (r : Reg) {n : UInt8} (hn : n.toNat % 32 ≠ 0) :
    StepsWithin p touched (.shiftImm kind r n) s
      (s.set r (UInt32.ofNat (shiftBits kind 32 (s.regs r) (n.toNat % 32)).1)) := by
  refine steps_of_acts hfits fun m _ hm => ?_
  subst hm
  let result := shiftBits kind 32 (m.reg r) (n.toNat % 32)
  let flags : Flags :=
    { m.flags with carry := result.2, zero := result.1 == 0, sign := signBit 32 result.1 }
  refine ⟨{ m with flags }.setReg r (UInt32.ofNat result.1), ?_, rfl, snap_setReg { m with flags } r _⟩
  refine Acts.bind (.pure (n.toNat % 32)) ?_
  rw [if_pos hn]
  refine (acts_get r).bind ?_
  exact (acts_setFlags fun f : Flags =>
    { f with carry := result.2, zero := result.1 == 0, sign := signBit 32 result.1 }).bind (acts_put r _)

theorem steps_alu (op : AluOp) (hop : op ≠ .cmp) (r : Reg) {src : Operand} {w result : UInt32}
    (hvalue : ∀ m : Machine, snap Instr m = s → Acts touched (Machine.read p src) m w m)
    (hresult : ∀ carry, (alu op 32 (s.regs r) w carry).1 = result) :
    StepsWithin p touched (.alu op (.reg r) src) s (s.set r result) := by
  refine steps_of_acts hfits fun m _ hm => ?_
  have hread := hvalue m hm
  subst hm
  let flags := (alu op 32 (m.reg r) w m.flags.carry).2
  refine ⟨{ m with flags }.setReg r result, ?_, rfl, snap_setReg { m with flags } r result⟩
  refine (acts_get r).bind (hread.bind (acts_state ((acts_setFlags _).bind ?_) fun _ _ => rfl))
  rw [if_pos hop]
  have hmachine : (alu op 32 (m.reg r) w m.flags.carry).1 = result := hresult m.flags.carry
  show Acts touched (Machine.put r (alu op 32 (m.reg r) w m.flags.carry).1) _ () _
  rw [hmachine]
  exact acts_put r result

theorem steps_aluReg (op : AluOp) (hop : op ≠ .cmp) (r src : Reg) {result : UInt32}
    (hresult : ∀ carry, (alu op 32 (s.regs r) (s.regs src) carry).1 = result) :
    StepsWithin p touched (.aluReg op r src) s (s.set r result) := by
  refine steps_alu hfits op hop r (fun m hm => ?_) hresult
  subst hm
  exact acts_get src

theorem steps_addImm (r : Reg) (value : Int32) :
    StepsWithin p touched (.aluImm .add r value) s (s.set r (s.regs r + value.toUInt32)) :=
  steps_alu hfits .add (by decide) r (fun _ _ => .pure _) (alu_add _ _)

theorem steps_imulImm (dst src : Reg) (imm : Int32) :
    StepsWithin p touched (.imulImm dst (.reg src) imm) s (s.set dst (s.regs src * imm.toUInt32)) := by
  refine steps_of_acts hfits fun m _ hm => ?_
  subst hm
  refine ⟨_, (acts_get src).bind ((acts_setFlags _).bind (acts_put dst _)), rfl, ?_⟩
  rw [snap_setReg { m with flags := _ }]
  exact congrArg (Snapshot.set _ dst) (productLow_eq (m.reg src) imm.toUInt32)

/-! ## Comparisons and jumps -/

omit hfits in
/-- The instruction sets the flags so that the condition holds, or does not, and changes nothing else. -/
def Tests (p : Program Instr) (touched : Set Nat) (instr : Instr) (s : Snapshot Reg) (cond : Cond)
    (answer : Bool) : Prop :=
  ∀ (m : Machine) (site : UInt32), snap Instr m = s → ∃ flags : Flags,
    Acts touched (Machine.execute p site instr) m () { m with flags } ∧ flags.holds cond = answer

theorem Tests.cycles {instr : Instr} {cond : Cond} {answer : Bool} (h : Tests p touched instr s cond answer)
    {k : Nat} {m : Machine} (hinstr : p.code[k]? = some instr) (hat : m.pc = codeAddress k)
    (hm : snap Instr m = s) :
    ∃ m' : Machine, Acts touched (Machine.cycle p) m () m' ∧ m'.pc = codeAddress (k + 1) ∧
      snap Instr m' = s ∧ m'.flags.holds cond = answer := by
  obtain ⟨flags, hacts, hflags⟩ := h (m.fetched k) (codeAddress k) hm
  refine ⟨{ m.fetched k with flags }, ⟨?_, fun c hc b => ?_⟩, rfl, hm, hflags⟩
  · exact (Machine.cycle_at hfits hat hinstr).trans hacts.ok
  · have hat' : (withByte m c b).pc = codeAddress k := hat
    rw [Machine.cycle_at hfits hat' hinstr, Machine.cycle_at hfits hat hinstr]
    exact hacts.blind c hc b

theorem acts_jcc {cond : Cond} {l : Label} {k target : Nat} {m : Machine}
    (hinstr : p.code[k]? = some (.jcc cond l)) (hat : m.pc = codeAddress k)
    (htarget : m.flags.holds cond = true → p.labels[l]? = some target) :
    Acts touched (Machine.cycle p) m () { m.fetched k with
      pc := if m.flags.holds cond then codeAddress target else codeAddress (k + 1) } := by
  have hcycle : ∀ m : Machine, m.pc = codeAddress k →
      (m.flags.holds cond = true → p.labels[l]? = some target) →
      Machine.cycle p m = .ok () { m.fetched k with
        pc := if m.flags.holds cond then codeAddress target else codeAddress (k + 1) } := by
    intro m hat htarget
    rw [Machine.cycle_at hfits hat hinstr, Machine.execute, bind_of_ok (estate_get_apply _),
      Machine.fetched_flags]
    by_cases hcond : m.flags.holds cond = true
    · have haddress : p.labelAddress l = .ok (codeAddress target) := by
        unfold Program.labelAddress
        rw [htarget hcond]
      rw [if_pos hcond, haddress, if_pos hcond]
      rfl
    · rw [if_neg hcond, if_neg hcond]
      rfl
  refine ⟨hcycle m hat htarget, fun c _ b => ?_⟩
  rw [hcycle m hat htarget, hcycle (withByte m c b) hat htarget]
  rfl

theorem jumps_jcc {instr : Instr} {cond : Cond} {l : Label} (h : Tests p touched instr s cond true) :
    JumpsWithin p touched [instr, .jcc cond l] s l s := by
  intro base target m hplaced htarget hat hm
  obtain ⟨t, hcycle, hpc, ht, hcond⟩ := h.cycles hfits (hplaced.fetch 0 _ rfl) hat hm
  refine .step hcycle (.step (acts_jcc hfits (hplaced.fetch 1 _ rfl) hpc fun _ => htarget) (.stop ⟨?_, ht⟩))
  exact if_pos hcond

theorem Runs.passed {instr : Instr} {cond : Cond} {l : Label} {code : List Instr} {Q : Snapshot Reg → Prop}
    {E : Fault → Snapshot Reg → Prop} (h : Tests p touched instr s cond false)
    (h' : Runs p touched code s Q E) : Runs p touched (instr :: .jcc cond l :: code) s Q E := by
  intro base m hplaced hat hm
  obtain ⟨t, hcycle, hpc, ht, hcond⟩ := h.cycles hfits (hplaced.fetch 0 _ rfl) hat hm
  have hnever : t.flags.holds cond = true → p.labels[l]? = some 0 := fun htaken => by
    rw [hcond] at htaken
    cases htaken
  have hback : Placed p (base + [instr, .jcc cond l].length) code := Placed.back hplaced
  refine .step hcycle (.step (acts_jcc hfits (hplaced.fetch 1 _ rfl) hpc hnever) ?_)
  rw [show base + (instr :: .jcc cond l :: code).length = base + 2 + code.length by
    simp only [List.length_cons]; omega]
  refine h' _ _ hback ?_ ht
  show (if t.flags.holds cond then codeAddress 0 else codeAddress (base + 1 + 1)) = _
  rw [hcond]
  rfl

omit hfits

theorem tests_testReg (r : Reg) : Tests p touched (.testReg r) s .ne (s.regs r != 0) := by
  intro m site hm
  subst hm
  refine ⟨(alu .and 32 (m.reg r) (m.reg r) false).2, (acts_get r).bind ((acts_get r).bind (acts_setFlags _)), ?_⟩
  show (!(alu .and 32 (m.reg r) (m.reg r) false).2.zero) = _
  rw [zero_alu_and_self]
  rfl

theorem tests_cmp {r : Reg} {src : Operand} {w : UInt32}
    (hvalue : ∀ m : Machine, snap Instr m = s → Acts touched (Machine.read p src) m w m) :
    Tests p touched (.alu .cmp (.reg r) src) s .l (decide ((s.regs r).toInt32 < w.toInt32)) := by
  intro m site hm
  have hread := hvalue m hm
  subst hm
  refine ⟨(alu .cmp 32 (m.reg r) w m.flags.carry).2, ?_, ?_⟩
  · refine (acts_get r).bind (hread.bind (acts_state ((acts_setFlags _).bind ?_) fun _ _ => rfl))
    rw [if_neg (by decide)]
    exact .pure ()
  · have hless := less_alu_cmp (m.reg r) w m.flags.carry
    rw [Value.toInt_word_eq, Value.toInt_word_eq] at hless
    rw [decide_eq_decide.mpr Int32.lt_iff_toInt_lt]
    exact hless

/-! ## Failing checks -/

section Intrinsics

variable {code : List Instr} {Q : Snapshot Reg → Prop} {E : Fault → Snapshot Reg → Prop}

theorem Runs.callSite (hwf : p.WellFormed)
    (h : ∀ site, Runs p touched code (s.set .eax site) Q E) :
    Runs p touched (.callSymbol Intrinsic.callSite.symbol :: code) s Q E := by
  intro base m hplaced hat hm
  have hcycle : ∀ m : Machine, m.pc = codeAddress base →
      Machine.cycle p m = .ok () ((m.fetched base).setReg .eax (codeAddress base)) := by
    intro m hat
    rw [Machine.cycle_callSymbol hwf hat (hplaced.fetch 0 _ rfl)]
    rfl
  have hacts : Acts touched (Machine.cycle p) m () ((m.fetched base).setReg .eax (codeAddress base)) := by
    refine ⟨hcycle m hat, fun c _ b => ?_⟩
    rw [hcycle m hat, hcycle (withByte m c b) hat]
    rfl
  have hback : Placed p (base + [Instr.callSymbol Intrinsic.callSite.symbol].length) code :=
    Placed.back hplaced
  refine .step hacts ?_
  rw [List.length_cons, Nat.add_comm code.length, ← Nat.add_assoc]
  refine h (codeAddress base) _ _ hback rfl ?_
  rw [snap_setReg, ← hm]
  rfl

theorem faults_raise (hwf : p.WellFormed) {intrinsic : Intrinsic} {fault : UInt32 → Fault}
    (hraises : Raises intrinsic fault) {w : UInt32} (hread : s.memory.read (s.regs .esp) 4 = .ok w)
    (htouched : Set.Ico (s.regs .esp).toNat ((s.regs .esp).toNat + 4) ⊆ touched) :
    FaultsWithin p touched (.callSymbol intrinsic.symbol) s (fault w) s := by
  intro k m hinstr hat hm
  subst hm
  obtain ⟨hblind, hstops⟩ := hraises.stops p (codeAddress k) hread htouched
  have hcycle : ∀ m' : Machine, m'.pc = codeAddress k → m'.reg .esp = m.reg .esp →
      p.runIntrinsic intrinsic (m.reg .esp) (codeAddress k) m'.store = .error (fault w) m'.store →
      Machine.cycle p m' = .error (fault w) (m'.fetched k) := by
    intro m' hat hesp hrun
    rw [Machine.cycle_callSymbol hwf hat hinstr, hesp]
    exact bind_of_error (Machine.onStore_of_error (m := m'.fetched k) hrun)
  refine ⟨m.fetched k, fun c hc b => ?_, hcycle m hat rfl hstops, rfl⟩
  have hblind' := hblind c hc b
  rw [hstops] at hblind'
  show Machine.cycle p _ = mapState _ (Machine.cycle p m)
  rw [hcycle m hat rfl hstops, hcycle (withByte m c b) hat rfl hblind']
  rfl

end Intrinsics

end Instructions

end Stencil.X86
