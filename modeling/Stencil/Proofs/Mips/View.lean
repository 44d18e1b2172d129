import Stencil.Proofs.Execution.Block
import Stencil.Proofs.Mips.Cells
import Stencil.Proofs.Mips.Labels

/-!
# Views of the MIPS32 machine

`step` computes what a group of instructions does to a view: a single one that stays in the registers,
a push or a pop. `Steps` adds those that reach into the stack or move its pointers. A transfer of control
is a group with the `nop` in its delay slot. Machines follow all of them (`cycles_of_steps`).
-/

namespace Stencil.Mips

open AddressMap Stateful

/-- The registers that templates compute with. -/
structure Registers where
  gpr : Reg → UInt32
  hi : UInt32
  lo : UInt32

/-- Instructions that belong together. -/
inductive Group where
  | one (instr : Instr)
  | push (r : Reg)
  | pop (r : Reg)

def Group.code : Group → List Instr
  | .one instr => [instr]
  | .push r => Instr.push r
  | .pop r => Instr.pop r

section View

variable (v : View Registers)

def get : Reg → UInt32
  | .zero => 0
  | .sp => stackPointer v.words
  | .fp => v.fp
  | r => v.regs.gpr r

theorem get_zero : get v .zero = 0 := rfl

/-- The view with a register changed that is neither `$zero` nor one of the pointers. -/
def put? (r : Reg) (w : UInt32) : Option (View Registers) :=
  match r with
  | .zero | .sp | .fp => none
  | r => some { v with
      regs := { v.regs with gpr := fun r' => if r' = r then w else v.regs.gpr r' } }

def withHiLo (hi lo : UInt32) : View Registers := { v with regs := { v.regs with hi, lo } }

/-- What an instruction does that stays in the registers. -/
def compute : Instr → Option (View Registers)
  | .label _ | .nop => some v
  | .alu op dst lhs rhs => put? v dst (alu op (get v lhs) (get v rhs))
  | .aluImm op dst src imm => put? v dst (aluImm op (get v src) imm)
  | .shift op dst src amount => put? v dst (shiftBy op (get v src) amount.toUInt32)
  | .mult lhs rhs unsigned =>
    let result := product unsigned (get v lhs) (get v rhs)
    some (withHiLo v (result >>> 32).toUInt32 result.toUInt32)
  | .div lhs rhs unsigned =>
    if get v rhs = 0 then none
    else
      let answer := quotient unsigned (get v lhs) (get v rhs)
      some (withHiLo v answer.2 answer.1)
  | .mfhi dst => put? v dst v.regs.hi
  | .mflo dst => put? v dst v.regs.lo
  | .li dst imm => put? v dst imm.toUInt32
  | .move dst src => put? v dst (get v src)
  | _ => none

/-- What a group does that stays in the registers or pushes and pops. -/
def step : Group → Option (View Registers)
  | .one instr => compute v instr
  | .push .sp => none
  | .push r => v.push? (get v r)
  | .pop r =>
    match v.words with
    | w :: words => put? { v with words, free := v.free + 1 } r w
    | [] => none

def run (groups : List Group) : Option (View Registers) := groups.foldlM step v

end View

/-- What a group does that goes on to the next one. -/
inductive Steps : List Instr → View Registers → View Registers → Prop
  | plain {v v' : View Registers} {group : Group} (h : step v group = some v') : Steps group.code v v'
  /-- Load a word that lies in the stack. -/
  | load {v v' : View Registers} {dst base : Reg} {offset : Int32} {front words : List UInt32}
      {w : UInt32} (hwords : v.words = front ++ w :: words)
      (haddress : get v base + offset.toUInt32 = wordAddress words.length)
      (hput : put? v dst w = some v') : Steps [.lw dst offset base] v v'
  /-- Change a word of the stack. -/
  | store {v : View Registers} {src base : Reg} {offset : Int32} {front words : List UInt32}
      {old : UInt32} (hwords : v.words = front ++ old :: words)
      (haddress : get v base + offset.toUInt32 = wordAddress words.length) :
      Steps [.sw src offset base] v { v with words := front ++ get v src :: words }
  /-- Drop words. -/
  | drop {v : View Registers} {imm : Int32} {front words : List UInt32} (hwords : v.words = front ++ words)
      (himm : imm.toUInt32 = 4 * UInt32.ofNat front.length) :
      Steps [.addiu .sp .sp imm] v (v.drop front.length)
  /-- Set the frame pointer. -/
  | enter {v : View Registers} : Steps [.move .fp .sp] v { v with fp := stackPointer v.words }
  /-- Drop everything below the frame. -/
  | leave {v : View Registers} {front words : List UInt32} (hwords : v.words = front ++ words)
      (hfp : v.fp = stackPointer words) : Steps [.move .sp .fp] v (v.drop front.length)
  /-- Restore the frame pointer. -/
  | restore {v : View Registers} {words : List UInt32} {w : UInt32} (hwords : v.words = w :: words) :
      Steps (Instr.pop .fp) v { v.drop 1 with fp := w }
  /-- A branch that is not taken. -/
  | passed {v : View Registers} {onEqual : Bool} {lhs rhs : Reg} {l : Label}
      (h : (get v lhs == get v rhs) = !onEqual) : Steps [.branch onEqual lhs rhs l, .nop] v v

/-- Jumps that are taken. -/
inductive Jumps : List Instr → View Registers → Label → Prop
  | jump {v : View Registers} {l : Label} : Jumps (Instr.jump l) v l
  | branch {v : View Registers} {onEqual : Bool} {lhs rhs : Reg} {l : Label}
      (h : (get v lhs == get v rhs) = onEqual) : Jumps [.branch onEqual lhs rhs l, .nop] v l

/-! ## Machines follow -/

/-- The machine looks like the view. -/
structure Sees (m : Machine) (v : View Registers) : Prop where
  reg : ∀ r, m.reg r = get v r
  hi : m.hi = v.regs.hi
  lo : m.lo = v.regs.lo
  shows : v.Shows m.store.memory

/-- The machine looks like the view and is about to run the instruction of this index. -/
structure Stands (m : Machine) (k : Nat) (v : View Registers) : Prop where
  pc : m.pc = codeAddress k
  npc : m.npc = codeAddress (k + 1)
  sees : Sees m v

/-! ### Single instructions -/

theorem add_minus_four (a : UInt32) : a + Int32.toUInt32 (-4) = a - 4 := by
  rw [UInt32.sub_eq_add_neg]
  rfl

theorem add_zero_offset (a : UInt32) : a + Int32.toUInt32 0 = a := UInt32.add_zero a

theorem signExtend_word (w : UInt32) : Word.signExtend 32 w = w := by
  have hvalue : (BitVec.ofInt 32 (Int.bmod w.toNat (2 ^ 32))).toNat = w.toNat := by
    rw [BitVec.toNat_ofInt, show ((2 ^ 32 : Nat) : Int) = 2 ^ 32 from rfl]
    have hemod : Int.bmod w.toNat (2 ^ 32) % 2 ^ 32 = (w.toNat : Int) % 2 ^ 32 := Int.bmod_emod
    have hlt := w.toNat_lt
    rw [hemod]
    omega
  exact UInt32.toNat_inj.mp hvalue

namespace Machine

variable {p : Program Instr}

theorem onStore_of_ok {α : Type} {action : StoreM α} {a : α} {m : Machine} {s : Store}
    (h : action m.store = .ok a s) : onStore action m = .ok a { m with store := s } := by
  obtain ⟨regs, hi, lo, pc, npc, store, trace⟩ := m
  have haction : action store = .ok a s := h
  unfold onStore
  simp only [haction]

/-- An intrinsic without a result goes back to the caller. -/
theorem cycle_intrinsic_of_ok {intrinsic : Intrinsic} {m : Machine} {s : Store}
    (h : Intrinsic.atAddress? m.pc = some intrinsic)
    (hrun : p.runIntrinsic intrinsic (m.reg .sp) (m.reg .ra - 8) m.store = .ok none s) :
    cycle p m = .ok () { m with store := s, pc := m.reg .ra, npc := m.reg .ra + 4 } := by
  rw [cycle_intrinsic h, callIntrinsic, bind_of_ok (get_apply ..), bind_of_ok (get_apply ..),
    bind_of_ok (onStore_of_ok hrun)]
  rfl

theorem cycle_intrinsic_of_error {intrinsic : Intrinsic} {m : Machine} {fault : Fault}
    (h : Intrinsic.atAddress? m.pc = some intrinsic)
    (hrun : p.runIntrinsic intrinsic (m.reg .sp) (m.reg .ra - 8) m.store = .error fault m.store) :
    cycle p m = .error fault m := by
  have hfault : onStore (p.runIntrinsic intrinsic (m.reg .sp) (m.reg .ra - 8)) m = .error fault m := by
    unfold onStore
    simp only [hrun]
  rw [cycle_intrinsic h, callIntrinsic, bind_of_ok (get_apply ..), bind_of_ok (get_apply ..),
    bind_of_error hfault]

theorem address_of_aligned {offset : Int32} {base : Reg} {m : Machine} {a : UInt32}
    (ha : m.reg base + offset.toUInt32 = a) (haligned : a.toNat % 4 = 0) :
    address .word offset base m = .ok a m := by
  have hnot : ¬a.toNat % Width.word.bytes ≠ 0 := fun hne => hne haligned
  unfold address
  rw [bind_of_ok (get_apply ..), ha]
  dsimp only
  rw [if_neg hnot]
  rfl

theorem execute_lw {dst base : Reg} {offset : Int32} {m : Machine} {a w : UInt32}
    (ha : m.reg base + offset.toUInt32 = a) (haligned : a.toNat % 4 = 0)
    (hread : m.store.memory.read a 4 = .ok w) :
    execute p (.lw dst offset base) m = .ok none (m.setReg dst w) := by
  have hstore : Store.read a 4 m.store = .ok w m.store := by rw [Store.read, hread]
  have hload : onStore (Store.read a Width.word.bytes) m = .ok w m := onStore_of_ok hstore
  rw [Instr.lw, execute, bind_of_ok (address_of_aligned ha haligned), bind_of_ok hload, extendLoad,
    if_pos rfl, show 8 * Width.word.bytes = 32 from rfl, signExtend_word]
  rfl

theorem execute_sw {src base : Reg} {offset : Int32} {m : Machine} {a : UInt32}
    (ha : m.reg base + offset.toUInt32 = a) (haligned : a.toNat % 4 = 0)
    (hmapped : Memory.mapped a 4 = true) :
    execute p (.sw src offset base) m =
      .ok none { m with store := m.store.withWord a (m.reg src) } := by
  have hstore : onStore (Store.write a Width.word.bytes (m.reg src)) m =
      .ok () { m with store := m.store.withWord a (m.reg src) } :=
    onStore_of_ok (Store.writeWord_of_mapped hmapped _ _)
  rw [Instr.sw, execute, bind_of_ok (address_of_aligned ha haligned),
    bind_of_ok (get_apply ..), bind_of_ok hstore]
  rfl

@[simp] theorem withStore_reg (m : Machine) (s : Store) (r : Reg) :
    ({ m with store := s } : Machine).reg r = m.reg r := rfl

theorem cycle_of_execute (hfits : p.code.size ≤ codeLimit) {m t : Machine} {k : Nat} {instr : Instr}
    {next : Option UInt32} (hpc : m.pc = codeAddress k) (hinstr : p.code[k]? = some instr)
    (hexecute : execute p instr (m.fetched k) = .ok next t) : cycle p m = .ok () (t.advance next) := by
  rw [cycle_at hfits hpc hinstr, bind_of_ok hexecute]
  rfl

end Machine

section Follow

variable {p : Program Instr} {v v' : View Registers} {m : Machine}

theorem get_put? {r : Reg} {w : UInt32} (h : put? v r w = some v') (r' : Reg) :
    get v' r' = if r' = r then w else get v r' := by
  unfold put? at h
  split at h
  · cases h
  · cases h
  · cases h
  · obtain rfl := Option.some.inj h
    cases r' <;> simp_all [get, eq_comm]

theorem put?_frame {r : Reg} {w : UInt32} (h : put? v r w = some v') :
    r ≠ .zero ∧ v'.words = v.words ∧ v'.free = v.free ∧ v'.regs.hi = v.regs.hi ∧
      v'.regs.lo = v.regs.lo := by
  unfold put? at h
  split at h
  · cases h
  · cases h
  · cases h
  · rename_i hzero _ _
    obtain rfl := Option.some.inj h
    exact ⟨hzero, rfl, rfl, rfl, rfl⟩

theorem Sees.setReg {r : Reg} {w : UInt32} (h : Sees m v) (hput : put? v r w = some v') :
    Sees (m.setReg r w) v' := by
  obtain ⟨hzero, hwords, hfree, hhi, hlo⟩ := put?_frame hput
  refine ⟨fun r' => ?_, ?_, ?_, ?_, ?_⟩
  · rw [get_put? hput]
    by_cases hr : r' = r
    · rw [if_pos hr, hr, Machine.reg_setReg_self m w hzero]
    · rw [if_neg hr, Machine.reg_setReg_of_ne m w hr, h.reg]
  · rw [Machine.setReg_hi, h.hi, hhi]
  · rw [Machine.setReg_lo, h.lo, hlo]
  · rw [hwords, hfree]
    exact h.shows.length
  · rw [hwords, Machine.setReg_store]
    exact h.shows.holds

theorem Sees.fetched (h : Sees m v) (k : Nat) : Sees (m.fetched k) v :=
  ⟨h.reg, h.hi, h.lo, h.shows⟩

theorem Sees.advance (h : Sees m v) (next : Option UInt32) : Sees (m.advance next) v :=
  ⟨h.reg, h.hi, h.lo, h.shows⟩

/-- The stack pointer moves over words that memory holds. -/
theorem Sees.moveStack {words : List UInt32} {free : Nat} (h : Sees m v)
    (hlength : words.length + free = stackCapacity) (hholds : m.store.memory.Holds words) :
    Sees (m.setReg .sp (stackPointer words)) { v with words, free } := by
  refine ⟨fun r => ?_, ?_, ?_, hlength, ?_⟩
  · by_cases hr : r = .sp
    · subst hr
      exact Machine.reg_setReg_self _ _ (by decide)
    · rw [Machine.reg_setReg_of_ne _ _ hr, h.reg]
      cases r <;> first | exact absurd rfl hr | rfl
  · rw [Machine.setReg_hi, h.hi]
  · rw [Machine.setReg_lo, h.lo]
  · rw [Machine.setReg_store]
    exact hholds

theorem Sees.setFp (h : Sees m v) (fp : UInt32) : Sees (m.setReg .fp fp) { v with fp } := by
  refine ⟨fun r => ?_, ?_, ?_, h.shows.length, ?_⟩
  · by_cases hr : r = .fp
    · subst hr
      exact Machine.reg_setReg_self _ _ (by decide)
    · rw [Machine.reg_setReg_of_ne _ _ hr, h.reg]
      cases r <;> first | exact absurd rfl hr | rfl
  · rw [Machine.setReg_hi, h.hi]
  · rw [Machine.setReg_lo, h.lo]
  · rw [Machine.setReg_store]
    exact h.shows.holds

theorem Sees.readWord {base : Reg} {offset : Int32} {front words : List UInt32} {w : UInt32} (dst : Reg)
    (h : Sees m v) (hwords : v.words = front ++ w :: words)
    (haddress : get v base + offset.toUInt32 = wordAddress words.length) :
    Machine.execute p (.lw dst offset base) m = .ok none (m.setReg dst w) := by
  have hholds := h.shows.holds
  rw [hwords] at hholds
  have hlt := hholds.of_append.1
  exact Machine.execute_lw (by rw [h.reg, haddress]) (wordAddress_mod_four hlt) hholds.read

theorem Sees.writeWord {base : Reg} {offset : Int32} {front words : List UInt32} {old : UInt32}
    (src : Reg) (h : Sees m v) (hwords : v.words = front ++ old :: words)
    (haddress : get v base + offset.toUInt32 = wordAddress words.length) :
    ∃ m', Machine.execute p (.sw src offset base) m = .ok none m' ∧ m'.npc = m.npc ∧
      Sees m' { v with words := front ++ get v src :: words } := by
  have hholds := h.shows.holds
  rw [hwords] at hholds
  have hlt := hholds.of_append.1
  have hlength : (front ++ get v src :: words).length = v.words.length := by
    rw [hwords, List.length_append, List.length_append]
    rfl
  refine ⟨_, Machine.execute_sw (by rw [h.reg, haddress]) (wordAddress_mod_four hlt)
    (mapped_wordAddress hlt), rfl, ⟨fun r => ?_, h.hi, h.lo, ?_, ?_⟩⟩
  · rw [Machine.withStore_reg, h.reg]
    cases r with
    | sp => rw [get, get, stackPointer, stackPointer, hlength]
    | _ => rfl
  · show (front ++ get v src :: words).length + v.free = _
    rw [hlength]
    exact h.shows.length
  · rw [h.reg, Store.withWord, toNat_wordAddress hlt]
    exact hholds.put

theorem execute_of_compute {instr : Instr} (h : Sees m v) (hcompute : compute v instr = some v') :
    ∃ m', Machine.execute p instr m = .ok none m' ∧ m'.npc = m.npc ∧ Sees m' v' := by
  have hset : ∀ {r : Reg} {w : UInt32}, put? v r w = some v' →
      (m.setReg r w).npc = m.npc ∧ Sees (m.setReg r w) v' :=
    fun hput => ⟨Machine.setReg_npc .., h.setReg hput⟩
  unfold compute at hcompute
  split at hcompute
  · obtain rfl := Option.some.inj hcompute
    exact ⟨m, rfl, rfl, h⟩
  · obtain rfl := Option.some.inj hcompute
    exact ⟨m, rfl, rfl, h⟩
  · rw [← h.reg, ← h.reg] at hcompute
    exact ⟨_, rfl, hset hcompute⟩
  · rw [← h.reg] at hcompute
    exact ⟨_, rfl, hset hcompute⟩
  · rw [← h.reg] at hcompute
    exact ⟨_, rfl, hset hcompute⟩
  · rw [← h.reg, ← h.reg] at hcompute
    obtain rfl := Option.some.inj hcompute
    refine ⟨_, rfl, rfl, fun r => ?_, rfl, rfl, h.shows.length, h.shows.holds⟩
    have hreg := h.reg r
    cases r <;> exact hreg
  · rename_i lhs rhs unsigned
    rw [← h.reg, ← h.reg] at hcompute
    split at hcompute
    · cases hcompute
    · rename_i hdivisor
      obtain rfl := Option.some.inj hcompute
      refine ⟨{ m with
        hi := (quotient unsigned (m.reg lhs) (m.reg rhs)).2
        lo := (quotient unsigned (m.reg lhs) (m.reg rhs)).1 }, ?_, rfl, fun r => ?_, rfl, rfl,
        h.shows.length, h.shows.holds⟩
      · rw [Machine.execute, bind_of_ok (show Machine.get rhs m = .ok (m.reg rhs) m from rfl),
          if_neg hdivisor]
        rfl
      · have hreg := h.reg r
        cases r <;> exact hreg
  · rw [← h.hi] at hcompute
    exact ⟨_, rfl, hset hcompute⟩
  · rw [← h.lo] at hcompute
    exact ⟨_, rfl, hset hcompute⟩
  · exact ⟨_, rfl, hset hcompute⟩
  · rw [← h.reg] at hcompute
    exact ⟨_, rfl, hset hcompute⟩
  · cases hcompute

/-! ### Groups -/

theorem Stands.advance_npc {k : Nat} (h : Stands m k v) : m.npc + 4 = codeAddress (k + 1 + 1) := by
  rw [h.npc, codeAddress_succ]

theorem Stands.one {k : Nat} {instr : Instr} {t : Machine} (h : Stands m k v)
    (hfits : p.code.size ≤ codeLimit) (hinstr : p.code[k]? = some instr)
    (hexecute : Machine.execute p instr (m.fetched k) = .ok none t) (hnpc : t.npc = m.npc)
    (hsees : Sees t v') :
    Machine.cycle p m = .ok () (t.advance none) ∧ Stands (t.advance none) (k + 1) v' := by
  refine ⟨Machine.cycle_of_execute hfits h.pc hinstr hexecute, ?_, ?_, hsees.advance none⟩
  · rw [Machine.advance_pc, hnpc, h.npc]
  · rw [Machine.advance_npc_none, hnpc, h.advance_npc]

/-- A push: the stack pointer moves, then the word is stored. -/
theorem Stands.push {k : Nat} {r : Reg} (h : Stands m k v) (hfits : p.code.size ≤ codeLimit)
    (hplaced : Placed p k (Instr.push r)) (hr : r ≠ .sp) (hpush : v.push? (get v r) = some v') :
    ∃ m', Cycles (Machine.cycle p) 2 m m' ∧ Stands m' (k + 2) v' := by
  obtain ⟨free, hfree, rfl⟩ := View.push?_eq_some hpush
  have hlt := h.sees.shows.length_lt hfree
  have hsees := h.sees.fetched k
  -- whatever lies below the stack is counted among the words for a moment
  obtain ⟨below, hbelow, hholds⟩ := hsees.shows.holds.extend 1 (by omega)
  obtain ⟨w, rfl⟩ := List.length_eq_one_iff.mp hbelow
  have hlength : ([w] ++ v.words).length + free = stackCapacity := by
    have := hsees.shows.length
    rw [List.length_append, List.length_singleton]
    omega
  have hmoved := hsees.moveStack hlength hholds
  have hsp : Machine.execute p (.addiu .sp .sp (-4)) (m.fetched k) =
      .ok none ((m.fetched k).setReg .sp (stackPointer ([w] ++ v.words))) := by
    have hminus : (m.fetched k).reg .sp + Int32.toUInt32 (-4) = stackPointer ([w] ++ v.words) := by
      rw [hsees.reg, get, List.singleton_append, ← stackPointer_sub w, add_minus_four]
    rw [← hminus]
    rfl
  obtain ⟨hcycle, hstands⟩ := h.one hfits (hplaced.fetch 0 _ rfl) hsp (Machine.setReg_npc ..) hmoved
  have hvalue : get { v with words := [w] ++ v.words, free } r = get v r := by
    cases r <;> first | exact absurd rfl hr | rfl
  have hmid : ([w] ++ v.words : List UInt32) = [] ++ w :: v.words := rfl
  have haddress : get { v with words := [w] ++ v.words, free } .sp + Int32.toUInt32 0 =
      wordAddress v.words.length := by
    rw [add_zero_offset]
    rfl
  obtain ⟨m', hstore, hnpc, hsees'⟩ := (hstands.sees.fetched (k + 1)).writeWord (p := p) r hmid haddress
  rw [hvalue] at hsees'
  obtain ⟨hcycle', hstands'⟩ := hstands.one hfits (hplaced.fetch 1 _ rfl) hstore hnpc hsees'
  exact ⟨_, .succ hcycle (.one hcycle'), hstands'⟩

/-- A pop up to the change of the register: the word is loaded, then the stack pointer moves. -/
theorem Stands.pop {k : Nat} {r : Reg} {w : UInt32} {words : List UInt32} {t : View Registers}
    (h : Stands m k v) (hfits : p.code.size ≤ codeLimit) (hplaced : Placed p k (Instr.pop r))
    (hwords : v.words = w :: words) (hset : Sees ((m.fetched k).setReg r w) t)
    (ht : t.words = v.words ∧ t.free = v.free) :
    ∃ m', Cycles (Machine.cycle p) 2 m m' ∧
      Stands m' (k + 2) { t with words, free := v.free + 1 } := by
  have hfront : v.words = [] ++ w :: words := hwords
  have haddress : get v .sp + Int32.toUInt32 0 = wordAddress words.length := by
    rw [get, hwords, add_zero_offset]
    rfl
  have hload := (h.sees.fetched k).readWord (p := p) r hfront haddress
  obtain ⟨hcycle, hstands⟩ := h.one hfits (hplaced.fetch 0 _ rfl) hload (Machine.setReg_npc ..) hset
  have hsees := hstands.sees.fetched (k + 1)
  have hholds := hsees.shows.holds
  have hlength := hsees.shows.length
  rw [ht.1, hwords] at hholds hlength
  rw [ht.2, List.length_cons] at hlength
  have hfree : words.length + (v.free + 1) = stackCapacity := by omega
  have hmoved := hsees.moveStack hfree hholds.2.2
  have hsp : Machine.execute p (.addiu .sp .sp 4)
      (((((m.fetched k).setReg r w).advance none).fetched (k + 1))) =
      .ok none ((((m.fetched k).setReg r w).advance none).fetched (k + 1) |>.setReg .sp
        (stackPointer words)) := by
    have hplus : ((((m.fetched k).setReg r w).advance none).fetched (k + 1)).reg .sp + 4 =
        stackPointer words := by
      rw [hsees.reg, get, ht.1, hwords, stackPointer_cons_add]
    rw [← hplus]
    rfl
  obtain ⟨hcycle', hstands'⟩ := hstands.one hfits (hplaced.fetch 1 _ rfl) hsp (Machine.setReg_npc ..)
    hmoved
  exact ⟨_, .succ hcycle (.one hcycle'), hstands'⟩

theorem Stands.plain {k : Nat} {group : Group} (h : Stands m k v) (hfits : p.code.size ≤ codeLimit)
    (hplaced : Placed p k group.code) (hstep : step v group = some v') :
    ∃ m', Cycles (Machine.cycle p) group.code.length m m' ∧ Stands m' (k + group.code.length) v' := by
  unfold step at hstep
  split at hstep
  · obtain ⟨m', hexecute, hnpc, hsees⟩ := execute_of_compute (p := p) (h.sees.fetched k) hstep
    obtain ⟨hcycle, hstands⟩ := h.one hfits (hplaced.fetch 0 _ rfl) hexecute hnpc hsees
    exact ⟨_, .one hcycle, hstands⟩
  · cases hstep
  · rename_i hr
    exact h.push hfits hplaced hr hstep
  · rename_i r
    split at hstep
    · rename_i w words hwords
      obtain ⟨t, hput⟩ : ∃ t, put? v r w = some t := by
        cases r <;> first | cases hstep; done | exact ⟨_, rfl⟩
      obtain ⟨-, hwords', hfree, -, -⟩ := put?_frame hput
      obtain ⟨m', hcycles, hstands⟩ := h.pop hfits hplaced hwords ((h.sees.fetched k).setReg hput)
        ⟨hwords', hfree⟩
      have hview : ({ t with words, free := v.free + 1 } : View Registers) = v' := by
        cases r <;> first | cases hput; done | (cases hput; exact Option.some.inj hstep)
      exact ⟨m', hcycles, hview ▸ hstands⟩
    · cases hstep

theorem cycles_of_steps {base : Nat} {group : List Instr} (hfits : p.code.size ≤ codeLimit)
    (hplaced : Placed p base group) (hsteps : Steps group v v') (hstands : Stands m base v) :
    ∃ m', Cycles (Machine.cycle p) group.length m m' ∧ Stands m' (base + group.length) v' := by
  have hsees := hstands.sees.fetched base
  cases hsteps with
  | plain hstep => exact hstands.plain hfits hplaced hstep
  | load hwords haddress hput =>
    obtain ⟨hcycle, hnext⟩ := hstands.one hfits (hplaced.fetch 0 _ rfl) (hsees.readWord _ hwords haddress)
      (Machine.setReg_npc ..) (hsees.setReg hput)
    exact ⟨_, .one hcycle, hnext⟩
  | store hwords haddress =>
    obtain ⟨m', hexecute, hnpc, hsees'⟩ := hsees.writeWord (p := p) _ hwords haddress
    obtain ⟨hcycle, hnext⟩ := hstands.one hfits (hplaced.fetch 0 _ rfl) hexecute hnpc hsees'
    exact ⟨_, .one hcycle, hnext⟩
  | @drop _ imm front words hwords himm =>
    have hshows := hsees.shows.drop hwords
    have hsp : Machine.execute p (.addiu .sp .sp imm) (m.fetched base) =
        .ok none ((m.fetched base).setReg .sp (stackPointer (v.words.drop front.length))) := by
      have hplus : (m.fetched base).reg .sp + imm.toUInt32 =
          stackPointer (v.words.drop front.length) := by
        rw [hsees.reg, get, himm, hwords, List.drop_left, stackPointer_append]
      rw [← hplus]
      rfl
    obtain ⟨hcycle, hnext⟩ := hstands.one hfits (hplaced.fetch 0 _ rfl) hsp (Machine.setReg_npc ..)
      (hsees.moveStack hshows.length hshows.holds)
    exact ⟨_, .one hcycle, hnext⟩
  | enter =>
    have hfp : Machine.execute p (.move .fp .sp) (m.fetched base) =
        .ok none ((m.fetched base).setReg .fp (stackPointer v.words)) := by
      rw [show stackPointer v.words = (m.fetched base).reg .sp from (hsees.reg .sp).symm]
      rfl
    obtain ⟨hcycle, hnext⟩ := hstands.one hfits (hplaced.fetch 0 _ rfl) hfp (Machine.setReg_npc ..)
      (hsees.setFp _)
    exact ⟨_, .one hcycle, hnext⟩
  | @leave _ front words hwords hfp =>
    have hshows := hsees.shows.drop hwords
    have hsp : Machine.execute p (.move .sp .fp) (m.fetched base) =
        .ok none ((m.fetched base).setReg .sp (stackPointer (v.words.drop front.length))) := by
      have heq : (m.fetched base).reg .fp = stackPointer (v.words.drop front.length) := by
        rw [hsees.reg, get, hfp, hwords, List.drop_left]
      rw [← heq]
      rfl
    obtain ⟨hcycle, hnext⟩ := hstands.one hfits (hplaced.fetch 0 _ rfl) hsp (Machine.setReg_npc ..)
      (hsees.moveStack hshows.length hshows.holds)
    exact ⟨_, .one hcycle, hnext⟩
  | @restore _ words w hwords =>
    have hdrop : v.words.drop 1 = words := by
      rw [hwords]
      rfl
    obtain ⟨m', hcycles, hnext⟩ := hstands.pop hfits hplaced hwords (hsees.setFp w) ⟨rfl, rfl⟩
    refine ⟨m', hcycles, ?_⟩
    rw [View.drop, hdrop]
    exact hnext
  | @passed _ onEqual lhs rhs l hcond =>
    have hexecute : Machine.execute p (.branch onEqual lhs rhs l) (m.fetched base) =
        .ok none (m.fetched base) := by
      rw [Machine.execute_branch_apply, hsees.reg, hsees.reg, hcond]
      cases onEqual <;> rfl
    obtain ⟨hcycle, hnext⟩ := hstands.one hfits (hplaced.fetch 0 _ rfl) hexecute rfl hsees
    obtain ⟨hcycle', hnext'⟩ := hnext.one hfits (hplaced.fetch 1 _ rfl) rfl rfl
      (hnext.sees.fetched (base + 1))
    exact ⟨_, .succ hcycle (.one hcycle'), hnext'⟩

/-- A transfer of control and the `nop` in its delay slot. -/
theorem Stands.transfer {k : Nat} {instr : Instr} {t : Machine} {target : UInt32} (h : Stands m k v)
    (hfits : p.code.size ≤ codeLimit) (hplaced : Placed p k [instr, .nop])
    (hexecute : Machine.execute p instr (m.fetched k) = .ok (some target) t) (hnpc : t.npc = m.npc)
    (hsees : Sees t v') :
    ∃ m', Cycles (Machine.cycle p) 2 m m' ∧ m'.pc = target ∧ m'.npc = target + 4 ∧ Sees m' v' := by
  have hcycle := Machine.cycle_of_execute hfits h.pc (hplaced.fetch 0 _ rfl) hexecute
  have hpc : (t.advance (some target)).pc = codeAddress (k + 1) := by
    rw [Machine.advance_pc, hnpc, h.npc]
  have hcycle' := Machine.cycle_of_execute hfits hpc (hplaced.fetch 1 _ rfl) rfl
  exact ⟨_, .succ hcycle (.one hcycle'), rfl, rfl, ((hsees.advance _).fetched _).advance _⟩

theorem cycles_of_jumps {base k : Nat} {group : List Instr} {l : Label}
    (hfits : p.code.size ≤ codeLimit) (hplaced : Placed p base group) (hjumps : Jumps group v l)
    (hlabel : p.labels[l]? = some k) (hstands : Stands m base v) :
    ∃ n m', n ≤ group.length ∧ Cycles (Machine.cycle p) n m m' ∧ Stands m' k v := by
  have haddress : p.labelAddress l = .ok (codeAddress k) := by
    unfold Program.labelAddress
    rw [hlabel]
  have hsees := hstands.sees.fetched base
  have hgo : ∀ {instr : Instr}, Placed p base [instr, .nop] →
      Machine.execute p instr (m.fetched base) = Machine.branchAnswer p l true (m.fetched base) →
      ∃ n m', n ≤ 2 ∧ Cycles (Machine.cycle p) n m m' ∧ Stands m' k v := by
    intro instr hplaced hexecute
    have hanswer : Machine.branchAnswer p l true (m.fetched base) =
        .ok (some (codeAddress k)) (m.fetched base) := by
      unfold Machine.branchAnswer
      rw [haddress]
    obtain ⟨m', hcycles, hpc, hnpc, hsees'⟩ :=
      hstands.transfer hfits hplaced (hexecute.trans hanswer) rfl hsees
    exact ⟨2, m', Nat.le_refl 2, hcycles, hpc, by rw [hnpc, codeAddress_succ], hsees'⟩
  cases hjumps with
  | jump => exact hgo hplaced (Machine.execute_j_apply l _)
  | @branch _ onEqual lhs rhs _ hcond =>
    refine hgo hplaced ?_
    rw [Machine.execute_branch_apply, hsees.reg, hsees.reg, hcond, beq_self_eq_true]

end Follow

instance : Semantics Instr Registers Machine where
  cycle := Machine.cycle
  memory m := m.store.memory
  Stands := Stands
  Steps := Steps
  Jumps := Jumps
  shows_of_stands h := h.sees.shows
  steps_label l v := show Steps (Group.one (.label l)).code v v from .plain rfl
  cycles_of_steps := cycles_of_steps
  cycles_of_jumps := cycles_of_jumps

theorem exec_of_run {groups : List Group} {v v' : View Registers} (h : run v groups = some v') :
    Exec (groups.flatMap Group.code) v .next v' := by
  induction groups generalizing v with
  | nil =>
    obtain rfl := Option.some.inj h
    exact .nil
  | cons group groups ih =>
    obtain ⟨t, hstep, hrest⟩ := Option.bind_eq_some_iff.mp h
    rw [List.flatMap_cons]
    exact Exec.steps (Steps.plain hstep) (ih hrest)

end Stencil.Mips
