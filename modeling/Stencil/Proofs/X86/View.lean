import Stencil.Proofs.Execution.Block
import Stencil.Proofs.X86.Labels
import Stencil.Proofs.X86.Machine

/-!
# Views of the x86 machine

`step` computes what an instruction does to a view, and `Steps` adds the instructions that reach into
the stack or move its pointers. Machines follow both (`execute_of_steps`).
-/

namespace Stencil.X86

open AddressMap Stateful

/-- The registers that templates compute with. -/
structure Registers where
  gpr : Reg → UInt32
  flags : Flags

section View

variable (v : View Registers)

def get : Reg → UInt32
  | .esp => stackPointer v.words
  | .ebp => v.fp
  | r => v.regs.gpr r

/-- The view with a register changed that is none of the pointers. -/
def put? (r : Reg) (w : UInt32) : Option (View Registers) :=
  match r with
  | .esp | .ebp => none
  | r => some { v with
      regs := { v.regs with gpr := fun r' => if r' = r then w else v.regs.gpr r' } }

def withFlags (flags : Flags) : View Registers := { v with regs := { v.regs with flags } }

theorem withFlags_gpr (flags : Flags) : (withFlags v flags).regs.gpr = v.regs.gpr := rfl

theorem get_withFlags (flags : Flags) (r : Reg) : get (withFlags v flags) r = get v r := by
  cases r <;> rfl

def value? : Operand → Option UInt32
  | .reg r => some (get v r)
  | .part r width => some (UInt32.ofNat ((get v r).toNat % Word.modulus (8 * width.bytes)))
  | .imm value => some value.toUInt32
  | .mem _ _ | .addr _ => none

def count : ShiftCount → Nat
  | .cl => (get v .ecx).toNat % 32
  | .imm n => n.toNat % 32

def shifted (kind : ShiftKind) (value : UInt32) (n : Nat) : UInt32 :=
  if n = 0 then value else UInt32.ofNat (shiftBits kind 32 value n).1

/-- A word shifted with bits of another one coming in. -/
def shiftedDouble (left : Bool) (value fill : UInt32) (n : Nat) : UInt32 :=
  if n = 0 then value
  else
    let n := UInt32.ofNat n
    if left then (value <<< n) ||| (fill >>> (32 - n)) else (value >>> n) ||| (fill <<< (32 - n))

def shiftFlags (kind : ShiftKind) (value : UInt32) (n : Nat) (f : Flags) : Flags :=
  if n = 0 then f
  else
    let (result, carry) := shiftBits kind 32 value n
    { f with carry, zero := result == 0, sign := signBit 32 result }

def productLow (lhs rhs : UInt32) : UInt32 :=
  (Int32.ofInt (lhs.toInt32.toInt * rhs.toInt32.toInt)).toUInt32

def productFlags (lhs rhs : UInt32) (f : Flags) : Flags :=
  let exact := lhs.toInt32.toInt * rhs.toInt32.toInt
  let overflow := (Int32.ofInt exact).toInt != exact
  { f with carry := overflow, overflow }

def accumulator : Nat := (get v .edx).toNat * 0x100000000 + (get v .eax).toNat

/-- What an instruction does that stays in the registers or pushes and pops. -/
def step : Instr → Option (View Registers)
  | .label _ | .nop => some v
  | .push src => do v.push? (← value? v src)
  | .pop (.reg r) =>
    match v.words with
    | w :: words => put? { v with words, free := v.free + 1 } r w
    | [] => none
  | .mov (.reg dst) src => do put? v dst (← value? v src)
  | .movzx dst src => do put? v dst (← value? v src)
  | .movsx dst src => do put? v dst (Word.signExtend (Machine.operandBits src) (← value? v src))
  | .alu op (.reg dst) src => do
    let answer := alu op 32 (get v dst) (← value? v src) v.regs.flags.carry
    if op = .cmp then some (withFlags v answer.2) else put? (withFlags v answer.2) dst answer.1
  | .test (.reg dst) src => do
    some (withFlags v (alu .and 32 (get v dst) (← value? v src) false).2)
  | .neg (.reg dst) =>
    let answer := alu .sub 32 0 (get v dst) false
    put? (withFlags v answer.2) dst answer.1
  | .not (.reg dst) => put? v dst (~~~(get v dst))
  | .mul (.reg src) => do
    let product := (get v .eax).toNat * (get v src).toNat
    let high := product / 0x100000000
    let v ← put? v .eax (UInt32.ofNat product)
    let v ← put? v .edx (UInt32.ofNat high)
    some (withFlags v { v.regs.flags with carry := high != 0, overflow := high != 0 })
  | .imul dst (.reg src) =>
    put? (withFlags v (productFlags (get v dst) (get v src) v.regs.flags)) dst
      (productLow (get v dst) (get v src))
  | .div (.reg src) =>
    let dividend := accumulator v
    let divisor := (get v src).toNat
    if divisor = 0 ∨ 0x100000000 ≤ dividend / divisor then none
    else do
      put? (← put? v .eax (UInt32.ofNat (dividend / divisor))) .edx
        (UInt32.ofNat (dividend % divisor))
  | .idiv (.reg src) =>
    let dividend := Word.signed 64 (accumulator v)
    let divisor := (get v src).toInt32.toInt
    let quotient := dividend.tdiv divisor
    if divisor = 0 ∨ quotient < -0x80000000 ∨ 0x80000000 ≤ quotient then none
    else do
      put? (← put? v .eax (Int32.ofInt quotient).toUInt32) .edx
        (Int32.ofInt (dividend.tmod divisor)).toUInt32
  | .cdq => put? v .edx (if get v .eax < 0x80000000 then 0 else 0xFFFFFFFF)
  | .shift kind (.reg dst) c =>
    put? (withFlags v (shiftFlags kind (get v dst) (count v c) v.regs.flags)) dst
      (shifted kind (get v dst) (count v c))
  | .shld (.reg dst) src c => put? v dst (shiftedDouble true (get v dst) (get v src) (count v c))
  | .shrd (.reg dst) src c => put? v dst (shiftedDouble false (get v dst) (get v src) (count v c))
  | .jcc cond _ => if v.regs.flags.holds cond then none else some v
  | _ => none

def run (code : List Instr) : Option (View Registers) := code.foldlM step v

end View

/-- What a single instruction does that goes on to the next one. -/
inductive Steps : List Instr → View Registers → View Registers → Prop
  | plain {v v' : View Registers} {instr : Instr} (h : step v instr = some v') : Steps [instr] v v'
  /-- Push a word that lies in the stack. -/
  | pushMem {v v' : View Registers} {r : Reg} {disp : Int32} {front words : List UInt32} {w : UInt32}
      (hwords : v.words = front ++ w :: words)
      (haddress : disp.toUInt32 + get v r = wordAddress words.length) (hpush : v.push? w = some v') :
      Steps [.pushMem (.based r disp)] v v'
  /-- Pop into a word of the stack. -/
  | popMem {v : View Registers} {disp : Int32} {front words : List UInt32} {w old : UInt32}
      (hwords : v.words = w :: (front ++ old :: words))
      (haddress : disp.toUInt32 + v.fp = wordAddress words.length) :
      Steps [.popMem (.based .ebp disp)] v
        { v with words := front ++ w :: words, free := v.free + 1 }
  /-- Load a word that lies in the stack. -/
  | load {v v' : View Registers} {dst r : Reg} {disp : Int32} {front words : List UInt32} {w : UInt32}
      (hwords : v.words = front ++ w :: words)
      (haddress : disp.toUInt32 + get v r = wordAddress words.length) (hput : put? v dst w = some v') :
      Steps [.load dst (.based r disp)] v v'
  /-- Change a word of the stack. -/
  | store {v : View Registers} {src r : Reg} {disp : Int32} {front words : List UInt32} {old : UInt32}
      (hwords : v.words = front ++ old :: words)
      (haddress : disp.toUInt32 + get v r = wordAddress words.length) :
      Steps [.store (.based r disp) src] v { v with words := front ++ get v src :: words }
  /-- Drop words. -/
  | drop {v : View Registers} {disp : Int32} {front words : List UInt32}
      (hwords : v.words = front ++ words) (hdisp : disp.toUInt32 = 4 * UInt32.ofNat front.length) :
      Steps [.aluImm .add .esp disp] v
        (withFlags (v.drop front.length)
          (alu .add 32 (stackPointer v.words) disp.toUInt32 v.regs.flags.carry).2)
  /-- Set the frame pointer. -/
  | enter {v : View Registers} :
      Steps [.movReg .ebp .esp] v { v with fp := stackPointer v.words }
  /-- Drop everything below the frame. -/
  | leave {v : View Registers} {front words : List UInt32} (hwords : v.words = front ++ words)
      (hfp : v.fp = stackPointer words) : Steps [.movReg .esp .ebp] v (v.drop front.length)
  /-- Restore the frame pointer. -/
  | restore {v : View Registers} {words : List UInt32} {w : UInt32} (hwords : v.words = w :: words) :
      Steps [.popReg .ebp] v { v.drop 1 with fp := w }

/-- Jumps that are taken. -/
inductive Jumps : List Instr → View Registers → Label → Prop
  | jump {v : View Registers} {l : Label} : Jumps [.jump l] v l
  | jcc {v : View Registers} {cond : Cond} {l : Label} (h : v.regs.flags.holds cond = true) :
      Jumps [.jcc cond l] v l

/-! ## Machines follow -/

/-- The machine looks like the view. -/
structure Sees (m : Machine) (v : View Registers) : Prop where
  reg : ∀ r, m.reg r = get v r
  flags : m.flags = v.regs.flags
  shows : v.Shows m.store.memory

/-- The machine looks like the view and is about to run the instruction of this index. -/
structure Stands (m : Machine) (k : Nat) (v : View Registers) : Prop where
  pc : m.pc = codeAddress k
  sees : Sees m v

section Follow

variable {p : Program Instr} {v v' : View Registers} {m : Machine} {site : UInt32}

theorem get_put? {r : Reg} {w : UInt32} (h : put? v r w = some v') (r' : Reg) :
    get v' r' = if r' = r then w else get v r' := by
  unfold put? at h
  split at h
  · cases h
  · cases h
  · rename_i hesp hebp
    obtain rfl := Option.some.inj h
    cases r' <;> simp_all [get, eq_comm]

theorem put?_words {r : Reg} {w : UInt32} (h : put? v r w = some v') :
    v'.words = v.words ∧ v'.free = v.free ∧ v'.regs.flags = v.regs.flags := by
  unfold put? at h
  split at h
  · cases h
  · cases h
  · obtain rfl := Option.some.inj h
    exact ⟨rfl, rfl, rfl⟩

theorem Sees.setReg {r : Reg} {w : UInt32} (h : Sees m v) (hput : put? v r w = some v') :
    Sees (m.setReg r w) v' := by
  obtain ⟨hwords, hfree, hflags⟩ := put?_words hput
  refine ⟨fun r' => ?_, ?_, ?_⟩
  · rw [get_put? hput]
    by_cases hr : r' = r
    · rw [if_pos hr, hr, Machine.reg_setReg_self]
    · rw [if_neg hr, Machine.reg_setReg_of_ne m w hr, h.reg]
  · rw [Machine.setReg_flags, h.flags, hflags]
  · refine ⟨?_, ?_⟩
    · rw [hwords, hfree]
      exact h.shows.length
    · rw [hwords]
      exact h.shows.holds

theorem Sees.withFlags (h : Sees m v) (flags : Flags) :
    Sees { m with flags } (withFlags v flags) where
  reg r := by
    have hr := h.reg r
    cases r <;> exact hr
  flags := rfl
  shows := ⟨h.shows.length, h.shows.holds⟩

theorem Sees.put_self {r : Reg} (h : Sees m v) (hput : put? v r (get v r) = some v') :
    Sees m v' := by
  obtain ⟨hwords, hfree, hflags⟩ := put?_words hput
  refine ⟨fun r' => ?_, by rw [h.flags, hflags], ?_, ?_⟩
  · rw [get_put? hput, h.reg]
    split
    · rename_i hr
      rw [hr]
    · rfl
  · rw [hwords, hfree]
    exact h.shows.length
  · rw [hwords]
    exact h.shows.holds

theorem Sees.fetched (h : Sees m v) (k : Nat) : Sees (m.fetched k) v :=
  ⟨h.reg, h.flags, h.shows⟩

theorem read_value {src : Operand} {w : UInt32} (h : Sees m v) (hvalue : value? v src = some w) :
    Machine.read p src m = .ok w m := by
  cases src with
  | reg r =>
    obtain rfl := Option.some.inj hvalue
    rw [← h.reg]
    rfl
  | part r width =>
    obtain rfl := Option.some.inj hvalue
    rw [← h.reg]
    rfl
  | imm value =>
    obtain rfl := Option.some.inj hvalue
    rfl
  | mem width mem => cases hvalue
  | addr symbol => cases hvalue

theorem Sees.push {w : UInt32} (h : Sees m v) (hpush : v.push? w = some v') :
    ∃ m', Machine.push w m = .ok () m' ∧ Sees m' v' ∧ m'.pc = m.pc := by
  obtain ⟨free, hfree, rfl⟩ := View.push?_eq_some hpush
  obtain ⟨s', hwrite, hholds⟩ :=
    Store.writeWord_push w (h.shows.length_lt hfree) h.shows.holds
  have hsp : m.reg .esp - 4 = stackPointer (w :: v.words) := by
    rw [h.reg]
    exact stackPointer_sub w v.words
  refine ⟨({ m with store := s' } : Machine).setReg .esp (stackPointer (w :: v.words)), ?_,
    ⟨fun r => ?_, h.flags, ?_, hholds⟩, rfl⟩
  · unfold Machine.push
    rw [bind_of_ok (Machine.get_apply .esp m), hsp, bind_of_ok (Machine.onStore_of_ok hwrite)]
    rfl
  · by_cases hr : r = .esp
    · subst hr
      exact Machine.reg_setReg_self _ _ _
    · rw [Machine.reg_setReg_of_ne _ _ hr]
      have hreg : m.reg r = get v r := h.reg r
      cases r <;> first | exact absurd rfl hr | exact hreg
  · have hlength := h.shows.length
    simp only [List.length_cons]
    omega

theorem Sees.pop {w : UInt32} {words : List UInt32} (h : Sees m v) (hwords : v.words = w :: words) :
    ∃ m', Machine.pop m = .ok w m' ∧ m'.pc = m.pc ∧
      Sees m' { v with words, free := v.free + 1 } := by
  have hholds := h.shows.holds
  rw [hwords] at hholds
  have hsp : m.reg .esp = stackPointer (w :: words) := by
    rw [h.reg, ← hwords]
    rfl
  refine ⟨m.setReg .esp (stackPointer words), ?_, rfl, fun r => ?_, h.flags, ?_, hholds.2.2⟩
  · unfold Machine.pop
    rw [bind_of_ok (Machine.get_apply .esp m), hsp,
      bind_of_ok (Machine.onStore_of_ok (Store.readWord_stackPointer hholds)),
      stackPointer_cons_add]
    rfl
  · by_cases hr : r = .esp
    · subst hr
      exact Machine.reg_setReg_self _ _ _
    · rw [Machine.reg_setReg_of_ne _ _ hr]
      have hreg : m.reg r = get v r := h.reg r
      cases r <;> first | exact absurd rfl hr | exact hreg
  · have hlength := h.shows.length
    rw [hwords, List.length_cons] at hlength
    simp only
    omega

theorem Sees.put {r : Reg} {w : UInt32} (h : Sees m v) (hput : put? v r w = some v') :
    ∃ m', Machine.put r w m = .ok () m' ∧ Sees m' v' ∧ m'.pc = m.pc :=
  ⟨_, rfl, h.setReg hput, rfl⟩

theorem Sees.setFlags (h : Sees m v) (flags : Flags → Flags) :
    ∃ m', Machine.setFlags flags m = .ok () m' ∧ Sees m' (X86.withFlags v (flags v.regs.flags)) ∧
      m'.pc = m.pc := by
  refine ⟨_, rfl, ?_, rfl⟩
  rw [h.flags]
  exact h.withFlags _

theorem accumulator_of_sees (h : Sees m v) : Machine.accumulator m = .ok (accumulator v) m := by
  rw [Machine.accumulator, bind_of_ok (Machine.get_apply .edx m), bind_of_ok (Machine.get_apply .eax m),
    h.reg, h.reg]
  rfl

theorem shiftCount_of_sees (h : Sees m v) (c : ShiftCount) :
    Machine.shiftCount c m = .ok (count v c) m := by
  cases c with
  | cl =>
    rw [count, ← h.reg]
    rfl
  | imm n => rfl

/-! ### Single instructions -/

section Instructions

variable (h : Sees m v)

include h

theorem read_reg (r : Reg) : Machine.read p (.reg r) m = .ok (get v r) m := read_value h rfl

theorem execute_pop {dst : Operand} (hstep : step v (.pop dst) = some v') :
    ∃ m', Machine.execute p site (.pop dst) m = .ok () m' ∧ Sees m' v' ∧ m'.pc = m.pc := by
  cases dst with
  | reg r =>
    cases hwords : v.words with
    | nil => simp [step, hwords] at hstep
    | cons w words =>
      rw [step, hwords] at hstep
      obtain ⟨t, ht, hpc, hsees⟩ := h.pop hwords
      refine ⟨t.setReg r w, ?_, hsees.setReg hstep, hpc⟩
      rw [Machine.execute, bind_of_ok ht]
      rfl
  | part | imm | mem | addr => cases hstep

theorem execute_mov {dst src : Operand} (hstep : step v (.mov dst src) = some v') :
    ∃ m', Machine.execute p site (.mov dst src) m = .ok () m' ∧ Sees m' v' ∧ m'.pc = m.pc := by
  cases dst with
  | reg dst =>
    obtain ⟨w, hw, hput⟩ := Option.bind_eq_some_iff.mp hstep
    rw [Machine.execute, bind_of_ok (read_value h hw)]
    exact h.put hput
  | part | imm | mem | addr => cases hstep

theorem execute_alu {op : AluOp} {dst src : Operand} (hstep : step v (.alu op dst src) = some v') :
    ∃ m', Machine.execute p site (.alu op dst src) m = .ok () m' ∧ Sees m' v' ∧ m'.pc = m.pc := by
  cases dst with
  | reg dst =>
    obtain ⟨w, hw, hrest⟩ := Option.bind_eq_some_iff.mp hstep
    have hflags := h.withFlags (alu op 32 (get v dst) w v.regs.flags.carry).2
    rw [Machine.execute, bind_of_ok (read_reg h dst), bind_of_ok (read_value h hw),
      bind_of_ok (estate_get_apply m), h.flags]
    by_cases hop : op = .cmp
    · rw [if_pos hop] at hrest
      obtain rfl := Option.some.inj hrest
      refine ⟨_, ?_, hflags, rfl⟩
      simp only [hop, ne_eq, not_true_eq_false, if_false]
      rfl
    · rw [if_neg hop] at hrest
      refine ⟨_, ?_, hflags.setReg hrest, rfl⟩
      simp only [hop, ne_eq, not_false_eq_true, if_true]
      rfl
  | part | imm | mem | addr => cases hstep

theorem execute_test {dst src : Operand} (hstep : step v (.test dst src) = some v') :
    ∃ m', Machine.execute p site (.test dst src) m = .ok () m' ∧ Sees m' v' ∧ m'.pc = m.pc := by
  cases dst with
  | reg dst =>
    obtain ⟨w, hw, hrest⟩ := Option.bind_eq_some_iff.mp hstep
    obtain rfl := Option.some.inj hrest
    rw [Machine.execute, bind_of_ok (read_reg h dst), bind_of_ok (read_value h hw)]
    exact ⟨_, rfl, h.withFlags _, rfl⟩
  | part | imm | mem | addr => cases hstep

theorem execute_neg {dst : Operand} (hstep : step v (.neg dst) = some v') :
    ∃ m', Machine.execute p site (.neg dst) m = .ok () m' ∧ Sees m' v' ∧ m'.pc = m.pc := by
  cases dst with
  | reg dst =>
    rw [Machine.execute, bind_of_ok (read_reg h dst)]
    exact ⟨_, rfl, (h.withFlags _).setReg hstep, rfl⟩
  | part | imm | mem | addr => cases hstep

theorem execute_not {dst : Operand} (hstep : step v (.not dst) = some v') :
    ∃ m', Machine.execute p site (.not dst) m = .ok () m' ∧ Sees m' v' ∧ m'.pc = m.pc := by
  cases dst with
  | reg dst =>
    rw [Machine.execute, bind_of_ok (read_reg h dst)]
    exact h.put hstep
  | part | imm | mem | addr => cases hstep

theorem execute_mul {src : Operand} (hstep : step v (.mul src) = some v') :
    ∃ m', Machine.execute p site (.mul src) m = .ok () m' ∧ Sees m' v' ∧ m'.pc = m.pc := by
  cases src with
  | reg src =>
    dsimp only [step] at hstep
    obtain ⟨v₁, h₁, hstep⟩ := Option.bind_eq_some_iff.mp hstep
    obtain ⟨v₂, h₂, hstep⟩ := Option.bind_eq_some_iff.mp hstep
    obtain rfl := Option.some.inj hstep
    rw [Machine.execute, bind_of_ok (Machine.get_apply .eax m), h.reg, bind_of_ok (read_reg h src),
      bind_of_ok (Machine.put_apply ..), bind_of_ok (Machine.put_apply ..)]
    exact ((h.setReg h₁).setReg h₂).setFlags _
  | part | imm | mem | addr => cases hstep

theorem execute_imul {dst : Reg} {src : Operand} (hstep : step v (.imul dst src) = some v') :
    ∃ m', Machine.execute p site (.imul dst src) m = .ok () m' ∧ Sees m' v' ∧ m'.pc = m.pc := by
  cases src with
  | reg src =>
    refine ⟨_, ?_, (h.withFlags _).setReg hstep, rfl⟩
    rw [Machine.execute, bind_of_ok (Machine.get_apply dst m), h.reg, bind_of_ok (read_reg h src), Machine.imul,
      ← h.flags]
    rfl
  | part | imm | mem | addr => cases hstep

theorem execute_div {src : Operand} (hstep : step v (.div src) = some v') :
    ∃ m', Machine.execute p site (.div src) m = .ok () m' ∧ Sees m' v' ∧ m'.pc = m.pc := by
  cases src with
  | reg src =>
    simp only [step] at hstep
    split at hstep
    · cases hstep
    · rename_i hfits
      obtain ⟨v₁, h₁, hstep⟩ := Option.bind_eq_some_iff.mp hstep
      have hfits' : ¬(get v src = 0 ∨ 0x100000000 ≤ accumulator v / (get v src).toNat) := by
        rwa [← UInt32.toNat_inj]
      rw [Machine.execute, bind_of_ok (read_reg h src), Machine.divide, bind_of_ok (accumulator_of_sees h)]
      dsimp only
      rw [if_neg hfits']
      exact ⟨_, rfl, (h.setReg h₁).setReg hstep, rfl⟩
  | part | imm | mem | addr => cases hstep

theorem execute_idiv {src : Operand} (hstep : step v (.idiv src) = some v') :
    ∃ m', Machine.execute p site (.idiv src) m = .ok () m' ∧ Sees m' v' ∧ m'.pc = m.pc := by
  cases src with
  | reg src =>
    simp only [step] at hstep
    split at hstep
    · cases hstep
    · rename_i hfits
      obtain ⟨v₁, h₁, hstep⟩ := Option.bind_eq_some_iff.mp hstep
      rw [Machine.execute, bind_of_ok (read_reg h src), Machine.divideSigned,
        bind_of_ok (accumulator_of_sees h)]
      dsimp only
      rw [if_neg hfits]
      exact ⟨_, rfl, (h.setReg h₁).setReg hstep, rfl⟩
  | part | imm | mem | addr => cases hstep

theorem execute_shift {kind : ShiftKind} {dst : Operand} {c : ShiftCount}
    (hstep : step v (.shift kind dst c) = some v') :
    ∃ m', Machine.execute p site (.shift kind dst c) m = .ok () m' ∧ Sees m' v' ∧ m'.pc = m.pc := by
  cases dst with
  | reg dst =>
    rw [step] at hstep
    rw [Machine.execute, Machine.shift, bind_of_ok (shiftCount_of_sees h c)]
    by_cases hc : count v c = 0
    · rw [shiftFlags, shifted, if_pos hc, if_pos hc] at hstep
      rw [if_neg (fun hne => hne hc)]
      exact ⟨m, rfl, h.put_self hstep, rfl⟩
    · rw [shiftFlags, shifted, if_neg hc, if_neg hc] at hstep
      rw [if_pos hc, bind_of_ok (read_reg h dst)]
      refine ⟨_, ?_, (h.withFlags _).setReg hstep, rfl⟩
      rw [← h.flags]
      rfl
  | part | imm | mem | addr => cases hstep

theorem shiftDouble_of_put {left : Bool} {dst src : Reg} {c : ShiftCount}
    (hput : put? v dst (shiftedDouble left (get v dst) (get v src) (count v c)) = some v') :
    ∃ m', Machine.shiftDouble p left (.reg dst) src c m = .ok () m' ∧ Sees m' v' ∧ m'.pc = m.pc := by
  rw [Machine.shiftDouble, bind_of_ok (shiftCount_of_sees h c)]
  unfold shiftedDouble at hput
  by_cases hc : count v c = 0
  · rw [if_pos hc] at hput
    rw [if_neg (fun hne => hne hc)]
    exact ⟨m, rfl, h.put_self hput, rfl⟩
  · rw [if_neg hc] at hput
    rw [if_pos hc, bind_of_ok (read_reg h dst), bind_of_ok (Machine.get_apply src m), h.reg]
    exact h.put hput

theorem execute_jcc {cond : Cond} {l : Label} (hstep : step v (.jcc cond l) = some v') :
    ∃ m', Machine.execute p site (.jcc cond l) m = .ok () m' ∧ Sees m' v' ∧ m'.pc = m.pc := by
  by_cases hcond : v.regs.flags.holds cond = true
  · rw [step, if_pos hcond] at hstep
    cases hstep
  · rw [step, if_neg hcond] at hstep
    obtain rfl := Option.some.inj hstep
    rw [Machine.execute, bind_of_ok (estate_get_apply m), h.flags, if_neg hcond]
    exact ⟨m, rfl, h, rfl⟩

end Instructions

theorem execute_of_step {instr : Instr} (h : Sees m v) (hstep : step v instr = some v') :
    ∃ m', Machine.execute p site instr m = .ok () m' ∧ Sees m' v' ∧ m'.pc = m.pc := by
  cases instr with
  | label | nop =>
    obtain rfl := Option.some.inj hstep
    exact ⟨m, rfl, h, rfl⟩
  | push src =>
    obtain ⟨w, hw, hpush⟩ := Option.bind_eq_some_iff.mp hstep
    rw [Machine.execute, bind_of_ok (read_value h hw)]
    exact h.push hpush
  | pop dst => exact execute_pop h hstep
  | mov dst src => exact execute_mov h hstep
  | movzx dst src | movsx dst src =>
    obtain ⟨w, hw, hput⟩ := Option.bind_eq_some_iff.mp hstep
    rw [Machine.execute, bind_of_ok (read_value h hw)]
    exact h.put hput
  | alu op dst src => exact execute_alu h hstep
  | test dst src => exact execute_test h hstep
  | neg dst => exact execute_neg h hstep
  | not dst => exact execute_not h hstep
  | mul src => exact execute_mul h hstep
  | imul dst src => exact execute_imul h hstep
  | div src => exact execute_div h hstep
  | idiv src => exact execute_idiv h hstep
  | cdq =>
    rw [Machine.execute, bind_of_ok (Machine.get_apply .eax m), h.reg]
    exact h.put hstep
  | shift kind dst c => exact execute_shift h hstep
  | shld dst src c | shrd dst src c =>
    cases dst with
    | reg dst => exact shiftDouble_of_put h hstep
    | part | imm | mem | addr => cases hstep
  | jcc cond target => exact execute_jcc h hstep
  | lea | imulImm | jmp | call | ret => cases hstep

theorem address_based (r : Reg) (disp : Int32) :
    Machine.address p (.based r disp) m = .ok (disp.toUInt32 + m.reg r) m := by
  show EStateM.Result.ok (disp.toUInt32 + m.reg r + 0) m = _
  rw [UInt32.add_zero]

theorem Sees.readMem {r : Reg} {disp : Int32} {front words : List UInt32} {w : UInt32} (h : Sees m v)
    (hwords : v.words = front ++ w :: words)
    (haddress : disp.toUInt32 + get v r = wordAddress words.length) :
    Machine.read p (.mem .dword (.based r disp)) m = .ok w m := by
  have hholds := h.shows.holds
  rw [hwords] at hholds
  rw [Machine.read, bind_of_ok (address_based r disp), h.reg, haddress]
  exact Machine.onStore_of_ok (Store.readWord_of_holds hholds)

theorem Sees.writeMem {r : Reg} {disp : Int32} {front words : List UInt32} {old : UInt32} (value : UInt32)
    (h : Sees m v) (hwords : v.words = front ++ old :: words)
    (haddress : disp.toUInt32 + get v r = wordAddress words.length) :
    ∃ m', Machine.write p value (.mem .dword (.based r disp)) m = .ok () m' ∧
      Sees m' { v with words := front ++ value :: words } ∧ m'.pc = m.pc := by
  have hholds := h.shows.holds
  rw [hwords] at hholds
  obtain ⟨s', hwrite, hholds'⟩ := Store.writeWord_of_holds value hholds
  have hlength : (front ++ value :: words).length = v.words.length := by
    rw [hwords, List.length_append, List.length_append]
    rfl
  refine ⟨{ m with store := s' }, ?_, ⟨fun r => ?_, h.flags, ?_, hholds'⟩, rfl⟩
  · rw [Machine.write, bind_of_ok (address_based r disp), h.reg, haddress]
    exact Machine.onStore_of_ok hwrite
  · have hreg : m.reg r = get v r := h.reg r
    cases r with
    | esp =>
      rw [get, stackPointer, hlength]
      exact hreg
    | eax | ecx | edx | ebx | ebp | esi | edi => exact hreg
  · show (front ++ value :: words).length + v.free = _
    rw [hlength]
    exact h.shows.length

/-- The stack pointer moves over words that memory holds. -/
theorem Sees.moveStack {words : List UInt32} {free : Nat} (h : Sees m v)
    (hlength : words.length + free = stackCapacity) (hholds : m.store.memory.Holds words) :
    Sees (m.setReg .esp (stackPointer words)) { v with words, free } := by
  refine ⟨fun r => ?_, h.flags, hlength, hholds⟩
  by_cases hr : r = .esp
  · subst hr
    exact Machine.reg_setReg_self _ _ _
  · rw [Machine.reg_setReg_of_ne _ _ hr]
    have hreg : m.reg r = get v r := h.reg r
    cases r with
    | esp => exact absurd rfl hr
    | eax | ecx | edx | ebx | ebp | esi | edi => exact hreg

/-- The stack pointer moves up over words that are dropped. -/
theorem Sees.dropWords {front words : List UInt32} (h : Sees m v) (hwords : v.words = front ++ words) :
    Sees (m.setReg .esp (stackPointer words)) (v.drop front.length) := by
  have hdrop : v.words.drop front.length = words := by rw [hwords, List.drop_left]
  have hshows := h.shows.drop hwords
  rw [View.drop, hdrop] at hshows ⊢
  exact h.moveStack hshows.length hshows.holds

theorem Sees.setFp (h : Sees m v) (fp : UInt32) : Sees (m.setReg .ebp fp) { v with fp } := by
  refine ⟨fun r => ?_, h.flags, h.shows.length, h.shows.holds⟩
  by_cases hr : r = .ebp
  · subst hr
    exact Machine.reg_setReg_self _ _ _
  · rw [Machine.reg_setReg_of_ne _ _ hr]
    have hreg : m.reg r = get v r := h.reg r
    cases r with
    | ebp => exact absurd rfl hr
    | eax | ecx | edx | ebx | esp | esi | edi => exact hreg

theorem execute_of_steps {group : List Instr} (site : UInt32) (h : Sees m v)
    (hsteps : Steps group v v') :
    ∃ instr, group = [instr] ∧
      ∃ m', Machine.execute p site instr m = .ok () m' ∧ Sees m' v' ∧ m'.pc = m.pc := by
  cases hsteps with
  | plain hstep => exact ⟨_, rfl, execute_of_step h hstep⟩
  | pushMem hwords haddress hpush =>
    obtain ⟨m', hm', hsees, hpc⟩ := h.push hpush
    refine ⟨_, rfl, m', ?_, hsees, hpc⟩
    rw [Instr.pushMem, Machine.execute, bind_of_ok (h.readMem hwords haddress), hm']
  | popMem hwords haddress =>
    obtain ⟨t, ht, hpc, hsees⟩ := h.pop hwords
    obtain ⟨m', hm', hsees', hpc'⟩ := hsees.writeMem (p := p) (r := .ebp) _ rfl haddress
    refine ⟨_, rfl, m', ?_, hsees', hpc'.trans hpc⟩
    rw [Instr.popMem, Machine.execute, bind_of_ok ht, hm']
  | load hwords haddress hput =>
    refine ⟨_, rfl, _, ?_, h.setReg hput, rfl⟩
    rw [Instr.load, Machine.execute, bind_of_ok (h.readMem hwords haddress)]
    rfl
  | @store _ src _ _ _ _ _ hwords haddress =>
    obtain ⟨m', hm', hsees, hpc⟩ := h.writeMem (p := p) (get v src) hwords haddress
    refine ⟨_, rfl, m', ?_, hsees, hpc⟩
    rw [Instr.store, Machine.execute, bind_of_ok (read_value h rfl), hm']
  | @drop _ disp front words hwords hdisp =>
    have hsp : (alu .add 32 (stackPointer v.words) disp.toUInt32 v.regs.flags.carry).1 =
        stackPointer words := by
      rw [alu_add, hdisp, hwords, stackPointer_append]
    have hreg : Machine.read p (.reg .esp) m = .ok (stackPointer v.words) m := read_value h rfl
    refine ⟨_, rfl, _, ?_, (h.dropWords hwords).withFlags _, rfl⟩
    rw [Instr.aluImm, Machine.execute, bind_of_ok hreg, bind_of_ok (read_value h rfl),
      bind_of_ok (estate_get_apply m), h.flags, ← hsp]
    rfl
  | enter =>
    refine ⟨_, rfl, _, ?_, h.setFp _, rfl⟩
    rw [Instr.movReg, Machine.execute, bind_of_ok (read_value h rfl)]
    rfl
  | @leave _ front words hwords hfp =>
    have hvalue : value? v (.reg .ebp) = some (stackPointer words) := by
      rw [← hfp]
      rfl
    refine ⟨_, rfl, _, ?_, h.dropWords hwords, rfl⟩
    rw [Instr.movReg, Machine.execute, bind_of_ok (read_value h hvalue)]
    rfl
  | @restore _ words w hwords =>
    obtain ⟨t, ht, hpc, hsees⟩ := h.pop hwords
    have hdrop : v.words.drop 1 = words := by
      rw [hwords]
      rfl
    refine ⟨_, rfl, t.setReg .ebp w, ?_, ?_, hpc⟩
    · rw [Instr.popReg, Machine.execute, bind_of_ok ht]
      rfl
    · rw [View.drop, hdrop]
      exact hsees.setFp w

theorem cycles_of_steps {base : Nat} {group : List Instr} (hfits : p.code.size ≤ codeLimit)
    (hplaced : Placed p base group) (hsteps : Steps group v v') (hstands : Stands m base v) :
    ∃ m', Cycles (Machine.cycle p) group.length m m' ∧ Stands m' (base + group.length) v' := by
  obtain ⟨instr, rfl, m', hm', hsees, hpc⟩ := execute_of_steps (p := p) (codeAddress base)
    (hstands.sees.fetched base) hsteps
  have hinstr : p.code[base]? = some instr := hplaced.fetch 0 instr rfl
  refine ⟨m', .one ?_, ?_, hsees⟩
  · rw [Machine.cycle_at hfits hstands.pc hinstr, hm']
  · rw [hpc]
    rfl

theorem cycles_of_jumps {base k : Nat} {group : List Instr} {l : Label}
    (hfits : p.code.size ≤ codeLimit) (hplaced : Placed p base group) (hjumps : Jumps group v l)
    (hlabel : p.labels[l]? = some k) (hstands : Stands m base v) :
    ∃ n m', n ≤ group.length ∧ Cycles (Machine.cycle p) n m m' ∧ Stands m' k v := by
  have haddress : p.labelAddress l = .ok (codeAddress k) := by
    unfold Program.labelAddress
    rw [hlabel]
  have hsees := hstands.sees.fetched base
  have hlift : Machine.lift (p.labelAddress l) (m.fetched base) =
      .ok (codeAddress k) (m.fetched base) := by
    rw [haddress]
    rfl
  refine ⟨1, { m.fetched base with pc := codeAddress k }, ?_, .one ?_, rfl, hsees.reg, hsees.flags,
    hsees.shows⟩
  · cases hjumps <;> exact Nat.le_refl 1
  · cases hjumps with
    | jump =>
      rw [Machine.cycle_at hfits hstands.pc (hplaced.fetch 0 _ rfl), Instr.jump, Machine.execute,
        Machine.targetAddress, bind_of_ok hlift]
      rfl
    | jcc hcond =>
      rw [Machine.cycle_at hfits hstands.pc (hplaced.fetch 0 _ rfl), Machine.execute,
        bind_of_ok (estate_get_apply _), hsees.flags, if_pos hcond, bind_of_ok hlift]
      rfl

end Follow

instance : Semantics Instr Registers Machine where
  cycle := Machine.cycle
  memory m := m.store.memory
  Stands := Stands
  Steps := Steps
  Jumps := Jumps
  shows_of_stands h := h.sees.shows
  steps_label _ _ := .plain rfl
  cycles_of_steps := cycles_of_steps
  cycles_of_jumps := cycles_of_jumps

theorem exec_of_run {code : List Instr} {v v' : View Registers} (h : run v code = some v') :
    Exec code v .next v' := by
  induction code generalizing v with
  | nil =>
    obtain rfl := Option.some.inj h
    exact .nil
  | cons instr code ih =>
    obtain ⟨t, hstep, hrest⟩ := Option.bind_eq_some_iff.mp h
    have hsteps : Steps [instr] v t := .plain hstep
    exact Exec.steps hsteps (ih hrest)

end Stencil.X86
