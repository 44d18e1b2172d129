import Stencil.Proofs.Height.Track
import Stencil.Proofs.X86.Labels
import Stencil.Proofs.X86.Machine
import Mathlib.Logic.Relation

/-!
# The x86 stack pointer inside a template

What each instruction adds to `esp`, and that a template which is tracked leaves with the tracked
distance on every path.
-/

namespace Stencil.X86

open AddressMap Stateful

/-- Writing the operand changes neither the stack pointer nor the frame pointer. -/
def Operand.sparesStack : Operand → Bool
  | .reg r | .part r _ => r ≠ .esp && r ≠ .ebp
  | _ => true

/-- The register is neither the stack pointer nor the frame pointer. -/
def Reg.sparesStack (r : Reg) : Bool := Operand.sparesStack (.reg r)

namespace Instr

/-- What an operation on two operands adds to the stack pointer. -/
def aluMoves? (op : AluOp) (dst src : Operand) : Option UInt32 :=
  if op = .cmp ∨ dst.sparesStack then some 0
  else
    match op, dst, src with
    | .add, .reg .esp, .imm value => some value.toUInt32
    | .sub, .reg .esp, .imm value => some (-value.toUInt32)
    | _, _, _ => none

/-- What the instruction adds to the stack pointer when it goes on to the next one. -/
def moves? : Instr → Option UInt32
  | .push _ => some (-4)
  | .pop dst => if dst.sparesStack then some 4 else none
  | .alu op dst src => aluMoves? op dst src
  | .mov dst _ | .neg dst | .not dst | .shift _ dst _ | .shld dst _ _ | .shrd dst _ _ =>
    if dst.sparesStack then some 0 else none
  | .movzx dst _ | .movsx dst _ | .lea dst _ | .imul dst _ | .imulImm dst _ _ =>
    if dst.sparesStack then some 0 else none
  | .test _ _ | .mul _ | .div _ | .idiv _ | .cdq | .nop => some 0
  | .label _ | .jmp _ | .jcc _ _ | .call _ | .ret => none

/-- The instruction calls an intrinsic that never returns. -/
def stops : Instr → Prop
  | .call (.symbol s) => ∃ intrinsic : Intrinsic, intrinsic.neverReturns = true ∧ s = intrinsic.symbol
  | _ => False

end Instr

instance : StackUse Instr where
  moves? := Instr.moves?
  Branches code l := ∃ cond, code = [.jcc cond l]
  Jumps code l := code = [.jmp (.label l)]
  Calls code := ∃ target, code = [.call target] ∧ ∀ l, target ≠ .label l
  Stops code := ∃ instr, code = [instr] ∧ instr.stops
  unbound_of_moves {instr _} h := by
    cases instr <;> first | rfl | cases h
  labels_of_branches := by
    rintro _ l ⟨cond, rfl⟩
    exact ⟨rfl, rfl⟩
  labels_of_jumps := by
    rintro _ l rfl
    exact ⟨rfl, rfl⟩
  labels_of_calls := by
    rintro _ ⟨target, rfl, htarget⟩
    cases target with
    | label l => exact absurd rfl (htarget l)
    | symbol s => exact ⟨rfl, rfl⟩
    | reg r => exact ⟨rfl, rfl⟩
  labels_of_stops := by
    rintro _ ⟨instr, rfl, hstops⟩
    unfold Instr.stops at hstops
    split at hstops
    · exact ⟨rfl, rfl⟩
    · cases hstops
  not_calls_nil h := by
    obtain ⟨_, h, _⟩ := h
    cases h
  not_stops_nil h := by
    obtain ⟨_, h, _⟩ := h
    cases h

/-! ## Single instructions -/

instance : StackMachine Machine UInt32 where
  sp m := m.reg .esp
  fp m := m.reg .ebp
  place := Machine.pc

namespace Machine

theorem moved_iff {d : UInt32} {m m' : Machine} :
    Moved d m m' ↔
      m'.reg .esp = m.reg .esp + d ∧ m'.reg .ebp = m.reg .ebp ∧ m'.pc = m.pc :=
  ⟨fun h => ⟨h.sp, h.fp, h.place⟩, fun ⟨hsp, hfp, hpc⟩ => ⟨hsp, hfp, hpc⟩⟩

theorem get_adds (r : Reg) : Adds 0 (get r) := by
  intro m a m' h
  cases h
  exact .refl m

theorem setFlags_adds (f : Flags → Flags) : Adds 0 (setFlags f) := by
  intro m a m' h
  cases h
  exact ⟨(UInt32.add_zero _).symm, rfl, rfl⟩

theorem lift_adds {α : Type} (x : Except Fault α) : Adds 0 (lift x) := by
  cases x with
  | ok a => exact .pure a
  | error fault => exact .throw fault

theorem put_adds {r : Reg} (h : r.sparesStack = true) (value : UInt32) : Adds 0 (put r value) := by
  intro m a m' hput
  cases hput
  have hne : r ≠ .esp ∧ r ≠ .ebp := by simpa [Reg.sparesStack, Operand.sparesStack] using h
  refine moved_iff.mpr ⟨?_, ?_, rfl⟩
  · rw [reg_setReg_of_ne _ _ hne.1.symm, UInt32.add_zero]
  · rw [reg_setReg_of_ne _ _ hne.2.symm]

theorem onStore_adds {α : Type} (action : StoreM α) : Adds 0 (onStore action) := by
  intro m a m' h
  unfold onStore at h
  dsimp only at h
  split at h
  · cases h
    exact ⟨(UInt32.add_zero _).symm, rfl, rfl⟩
  · cases h

theorem push_adds (value : UInt32) : Adds (-4) (push value) := by
  intro m a m' h
  obtain ⟨sp, m₁, hsp, h⟩ := bind_eq_ok.mp h
  cases hsp
  obtain ⟨_, m₂, hwrite, h⟩ := bind_eq_ok.mp h
  cases h
  obtain ⟨-, hfp, hpc⟩ := moved_iff.mp (onStore_adds _ m _ m₂ hwrite)
  refine moved_iff.mpr ⟨by rw [reg_setReg_self, UInt32.sub_eq_add_neg], ?_, hpc⟩
  rw [reg_setReg_of_ne _ _ (by decide), hfp]

theorem pop_adds : Adds 4 pop := by
  intro m a m' h
  obtain ⟨sp, m₁, hsp, h⟩ := bind_eq_ok.mp h
  cases hsp
  obtain ⟨value, m₂, hread, h⟩ := bind_eq_ok.mp h
  cases h
  obtain ⟨-, hfp, hpc⟩ := moved_iff.mp (onStore_adds _ m _ m₂ hread)
  refine moved_iff.mpr ⟨by rw [reg_setReg_self], ?_, hpc⟩
  rw [reg_setReg_of_ne _ _ (by decide), hfp]

variable (p : Program Instr)

theorem address_adds (mem : Mem) : Adds 0 (address p mem) := by
  obtain ⟨base, symbol, disp⟩ := mem
  cases base with
  | none =>
    cases symbol with
    | none => exact .after (.pure _) fun _ => .after (.pure _) fun _ => .pure _
    | some s => exact .after (.pure _) fun _ => .after (lift_adds _) fun _ => .pure _
  | some r =>
    cases symbol with
    | none => exact .after (get_adds r) fun _ => .after (.pure _) fun _ => .pure _
    | some s => exact .after (get_adds r) fun _ => .after (lift_adds _) fun _ => .pure _

theorem read_adds (o : Operand) : Adds 0 (read p o) := by
  cases o with
  | reg r => exact get_adds r
  | part r width => exact .after (get_adds r) fun _ => .pure _
  | imm value => exact .pure _
  | mem width m => exact .after (address_adds p m) fun _ => onStore_adds _
  | addr symbol => exact lift_adds _

theorem write_adds {o : Operand} (h : o.sparesStack = true) (value : UInt32) :
    Adds 0 (write p value o) := by
  cases o with
  | reg r => exact put_adds h value
  | part r width => exact .after (get_adds r) fun _ => put_adds h _
  | mem width m => exact .after (address_adds p m) fun _ => onStore_adds _
  | imm value => exact fun _ _ _ h => nomatch h
  | addr symbol => exact fun _ _ _ h => nomatch h

theorem shiftCount_adds (count : ShiftCount) : Adds 0 (shiftCount count) := by
  cases count with
  | cl => exact .after (get_adds _) fun _ => .pure _
  | imm n => exact .pure _

theorem imul_adds {dst : Reg} (h : dst.sparesStack = true) (lhs rhs : UInt32) :
    Adds 0 (imul dst lhs rhs) :=
  .after (setFlags_adds _) fun _ => put_adds h _

theorem divide_adds (divisor : UInt32) : Adds 0 (divide divisor) := by
  have hput := fun q r => Adds.after (put_adds (r := .eax) rfl q) fun _ => put_adds (r := .edx) rfl r
  have haccumulator : Adds 0 accumulator :=
    .after (get_adds _) fun _ => .after (get_adds _) fun _ => .pure _
  exact .after haccumulator fun _ => .ite (.after (.throw _) fun _ => hput _ _) (hput _ _)

theorem divideSigned_adds (divisor : UInt32) : Adds 0 (divideSigned divisor) := by
  have hput := fun q r => Adds.after (put_adds (r := .eax) rfl q) fun _ => put_adds (r := .edx) rfl r
  have haccumulator : Adds 0 accumulator :=
    .after (get_adds _) fun _ => .after (get_adds _) fun _ => .pure _
  exact .after haccumulator fun _ => .ite (.after (.throw _) fun _ => hput _ _) (hput _ _)

theorem shift_adds {dst : Operand} (h : dst.sparesStack = true) (kind : ShiftKind)
    (count : ShiftCount) : Adds 0 (shift p kind dst count) := by
  refine .after (shiftCount_adds count) fun _ => .ite ?_ (.pure _)
  exact .after (read_adds p dst) fun _ => .after (setFlags_adds _) fun _ => write_adds p h _

theorem shiftDouble_adds {dst : Operand} (h : dst.sparesStack = true) (left : Bool) (src : Reg)
    (count : ShiftCount) : Adds 0 (shiftDouble p left dst src count) := by
  refine .after (shiftCount_adds count) fun _ => .ite ?_ (.pure _)
  exact .after (read_adds p dst) fun _ => .after (get_adds src) fun _ => write_adds p h _

theorem alu_adds {op : AluOp} {dst : Operand} (h : op = .cmp ∨ dst.sparesStack = true)
    (site : UInt32) (src : Operand) : Adds 0 (execute p site (.alu op dst src)) := by
  refine .after (read_adds p dst) fun _ => .after (read_adds p src) fun _ =>
    .after .state fun _ => .after (setFlags_adds _) fun _ => ?_
  rcases h with rfl | h
  · exact .pure _
  · exact .ite (write_adds p h _) (.pure _)

theorem alu_esp_adds {op : AluOp} {value : Int32} {d : UInt32} (site : UInt32) (hop : op ≠ .cmp)
    (h : ∀ a carry, (alu op 32 a value.toUInt32 carry).1 = a + d) :
    Adds d (execute p site (.alu op (.reg .esp) (.imm value))) := by
  intro m a m' hrun
  simp only [execute, read, get, bind_apply, pure_apply, estate_get_apply, setFlags,
    operandBits] at hrun
  rw [if_pos hop] at hrun
  simp only [write, put, EStateM.Result.ok.injEq, true_and] at hrun
  subst hrun
  refine moved_iff.mpr ⟨?_, ?_, rfl⟩
  · rw [reg_setReg_self, h]
  · rw [reg_setReg_of_ne _ _ (by decide)]
    rfl

theorem execute_alu_adds {site : UInt32} {op : AluOp} {dst src : Operand} {d : UInt32}
    (h : Instr.aluMoves? op dst src = some d) : Adds d (execute p site (.alu op dst src)) := by
  unfold Instr.aluMoves? at h
  split at h
  · rename_i hspares
    obtain rfl := Option.some.inj h
    exact alu_adds p hspares site src
  · split at h
    · obtain rfl := Option.some.inj h
      exact alu_esp_adds p site (by decide) fun a carry => alu_add a _ carry
    · obtain rfl := Option.some.inj h
      refine alu_esp_adds p site (by decide) fun a carry => ?_
      rw [alu_sub, UInt32.sub_eq_add_neg]
    · cases h

/-- An instruction that goes on adds what it says to the stack pointer. -/
theorem execute_adds {site : UInt32} {instr : Instr} {d : UInt32} (h : instr.moves? = some d) :
    Adds d (execute p site instr) := by
  have hread := read_adds p
  have hspares : ∀ {b : Bool} {e : UInt32}, (if b then some e else none) = some d →
      b = true ∧ e = d := by
    intro b e heq
    cases b with
    | false => cases heq
    | true => exact ⟨rfl, Option.some.inj heq⟩
  cases instr with
  | label l | jmp target | jcc cond target | call target | ret => cases h
  | nop =>
    obtain rfl := Option.some.inj h
    exact .pure _
  | mov dst src =>
    obtain ⟨hdst, rfl⟩ := hspares h
    exact .after (hread _) fun _ => write_adds p hdst _
  | movzx dst src =>
    obtain ⟨hdst, rfl⟩ := hspares h
    exact .after (hread _) fun _ => put_adds hdst _
  | movsx dst src =>
    obtain ⟨hdst, rfl⟩ := hspares h
    exact .after (hread _) fun _ => put_adds hdst _
  | lea dst src =>
    obtain ⟨hdst, rfl⟩ := hspares h
    exact .after (address_adds p src) fun _ => put_adds hdst _
  | push src =>
    obtain rfl := Option.some.inj h
    exact .after (hread _) fun _ => push_adds _
  | pop dst =>
    obtain ⟨hdst, rfl⟩ := hspares h
    exact .before pop_adds fun _ => write_adds p hdst _
  | alu op dst src => exact execute_alu_adds p h
  | test dst src =>
    obtain rfl := Option.some.inj h
    exact .after (hread _) fun _ => .after (hread _) fun _ => setFlags_adds _
  | neg dst =>
    obtain ⟨hdst, rfl⟩ := hspares h
    exact .after (hread _) fun _ => .after (setFlags_adds _) fun _ => write_adds p hdst _
  | not dst =>
    obtain ⟨hdst, rfl⟩ := hspares h
    exact .after (hread _) fun _ => write_adds p hdst _
  | mul src =>
    obtain rfl := Option.some.inj h
    exact .after (get_adds _) fun _ => .after (hread _) fun _ => .after (put_adds rfl _) fun _ =>
      .after (put_adds rfl _) fun _ => setFlags_adds _
  | imul dst src =>
    obtain ⟨hdst, rfl⟩ := hspares h
    exact .after (get_adds _) fun _ => .after (hread _) fun _ => imul_adds hdst _ _
  | imulImm dst src imm =>
    obtain ⟨hdst, rfl⟩ := hspares h
    exact .after (hread _) fun _ => imul_adds hdst _ _
  | div src =>
    obtain rfl := Option.some.inj h
    exact .after (hread _) fun _ => divide_adds _
  | idiv src =>
    obtain rfl := Option.some.inj h
    exact .after (hread _) fun _ => divideSigned_adds _
  | cdq =>
    obtain rfl := Option.some.inj h
    exact .after (get_adds _) fun _ => put_adds rfl _
  | shift kind dst count =>
    obtain ⟨hdst, rfl⟩ := hspares h
    exact shift_adds p hdst kind count
  | shld dst src count =>
    obtain ⟨hdst, rfl⟩ := hspares h
    exact shiftDouble_adds p hdst true src count
  | shrd dst src count =>
    obtain ⟨hdst, rfl⟩ := hspares h
    exact shiftDouble_adds p hdst false src count

end Machine

end Stencil.X86
