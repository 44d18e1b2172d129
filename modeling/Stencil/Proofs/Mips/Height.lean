import Stencil.Proofs.Height.Track
import Stencil.Proofs.Mips.Labels
import Stencil.Proofs.Mips.Machine

/-!
# The MIPS32 stack pointer inside a template

What each instruction adds to `$sp`. Branches, jumps and calls come with the `nop` in their delay
slot.
-/

namespace Stencil.Mips

open AddressMap Stateful

/-- The register is neither the stack pointer nor the frame pointer. -/
def Reg.sparesStack (r : Reg) : Bool := r ≠ .sp && r ≠ .fp

namespace Instr

/-- What an operation with an immediate adds to the stack pointer. -/
def aluImmMoves? (op : ImmOp) (dst src : Reg) (imm : Int32) : Option UInt32 :=
  if dst.sparesStack then some 0
  else
    match op, dst, src with
    | .addiu, .sp, .sp => some imm.toUInt32
    | _, _, _ => none

/-- What the instruction adds to the stack pointer when it goes on to the next one. -/
def moves? : Instr → Option UInt32
  | .aluImm op dst src imm => aluImmMoves? op dst src imm
  | .alu _ dst _ _ | .shift _ dst _ _ | .mfhi dst | .mflo dst | .li dst _ | .la dst _ | .move dst _
  | .load _ _ dst _ _ => if dst.sparesStack then some 0 else none
  | .mult _ _ _ | .div _ _ _ | .store _ _ _ _ | .nop => some 0
  | .label _ | .branch _ _ _ _ | .branchZero _ _ _ | .j _ | .jal _ | .jalr _ | .jr _ => none

/-- The instruction may go to the label after its delay slot, or goes on. -/
def branchesTo (l : Label) : Instr → Prop
  | .branch _ _ _ target | .branchZero _ _ target => target = l
  | _ => False

def isCall : Instr → Bool
  | .jal _ | .jalr _ => true
  | _ => false

end Instr

instance : StackUse Instr where
  moves? := Instr.moves?
  Branches code l := ∃ instr, code = [instr, .nop] ∧ instr.branchesTo l
  Jumps code l := code = [.j l, .nop]
  Calls code := ∃ instr, code = [instr, .nop] ∧ instr.isCall = true
  Stops code := ∃ intrinsic : Intrinsic, intrinsic.neverReturns = true ∧
    code = [.jal intrinsic.symbol, .nop]
  unbound_of_moves {instr _} h := by
    cases instr <;> first | rfl | cases h
  labels_of_branches := by
    rintro _ l ⟨instr, rfl, hbranches⟩
    cases instr with
    | branch | branchZero =>
      obtain rfl := hbranches
      exact ⟨rfl, rfl⟩
    | _ => exact hbranches.elim
  labels_of_jumps := by
    rintro _ l rfl
    exact ⟨rfl, rfl⟩
  labels_of_calls := by
    rintro _ ⟨instr, rfl, hcall⟩
    cases instr with
    | jal | jalr => exact ⟨rfl, rfl⟩
    | _ => cases hcall
  labels_of_stops := by
    rintro _ ⟨intrinsic, -, rfl⟩
    exact ⟨rfl, rfl⟩
  not_calls_nil h := by
    obtain ⟨_, h, _⟩ := h
    cases h
  not_stops_nil h := by
    obtain ⟨_, _, h⟩ := h
    cases h

/-! ## Single instructions -/

instance : StackMachine Machine (UInt32 × UInt32) where
  sp m := m.reg .sp
  fp m := m.reg .fp
  place m := (m.pc, m.npc)

namespace Machine

theorem moved_iff {d : UInt32} {m m' : Machine} :
    Moved d m m' ↔
      m'.reg .sp = m.reg .sp + d ∧ m'.reg .fp = m.reg .fp ∧ m'.pc = m.pc ∧ m'.npc = m.npc := by
  constructor
  · intro h
    obtain ⟨hpc, hnpc⟩ := Prod.mk.inj h.place
    exact ⟨h.sp, h.fp, hpc, hnpc⟩
  · rintro ⟨hsp, hfp, hpc, hnpc⟩
    exact ⟨hsp, hfp, Prod.ext hpc hnpc⟩

theorem get_adds (r : Reg) : Adds 0 (get r) := by
  intro m a m' h
  cases h
  exact .refl m

theorem lift_adds {α : Type} (x : Except Fault α) : Adds 0 (lift x) := by
  cases x with
  | ok a => exact .pure a
  | error fault => exact .throw fault

theorem setHiLo_adds (hi lo : UInt32) : Adds 0 (setHiLo hi lo) := by
  intro m a m' h
  cases h
  exact moved_iff.mpr ⟨(UInt32.add_zero _).symm, rfl, rfl, rfl⟩

theorem setReg_moved {r : Reg} (h : r.sparesStack = true) (m : Machine) (value : UInt32) :
    Moved 0 m (m.setReg r value) := by
  have hne : r ≠ .sp ∧ r ≠ .fp := by simpa [Reg.sparesStack] using h
  refine moved_iff.mpr ⟨?_, ?_, setReg_pc m r value, setReg_npc m r value⟩
  · rw [reg_setReg_of_ne _ _ hne.1.symm, UInt32.add_zero]
  · rw [reg_setReg_of_ne _ _ hne.2.symm]

theorem put_adds {r : Reg} (h : r.sparesStack = true) (value : UInt32) : Adds 0 (put r value) := by
  intro m a m' hput
  cases hput
  exact setReg_moved h m value

theorem onStore_adds {α : Type} (action : StoreM α) : Adds 0 (onStore action) := by
  intro m a m' h
  unfold onStore at h
  dsimp only at h
  split at h
  · cases h
    exact moved_iff.mpr ⟨(UInt32.add_zero _).symm, rfl, rfl, rfl⟩
  · cases h

theorem address_adds (width : Width) (offset : Int32) (base : Reg) :
    Adds 0 (address width offset base) :=
  .after (get_adds base) fun _ => .ite (.after (.throw _) fun _ => .pure _) (.pure _)

variable (p : Program Instr)

theorem addiu_sp_adds (imm : Int32) :
    Adds imm.toUInt32 (execute p (.aluImm .addiu .sp .sp imm)) := by
  intro m a m' h
  simp only [execute, get, put, bind_apply, pure_apply, aluImm] at h
  obtain ⟨-, rfl⟩ := EStateM.Result.ok.inj h
  refine moved_iff.mpr ⟨?_, ?_, setReg_pc m _ _, setReg_npc m _ _⟩
  · rw [reg_setReg_self _ _ (by decide)]
  · rw [reg_setReg_of_ne _ _ (by decide)]

theorem execute_aluImm_adds {op : ImmOp} {dst src : Reg} {imm : Int32} {d : UInt32}
    (h : Instr.aluImmMoves? op dst src imm = some d) :
    Adds d (execute p (.aluImm op dst src imm)) := by
  unfold Instr.aluImmMoves? at h
  split at h
  · rename_i hspares
    obtain rfl := Option.some.inj h
    exact .after (get_adds _) fun _ => .after (put_adds hspares _) fun _ => .pure _
  · split at h
    · obtain rfl := Option.some.inj h
      exact addiu_sp_adds p _
    · cases h

/-- An instruction that goes on adds what it says to the stack pointer. -/
theorem execute_adds {instr : Instr} {d : UInt32} (h : instr.moves? = some d) :
    Adds d (execute p instr) := by
  have hspares : ∀ {r : Reg}, (if r.sparesStack then some (0 : UInt32) else none) = some d →
      r.sparesStack = true ∧ 0 = d := by
    intro r heq
    split at heq
    · rename_i hr
      exact ⟨hr, Option.some.inj heq⟩
    · cases heq
  cases instr with
  | label | branch | branchZero | j | jal | jalr | jr => cases h
  | nop =>
    obtain rfl := Option.some.inj h
    exact .pure _
  | aluImm op dst src imm => exact execute_aluImm_adds p h
  | alu op dst lhs rhs =>
    obtain ⟨hdst, rfl⟩ := hspares h
    exact .after (get_adds _) fun _ => .after (get_adds _) fun _ => .after (put_adds hdst _) fun _ =>
      .pure _
  | shift op dst src amount =>
    obtain ⟨hdst, rfl⟩ := hspares h
    exact .after (get_adds _) fun _ => .after (put_adds hdst _) fun _ => .pure _
  | mult lhs rhs unsigned =>
    obtain rfl := Option.some.inj h
    exact .after (get_adds _) fun _ => .after (get_adds _) fun _ => .after (setHiLo_adds _ _) fun _ =>
      .pure _
  | div lhs rhs unsigned =>
    obtain rfl := Option.some.inj h
    have hrest : ∀ divisor, Adds 0 (get lhs >>= fun dividend =>
        setHiLo (quotient unsigned dividend divisor).2 (quotient unsigned dividend divisor).1 >>=
          fun _ => (pure none : Run (Option UInt32))) := fun divisor =>
      .after (get_adds _) fun _ => .after (setHiLo_adds _ _) fun _ => .pure _
    exact .after (get_adds _) fun divisor =>
      .ite (.after (.throw _) fun _ => hrest divisor) (hrest divisor)
  | mfhi dst =>
    obtain ⟨hdst, rfl⟩ := hspares h
    intro m a m' hrun
    obtain ⟨-, rfl⟩ := EStateM.Result.ok.inj hrun
    exact setReg_moved hdst m _
  | mflo dst =>
    obtain ⟨hdst, rfl⟩ := hspares h
    intro m a m' hrun
    obtain ⟨-, rfl⟩ := EStateM.Result.ok.inj hrun
    exact setReg_moved hdst m _
  | li dst imm =>
    obtain ⟨hdst, rfl⟩ := hspares h
    exact .after (put_adds hdst _) fun _ => .pure _
  | la dst symbol =>
    obtain ⟨hdst, rfl⟩ := hspares h
    exact .after (lift_adds _) fun _ => .after (put_adds hdst _) fun _ => .pure _
  | move dst src =>
    obtain ⟨hdst, rfl⟩ := hspares h
    exact .after (get_adds _) fun _ => .after (put_adds hdst _) fun _ => .pure _
  | load width signed dst offset base =>
    obtain ⟨hdst, rfl⟩ := hspares h
    exact .after (address_adds _ _ _) fun _ => .after (onStore_adds _) fun _ =>
      .after (put_adds hdst _) fun _ => .pure _
  | store width src offset base =>
    obtain rfl := Option.some.inj h
    exact .after (address_adds _ _ _) fun _ => .after (get_adds _) fun _ =>
      .after (onStore_adds _) fun _ => .pure _

def GoesOn (x : Run (Option UInt32)) : Prop := ∀ m next m', x m = .ok next m' → next = none

theorem GoesOn.pure : GoesOn (pure none) := by
  intro m next m' h
  exact (EStateM.Result.ok.inj h).1.symm

theorem GoesOn.bind {α : Type} {x : Run α} {f : α → Run (Option UInt32)} (h : ∀ a, GoesOn (f a)) :
    GoesOn (x >>= f) := by
  intro m next m' hrun
  obtain ⟨a, t, -, hrest⟩ := bind_eq_ok.mp hrun
  exact h a t next m' hrest

/-- An instruction without a delay slot goes on to the next one. -/
theorem execute_goesOn_of_plain {instr : Instr} (h : instr.hasDelaySlot = false) :
    GoesOn (execute p instr) := by
  cases instr with
  | branch | branchZero | j | jal | jalr | jr => cases h
  | label | nop => exact .pure
  | alu | mult => exact .bind fun _ => .bind fun _ => .bind fun _ => .pure
  | aluImm | shift | la | move => exact .bind fun _ => .bind fun _ => .pure
  | li => exact .bind fun _ => .pure
  | load | store => exact .bind fun _ => .bind fun _ => .bind fun _ => .pure
  | mfhi | mflo =>
    intro m next m' hrun
    exact (EStateM.Result.ok.inj hrun).1.symm
  | div lhs rhs unsigned =>
    refine .bind fun divisor => ?_
    split
    · exact .bind fun _ => .bind fun _ => .bind fun _ => .pure
    · exact .bind fun _ => .bind fun _ => .pure

theorem execute_goesOn {instr : Instr} {d : UInt32} (h : instr.moves? = some d) :
    GoesOn (execute p instr) := by
  refine execute_goesOn_of_plain p ?_
  cases instr <;> first | rfl | cases h

end Machine

end Stencil.Mips
