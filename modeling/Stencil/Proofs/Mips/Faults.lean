import Stencil.Mips.Machine
import Stencil.Proofs.Machine.Faults
import Stencil.Proofs.Mips.Labels

/-!
# Faults of the MIPS32 machine

Of all that an instruction does, only going to a label can fault for want of one, only a symbol that it
mentions can be unknown, and only the address of a load or a store can be unaligned. Exceptions are left to
the intrinsics.
-/

namespace Stencil.Mips

/-- The width, the offset and the base of a load or a store. -/
def Instr.access? : Instr → Option (Width × Int32 × Reg)
  | .load width _ _ offset base | .store width _ offset base => some (width, offset, base)
  | _ => none

namespace Machine

section Faults

variable {E : Fault → Machine → Prop}

/-- The unaligned accesses of an instruction in this state are allowed. -/
def AllowsAccess (E : Fault → Machine → Prop) (instr : Instr) (m : Machine) : Prop :=
  ∀ width offset base, instr.access? = some (width, offset, base) →
    (m.reg base + offset.toUInt32).toNat % width.bytes ≠ 0 →
    E (.unaligned (m.reg base + offset.toUInt32)) m

/-- The unaligned accesses of the instruction at the program counter are allowed. -/
def AllowsAccesses (p : Program Instr) (E : Fault → Machine → Prop) : Prop :=
  ∀ (m : Machine) index instr, p.indexOf m.pc = .ok index → p.code[index]? = some instr →
    AllowsAccess E instr m

/-! ## Registers and memory -/

theorem get_faults (r : Reg) : OnlyFaults E (get r) := .of_ok fun _ => ⟨_, _, rfl⟩

theorem put_faults (r : Reg) (value : UInt32) : OnlyFaults E (put r value) := .of_ok fun _ => ⟨_, _, rfl⟩

theorem setHiLo_faults (hi lo : UInt32) : OnlyFaults E (setHiLo hi lo) := .of_ok fun _ => ⟨_, _, rfl⟩

theorem link_faults : OnlyFaults E link := .of_ok fun _ => ⟨_, _, rfl⟩

theorem onStore_faults {P : Fault → Prop} (hE : ∀ {fault : Fault} {m : Machine}, P fault → E fault m) {α : Type}
    {action : StoreM α} (h : OnlyFaults (fun fault _ => P fault) action) : OnlyFaults E (onStore action) := by
  intro m fault m' heq
  unfold onStore at heq
  dsimp only at heq
  split at heq
  · cases heq
  · rename_i fault' store hfault
    cases heq
    exact hE (h _ _ _ hfault)

section Mechanical

variable (hmechanical : ∀ {fault : Fault} {m : Machine}, fault.Mechanical → E fault m)

include hmechanical

theorem push_faults (value : UInt32) : OnlyFaults E (push value) :=
  .bind (get_faults _) fun _ =>
    .bind (onStore_faults hmechanical (Store.write_faults _ _ _)) fun _ => put_faults _ _

variable (p : Program Instr)

theorem indexOf_faults (address : UInt32) : OnlyFaults E (lift (p.indexOf address)) := by
  unfold Program.indexOf
  dsimp only
  split
  · exact .throw fun _ => hmechanical trivial
  · exact .pure _

omit hmechanical in
theorem callIntrinsic_faults (hplain : ∀ {fault : Fault} {m : Machine}, fault.Plain → E fault m) (intrinsic : Intrinsic) :
    OnlyFaults E (callIntrinsic p intrinsic) := by
  refine .bind (get_faults _) fun _ => .bind (get_faults _) fun _ =>
    .bind (onStore_faults hplain (p.runIntrinsic_faults _ _ _)) fun result => ?_
  split
  · exact .bind (put_faults _ _) fun _ => .modify _
  · exact .bind (.pure _) fun _ => .modify _

end Mechanical

variable (p : Program Instr)

theorem resolve_faults {symbol : Symbol} (h : AllowsSymbol p E symbol) : OnlyFaults E (lift (p.resolve symbol)) := by
  rcases h with ⟨address, h⟩ | h
  · rw [h]
    exact .pure _
  · unfold Program.resolve
    split
    · exact .pure _
    · exact .throw h

theorem labelAddress_faults {l : Label} (h : AllowsLabel p E l) : OnlyFaults E (lift (p.labelAddress l)) := by
  rcases h with ⟨address, h⟩ | h
  · rw [h]
    exact .pure _
  · unfold Program.labelAddress
    split
    · exact .pure _
    · exact .throw h

/-! ## Instructions -/

/-- An address that is found is aligned, and the machine stays as it is. -/
theorem address_faultsAt {width : Width} {offset : Int32} {base : Reg} {m : Machine}
    (h : (m.reg base + offset.toUInt32).toNat % width.bytes ≠ 0 →
      E (.unaligned (m.reg base + offset.toUInt32)) m) :
    OnlyFaultsAt E (address width offset base) m := by
  refine .bind (get_faults base m) fun w t hget => ?_
  cases hget
  dsimp only
  by_cases hmod : (m.reg base + offset.toUInt32).toNat % width.bytes ≠ 0
  · rw [if_pos hmod]
    rintro fault m' heq
    cases heq
    exact h hmod
  · rw [if_neg hmod]
    exact OnlyFaults.pure _ m

theorem execute_faults {instr : Instr} {m : Machine} (h : AllowsInstr p E instr)
    (haccess : AllowsAccess E instr m) : OnlyFaultsAt E (execute p instr) m := by
  obtain ⟨hmechanical, hlabel, hsymbol⟩ := h
  have hget := get_faults (E := E)
  have hput := fun r value => OnlyFaults.bind (put_faults (E := E) r value)
    fun _ => OnlyFaults.pure (none : Option UInt32)
  cases instr with
  | label l => exact OnlyFaults.pure _ m
  | nop => exact OnlyFaults.pure _ m
  | alu op dst lhs rhs => exact OnlyFaults.bind (hget _) (fun _ => .bind (hget _) fun _ => hput _ _) m
  | aluImm op dst src imm => exact OnlyFaults.bind (hget _) (fun _ => hput _ _) m
  | shift op dst src amount => exact OnlyFaults.bind (hget _) (fun _ => hput _ _) m
  | mult lhs rhs unsigned =>
    exact OnlyFaults.bind (hget _) (fun _ => .bind (hget _) fun _ =>
      .bind (setHiLo_faults _ _) fun _ => .pure _) m
  | div lhs rhs unsigned =>
    have hdivide := fun divisor => OnlyFaults.bind (hget lhs) fun a => OnlyFaults.bind
      (setHiLo_faults (quotient unsigned a divisor).2 (quotient unsigned a divisor).1)
      fun _ => OnlyFaults.pure (none : Option UInt32)
    have hzero : ∀ m, E .divide m := fun _ => hmechanical trivial
    exact OnlyFaults.bind (hget _) (fun _ => .ite
      (.bind (.throw hzero) fun _ => hdivide _) (hdivide _)) m
  | mfhi dst | mflo dst => exact OnlyFaults.of_ok (fun _ => ⟨_, _, rfl⟩) m
  | li dst imm => exact hput _ _ m
  | la dst symbol => exact OnlyFaults.bind (resolve_faults p (hsymbol List.mem_cons_self)) (fun _ => hput _ _) m
  | move dst src => exact OnlyFaults.bind (hget _) (fun _ => hput _ _) m
  | load width signed dst offset base =>
    exact .bind (address_faultsAt (haccess _ _ _ rfl)) fun _ _ _ =>
      OnlyFaults.bind (onStore_faults hmechanical (Store.read_faults _ _)) (fun _ => hput _ _) _
  | store width src offset base =>
    exact .bind (address_faultsAt (haccess _ _ _ rfl)) fun _ _ _ => OnlyFaults.bind (hget _) (fun _ =>
      .bind (onStore_faults hmechanical (Store.write_faults _ _ _)) fun _ => .pure _) _
  | branch onEqual lhs rhs target =>
    exact OnlyFaults.bind (hget _) (fun _ => .bind (hget _) fun _ =>
      .ite (.bind (labelAddress_faults p (hlabel rfl)) fun _ => .pure _) (.pure _)) m
  | branchZero test src target =>
    exact OnlyFaults.bind (hget _) (fun _ =>
      .ite (.bind (labelAddress_faults p (hlabel rfl)) fun _ => .pure _) (.pure _)) m
  | j target => exact OnlyFaults.bind (labelAddress_faults p (hlabel rfl)) (fun _ => .pure _) m
  | jal symbol =>
    exact OnlyFaults.bind (resolve_faults p (hsymbol List.mem_cons_self)) (fun _ =>
      .bind link_faults fun _ => .pure _) m
  | jalr target => exact OnlyFaults.bind (hget _) (fun _ => .bind link_faults fun _ => .pure _) m
  | jr target => exact OnlyFaults.bind (hget _) (fun _ => .pure _) m

/-! ## Runs -/

variable {p}

theorem cycle_faults (h : Allows p E) (haccesses : AllowsAccesses p E) : OnlyFaults E (cycle p) := by
  intro m
  refine .bind (OnlyFaults.get m) fun m₀ t hget => ?_
  cases hget
  dsimp only
  split
  · exact callIntrinsic_faults p h.plain _ m
  · refine .bind (indexOf_faults h.mechanical p _ m) fun index t hindex => ?_
    have hok : p.indexOf m.pc = .ok index ∧ t = m := by
      cases hat : p.indexOf m.pc with
      | error fault =>
        rw [hat] at hindex
        cases hindex
      | ok found =>
        rw [hat] at hindex
        cases hindex
        exact ⟨rfl, rfl⟩
    obtain ⟨hat, rfl⟩ := hok
    refine .bind (OnlyFaults.modify _ t) fun _ t' hmodify => ?_
    cases hmodify
    split
    · have hnone : ∀ m', E (.invalidInstruction t.pc) m' := fun _ => h.plain trivial
      exact OnlyFaults.throw hnone _
    · rename_i instr hinstr
      exact .bind (execute_faults p (h.instr hinstr) (haccesses _ index instr hat hinstr))
        fun _ t _ => OnlyFaults.modify _ t

theorem run_faults (h : Allows p E) (haccesses : AllowsAccesses p E) (fuel : Nat) : OnlyFaults E (run p fuel) := by
  induction fuel with
  | zero =>
    intro m fault m' heq
    unfold run at heq
    split at heq <;> cases heq
    exact h.plain trivial
  | succ fuel ih =>
    intro m fault m' heq
    unfold run at heq
    split at heq
    · cases heq
    · split at heq
      · exact ih _ fault m' heq
      · rename_i fault' m'' hcycle
        cases heq
        exact cycle_faults h haccesses m _ _ hcycle

theorem invoke_faults (h : Allows p E) (haccesses : AllowsAccesses p E) {entry : Symbol}
    (hentry : AllowsSymbol p E entry) (args : List StackValue) (returnBytes : UInt32) :
    OnlyFaults E (invoke p entry args returnBytes) := by
  refine .bind (.modify _) fun _ => .bind (put_faults _ _) fun _ =>
    .bind (.forM (push_faults h.mechanical) _) fun _ => .bind (get_faults _) fun _ =>
    .bind (put_faults _ _) fun _ => .bind (put_faults _ _) fun _ =>
    .bind (resolve_faults p hentry) fun _ => .bind (.modify _) fun _ =>
    .bind (run_faults h haccesses _) fun _ => .bind (get_faults _) fun sp => ?_
  have hresult := OnlyFaults.mapM (E := E) (fun k => onStore_faults h.mechanical
    (Store.read_faults (sp + 4 * UInt32.ofNat k) 4)) (List.range (returnBytes / 4).toNat)
  exact .ite (.bind (.throw fun _ => h.plain trivial) fun _ => hresult) hresult

end Faults

end Machine

end Stencil.Mips
