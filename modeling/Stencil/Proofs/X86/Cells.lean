import Stencil.Proofs.Isolation.Lockstep
import Stencil.Proofs.Isolation.Needs
import Stencil.Proofs.X86.Labels
import Stencil.Proofs.X86.Machine

/-!
# What x86 instructions read and set

The cells are the registers and the flags. Every machine knows its stack pointer and its frame
pointer, so reading them needs nothing. Two machines that agree on what an instruction reads run it
alike, and then agree on what it sets as well (`Machine.execute_couples`). A template that needs no
cell runs alike from machines that agree on memory, stack pointer and frame pointer
(`endAlike_of_isolated`).
-/

namespace Stencil.X86

open AddressMap Stateful

/-- A part of the machine that templates do not share. -/
inductive Cell where
  | reg (r : Reg)
  | flags
  deriving DecidableEq

def Reg.cells (r : Reg) : List Cell := if r = .esp ∨ r = .ebp then [] else [.reg r]

/-- The cells that the address of a memory operand needs. -/
def Mem.cells (m : Mem) : List Cell :=
  match m.base with
  | some r => r.cells
  | none => []

namespace Operand

def cells : Operand → List Cell
  | .reg r | .part r _ => r.cells
  | .mem _ m => m.cells
  | .imm _ | .addr _ => []

def placeCells : Operand → List Cell
  | .part r _ => r.cells
  | .mem _ m => m.cells
  | .reg _ | .imm _ | .addr _ => []

def sets : Operand → List Cell
  | .reg r => [.reg r]
  | _ => []

end Operand

def ShiftCount.cells : ShiftCount → List Cell
  | .cl => [.reg .ecx]
  | .imm _ => []

/-- The cells that an operation on two operands needs; a register combined with itself by `xor` is
cleared whatever it held. -/
def AluOp.cells (op : AluOp) (dst src : Operand) : List Cell :=
  match op, dst, src with
  | .xor, .reg r, .reg r' => if r = r' then [] else r.cells ++ r'.cells
  | .adc, dst, src | .sbb, dst, src => .flags :: dst.cells ++ src.cells
  | _, dst, src => dst.cells ++ src.cells

namespace Instr

def reads : Instr → List Cell
  | .mov dst src => src.cells ++ dst.placeCells
  | .movzx _ src | .movsx _ src | .push src | .imulImm _ src _ => src.cells
  | .lea _ src => src.cells
  | .pop dst => dst.placeCells
  | .alu op dst src => op.cells dst src
  | .test dst src => dst.cells ++ src.cells
  | .neg dst | .not dst => dst.cells
  | .mul src => .reg .eax :: src.cells
  | .imul dst src => dst.cells ++ src.cells
  | .div src | .idiv src => .reg .eax :: .reg .edx :: src.cells
  | .cdq => [.reg .eax]
  | .shift _ dst count => dst.cells ++ count.cells
  | .shld dst src count | .shrd dst src count => dst.cells ++ src.cells ++ count.cells
  | .jcc _ _ => [.flags]
  | .label _ | .nop | .jmp _ | .call _ | .ret => []

/-- The cells that the instruction sets. Shifts by zero and products leave flags as they were. -/
def writes : Instr → List Cell
  | .mov dst _ | .pop dst | .not dst => dst.sets
  | .movzx dst _ | .movsx dst _ | .lea dst _ | .imul dst _ | .imulImm dst _ _ => [.reg dst]
  | .alu op dst _ => .flags :: if op = .cmp then [] else dst.sets
  | .test _ _ => [.flags]
  | .neg dst => .flags :: dst.sets
  | .mul _ | .div _ | .idiv _ => [.reg .eax, .reg .edx]
  | .cdq => [.reg .edx]
  | .call (.symbol s) => if s = Intrinsic.callSite.symbol then [.reg .eax] else []
  | _ => []

def goesOn : Instr → Bool
  | .jmp _ | .ret => false
  | _ => true

/-- The instruction jumps to a label, calls an intrinsic or goes on. -/
def isLocal : Instr → Bool
  | .jmp (.label _) => true
  | .call (.symbol s) => Intrinsic.all.any (·.symbol == s)
  | .jmp _ | .call _ | .ret => false
  | _ => true

end Instr

instance : CellUse Instr Cell where
  reads := Instr.reads
  writes := Instr.writes
  goesOn := Instr.goesOn
  admits instr _ := instr.isLocal
  admits_append h := h
  goesOn_of_label {instr _} h := by
    cases instr <;> first | exact ⟨rfl, rfl, rfl, rfl⟩ | cases h

/-! ## Machines that agree -/

namespace Machine

/-- Both machines stand at `pc` and agree on the store, the stack pointer, the frame pointer and the
cells of `known`. -/
structure Agree (known : List Cell) (pc : UInt32) (m₁ m₂ : Machine) : Prop where
  left : m₁.pc = pc
  right : m₂.pc = pc
  store : m₁.store = m₂.store
  sp : m₁.reg .esp = m₂.reg .esp
  fp : m₁.reg .ebp = m₂.reg .ebp
  regs : ∀ r, Cell.reg r ∈ known → m₁.reg r = m₂.reg r
  flags : Cell.flags ∈ known → m₁.flags = m₂.flags

section Primitives

variable {known : List Cell} {pc : UInt32}

theorem Agree.mono {known' : List Cell} {m₁ m₂ : Machine} (h : Agree known pc m₁ m₂)
    (hsub : known' ⊆ known) : Agree known' pc m₁ m₂ :=
  { h with
    regs := fun r hr => h.regs r (hsub hr)
    flags := fun hf => h.flags (hsub hf) }

theorem Agree.reg {m₁ m₂ : Machine} (h : Agree known pc m₁ m₂) {r : Reg}
    (hknown : r.cells ⊆ known) : m₁.reg r = m₂.reg r := by
  by_cases hr : r = .esp ∨ r = .ebp
  · rcases hr with rfl | rfl
    · exact h.sp
    · exact h.fp
  · refine h.regs r (hknown ?_)
    rw [Reg.cells, if_neg hr]
    exact List.mem_singleton_self _

/-- Runs that need `known` and then know `known'` as well. -/
abbrev Secure {α : Type} (pc : UInt32) (known known' : List Cell) (x : Run α) : Prop :=
  Couples (Agree known pc) (Agree known' pc) x

theorem get_secure {r : Reg} (h : r.cells ⊆ known) : Secure pc known known (get r) := by
  intro m₁ m₂ hagree
  show Alike _ (.ok (m₁.reg r) m₁) (.ok (m₂.reg r) m₂)
  rw [hagree.reg h]
  exact .ok hagree

theorem put_secure (r : Reg) (value : UInt32) :
    Secure pc known (.reg r :: known) (put r value) := by
  intro m₁ m₂ h
  -- the register is the same now, all others as before
  have hreg : ∀ r', m₁.reg r' = m₂.reg r' →
      (m₁.setReg r value).reg r' = (m₂.setReg r value).reg r' := by
    intro r' hr'
    by_cases heq : r' = r
    · rw [heq, reg_setReg_self, reg_setReg_self]
    · rw [reg_setReg_of_ne _ _ heq, reg_setReg_of_ne _ _ heq, hr']
  refine .ok ⟨h.left, h.right, h.store, hreg _ h.sp, hreg _ h.fp, fun r' hr' => ?_, fun hf => ?_⟩
  · rcases List.mem_cons.mp hr' with heq | hr'
    · obtain rfl := Cell.reg.inj heq
      rw [reg_setReg_self, reg_setReg_self]
    · exact hreg r' (h.regs r' hr')
  · exact h.flags (by simpa using hf)

theorem lift_secure {α : Type} (x : Except Fault α) : Secure pc known known (lift x) := by
  cases x with
  | ok a => exact .pure a
  | error fault => exact .throw fault

theorem onStore_secure {α : Type} (action : StoreM α) :
    Secure pc known known (onStore action) := by
  intro m₁ m₂ h
  obtain ⟨regs₁, flags₁, pc₁, store, trace₁⟩ := m₁
  obtain ⟨regs₂, flags₂, pc₂, _, trace₂⟩ := m₂
  obtain rfl := h.store
  unfold onStore
  dsimp only
  cases action store with
  | ok a store' => exact .ok ⟨h.left, h.right, rfl, h.sp, h.fp, h.regs, h.flags⟩
  | error fault store' => exact .error

theorem setFlags_secure (f : Flags → Flags) : Secure pc known known (setFlags f) := by
  intro m₁ m₂ h
  exact .ok ⟨h.left, h.right, h.store, h.sp, h.fp, h.regs, fun hf => congrArg f (h.flags hf)⟩

theorem setFlags_const_secure (flags : Flags) :
    Secure pc known (.flags :: known) (setFlags fun _ => flags) := by
  intro m₁ m₂ h
  refine .ok ⟨h.left, h.right, h.store, h.sp, h.fp, fun r hr => ?_, fun _ => rfl⟩
  exact h.regs r (by simpa using hr)

theorem Secure.forget {α : Type} {known' known'' : List Cell} {x : Run α}
    (h : Secure pc known known' x) (hsub : known'' ⊆ known') : Secure pc known known'' x :=
  h.mono (fun _ _ h => h) fun _ _ h => h.mono hsub

theorem put_keeps (r : Reg) (value : UInt32) : Secure pc known known (put r value) :=
  (put_secure r value).forget (List.subset_cons_self _ _)

theorem push_secure (value : UInt32) : Secure pc known known (push value) :=
  (get_secure (by simp [Reg.cells])).bind fun _ =>
    (onStore_secure _).bind fun _ => put_keeps _ _

theorem pop_secure : Secure pc known known pop :=
  (get_secure (by simp [Reg.cells])).bind fun _ =>
    (onStore_secure _).bind fun value => (put_keeps _ _).bind fun _ => .pure value

variable {p : Program Instr}

theorem address_secure {mem : Mem} (h : mem.cells ⊆ known) :
    Secure pc known known (address p mem) := by
  obtain ⟨base, symbol, disp⟩ := mem
  cases base with
  | none =>
    cases symbol with
    | none => exact .pure _
    | some s => exact (lift_secure _).bind fun _ => .pure _
  | some r =>
    refine (get_secure h).bind fun _ => ?_
    cases symbol with
    | none => exact .pure _
    | some s => exact (lift_secure _).bind fun _ => .pure _

theorem read_secure {o : Operand} (h : o.cells ⊆ known) : Secure pc known known (read p o) := by
  cases o with
  | reg r => exact get_secure h
  | part r width => exact (get_secure h).bind fun _ => .pure _
  | imm value => exact .pure _
  | mem width m => exact (address_secure h).bind fun _ => onStore_secure _
  | addr s => exact lift_secure _

theorem write_secure {o : Operand} (value : UInt32) (h : o.placeCells ⊆ known) :
    Secure pc known (o.sets ++ known) (write p value o) := by
  cases o with
  | reg r => exact put_secure r value
  | part r width => exact (get_secure h).bind fun _ => put_keeps _ _
  | mem width m => exact (address_secure h).bind fun _ => onStore_secure _
  | imm _ | addr _ =>
    intro m₁ m₂ hagree
    show Alike _ (.error (.invalidInstruction m₁.pc) m₁) (.error (.invalidInstruction m₂.pc) m₂)
    rw [hagree.left, hagree.right]
    exact .error

theorem placeCells_subset (o : Operand) : o.placeCells ⊆ o.cells := by
  cases o <;> simp [Operand.placeCells, Operand.cells]

theorem shiftCount_secure {count : ShiftCount} (h : count.cells ⊆ known) :
    Secure pc known known (shiftCount count) := by
  cases count with
  | cl => exact (get_secure h).bind fun _ => .pure _
  | imm n => exact .pure _

end Primitives

/-! ## Instructions -/

section Execute

variable {known : List Cell} {pc : UInt32} {p : Program Instr}

theorem imul_secure (dst : Reg) (lhs rhs : UInt32) :
    Secure pc known (.reg dst :: known) (imul dst lhs rhs) :=
  (setFlags_secure _).bind fun _ => put_secure _ _

theorem accumulator_secure (heax : Cell.reg .eax ∈ known) (hedx : Cell.reg .edx ∈ known) :
    Secure pc known known accumulator :=
  (get_secure (by simpa [Reg.cells] using hedx)).bind fun _ =>
    (get_secure (by simpa [Reg.cells] using heax)).bind fun _ => .pure _

theorem put_both_secure (low high : UInt32) :
    Secure pc known (.reg .eax :: .reg .edx :: known) (put .eax low >>= fun _ => put .edx high) :=
  Secure.forget ((put_secure .eax low).bind fun _ => put_secure .edx high) (by
    intro c hc
    simp only [List.mem_cons] at hc ⊢
    tauto)

theorem divide_secure (divisor : UInt32) (heax : Cell.reg .eax ∈ known)
    (hedx : Cell.reg .edx ∈ known) :
    Secure pc known (.reg .eax :: .reg .edx :: known) (divide divisor) := by
  refine (accumulator_secure heax hedx).bind fun dividend => ?_
  dsimp only
  split
  · exact .throw _
  · exact put_both_secure _ _

theorem divideSigned_secure (divisor : UInt32) (heax : Cell.reg .eax ∈ known)
    (hedx : Cell.reg .edx ∈ known) :
    Secure pc known (.reg .eax :: .reg .edx :: known) (divideSigned divisor) := by
  refine (accumulator_secure heax hedx).bind fun dividend => ?_
  dsimp only
  split
  · exact .throw _
  · exact put_both_secure _ _

theorem shift_secure (kind : ShiftKind) {dst : Operand} {count : ShiftCount}
    (hdst : dst.cells ⊆ known) (hcount : count.cells ⊆ known) :
    Secure pc known known (shift p kind dst count) := by
  refine (shiftCount_secure hcount).bind fun n => ?_
  refine .ite ?_ (.pure _)
  refine (read_secure hdst).bind fun value => (setFlags_secure _).bind fun _ => ?_
  exact (write_secure _ (List.Subset.trans (placeCells_subset dst) hdst)).forget
    (List.subset_append_right _ _)

theorem shiftDouble_secure (left : Bool) {dst : Operand} {src : Reg} {count : ShiftCount}
    (hdst : dst.cells ⊆ known) (hsrc : src.cells ⊆ known) (hcount : count.cells ⊆ known) :
    Secure pc known known (shiftDouble p left dst src count) := by
  refine (shiftCount_secure hcount).bind fun n => ?_
  refine .ite ?_ (.pure _)
  refine (read_secure hdst).bind fun value => (get_secure hsrc).bind fun fill => ?_
  exact (write_secure _ (List.Subset.trans (placeCells_subset dst) hdst)).forget
    (List.subset_append_right _ _)

/-- A register combined with itself by `xor` is cleared. -/
theorem execute_xor_self (site : UInt32) (r : Reg) (m : Machine) :
    execute p site (.alu .xor (.reg r) (.reg r)) m =
      (setFlags (fun _ => flagsOf 32 0 false false) >>= fun _ => put r 0) m := by
  have hself : ∀ (a : UInt32) (carry : Bool),
      alu .xor 32 a a carry = (0, flagsOf 32 0 false false) := by
    intro a carry
    simp only [alu, logical, Nat.xor_self]
    rfl
  calc execute p site (.alu .xor (.reg r) (.reg r)) m
    _ = (setFlags (fun _ => (alu .xor 32 (m.reg r) (m.reg r) m.flags.carry).2) >>= fun _ =>
          put r (alu .xor 32 (m.reg r) (m.reg r) m.flags.carry).1) m := rfl
    _ = _ := by rw [hself]

theorem alu_carry {op : AluOp} (h : op ≠ .adc ∧ op ≠ .sbb) (bits : Nat) (a b : UInt32)
    (carry carry' : Bool) : alu op bits a b carry = alu op bits a b carry' := by
  obtain ⟨hadc, hsbb⟩ := h
  cases op <;> first | rfl | exact absurd rfl hadc | exact absurd rfl hsbb

theorem setFlags_write_secure {dst : Operand} (flags : Flags) (result : UInt32)
    (h : dst.cells ⊆ known) :
    Secure pc known (.flags :: dst.sets ++ known)
      (setFlags (fun _ => flags) >>= fun _ => write p result dst) := by
  have hplace : dst.placeCells ⊆ .flags :: known :=
    List.Subset.trans (placeCells_subset dst) (List.Subset.trans h (List.subset_cons_self _ _))
  refine (setFlags_const_secure flags).bind fun _ => (write_secure result hplace).forget ?_
  intro c hc
  simp only [List.cons_append, List.mem_cons, List.mem_append] at hc ⊢
  tauto

/-- An operation whose operands are known, and the carry if it takes one in. -/
theorem execute_alu_secure {op : AluOp} {dst src : Operand} {site : UInt32}
    (hdst : dst.cells ⊆ known) (hsrc : src.cells ⊆ known)
    (hcarry : op = .adc ∨ op = .sbb → Cell.flags ∈ known) :
    Secure pc known (.flags :: (if op = .cmp then [] else dst.sets) ++ known)
      (execute p site (.alu op dst src)) := by
  refine (read_secure hdst).bind fun a => (read_secure hsrc).bind fun b => ?_
  have hrest : ∀ answer : UInt32 × Flags,
      Secure pc known (.flags :: (if op = .cmp then [] else dst.sets) ++ known)
        (setFlags (fun _ => answer.2) >>= fun _ =>
          if op ≠ .cmp then write p answer.1 dst else pure ()) := by
    intro answer
    by_cases hcmp : op = .cmp
    · rw [if_neg (not_not_intro hcmp), if_pos hcmp]
      exact (setFlags_const_secure answer.2).bind fun _ => .pure ()
    · rw [if_pos hcmp, if_neg hcmp]
      exact setFlags_write_secure answer.2 answer.1 hdst
  intro m₁ m₂ hagree
  -- both runs go on with the same carry, or with one that does not matter
  have hsame : alu op (operandBits dst) a b m₂.flags.carry =
      alu op (operandBits dst) a b m₁.flags.carry := by
    by_cases hop : op = .adc ∨ op = .sbb
    · rw [hagree.flags (hcarry hop)]
    · exact alu_carry (not_or.mp hop) _ _ _ _ _
  have halike := hrest (alu op (operandBits dst) a b m₁.flags.carry) m₁ m₂ hagree
  nth_rewrite 3 [← hsame] at halike
  nth_rewrite 3 [← hsame] at halike
  exact halike

theorem AluOp.cells_cover {op : AluOp} {dst src : Operand}
    (h : ¬∃ r, op = .xor ∧ dst = .reg r ∧ src = .reg r) (hreads : op.cells dst src ⊆ known) :
    dst.cells ⊆ known ∧ src.cells ⊆ known ∧ (op = .adc ∨ op = .sbb → Cell.flags ∈ known) := by
  unfold AluOp.cells at hreads
  split at hreads
  · rename_i r r'
    rw [if_neg fun heq => h ⟨r, rfl, rfl, by rw [heq]⟩] at hreads
    obtain ⟨hdst, hsrc⟩ := List.append_subset.mp hreads
    exact ⟨hdst, hsrc, fun hop => by rcases hop with hop | hop <;> cases hop⟩
  · obtain ⟨hflags, hreads⟩ := List.cons_subset.mp hreads
    obtain ⟨hdst, hsrc⟩ := List.append_subset.mp hreads
    exact ⟨hdst, hsrc, fun _ => hflags⟩
  · obtain ⟨hflags, hreads⟩ := List.cons_subset.mp hreads
    obtain ⟨hdst, hsrc⟩ := List.append_subset.mp hreads
    exact ⟨hdst, hsrc, fun _ => hflags⟩
  · rename_i hadc hsbb _
    obtain ⟨hdst, hsrc⟩ := List.append_subset.mp hreads
    exact ⟨hdst, hsrc, fun hop => (hop.elim hadc hsbb).elim⟩

/-- A call of an intrinsic; that of the call site sets `eax`. -/
theorem execute_call_secure (hwf : p.WellFormed) (intrinsic : Intrinsic) (site : UInt32) :
    Secure pc known
      ((if intrinsic.symbol = Intrinsic.callSite.symbol then [.reg .eax] else []) ++ known)
      (execute p site (.callSymbol intrinsic.symbol)) := by
  obtain ⟨address, hresolve, hat⟩ := hwf.intrinsics intrinsic
  show Secure pc known _ (lift (p.resolve intrinsic.symbol) >>= fun destination => _)
  rw [hresolve]
  show Secure pc known _ (pure address >>= fun destination => _)
  simp only [pure_bind, hat]
  refine (get_secure (by simp [Reg.cells])).bind fun sp => ?_
  cases intrinsic with
  | callSite => exact put_secure .eax site
  | _ =>
    refine (onStore_secure _).bind fun value => ?_
    cases value with
    | none => exact .pure ()
    | some value => exact put_keeps .eax value

/-- Two machines that agree on what an instruction reads run it alike, and agree on what it sets. -/
theorem execute_secure (hwf : p.WellFormed) {instr : Instr} (site : UInt32)
    (hlocal : instr.isLocal = true) (huses : LabelUse.uses? instr = none)
    (hreads : instr.reads ⊆ known) :
    Secure pc known (instr.writes ++ known) (execute p site instr) := by
  cases instr with
  | label | nop => exact .pure ()
  | mov dst src =>
    obtain ⟨hsrc, hdst⟩ := List.append_subset.mp hreads
    exact (read_secure hsrc).bind fun value => write_secure value hdst
  | movzx dst src => exact (read_secure hreads).bind fun _ => put_secure _ _
  | movsx dst src => exact (read_secure hreads).bind fun _ => put_secure _ _
  | lea dst src => exact (address_secure hreads).bind fun _ => put_secure _ _
  | push src => exact (read_secure hreads).bind fun value => push_secure value
  | pop dst => exact pop_secure.bind fun value => write_secure value hreads
  | alu op dst src =>
    by_cases hself : ∃ r, op = .xor ∧ dst = .reg r ∧ src = .reg r
    · obtain ⟨r, rfl, rfl, rfl⟩ := hself
      intro m₁ m₂ hagree
      rw [execute_xor_self, execute_xor_self]
      refine Secure.forget ((setFlags_const_secure _).bind fun _ => put_secure r 0) ?_ m₁ m₂ hagree
      exact fun c hc => by simpa [Instr.writes, Operand.sets, or_left_comm] using hc
    · obtain ⟨hdst, hsrc, hcarry⟩ := AluOp.cells_cover hself hreads
      exact execute_alu_secure hdst hsrc hcarry
  | test dst src =>
    obtain ⟨hdst, hsrc⟩ := List.append_subset.mp hreads
    exact (read_secure hdst).bind fun _ => (read_secure hsrc).bind fun _ => setFlags_const_secure _
  | neg dst =>
    exact (read_secure hreads).bind fun _ => setFlags_write_secure _ _ hreads
  | not dst =>
    exact (read_secure hreads).bind fun _ =>
      write_secure _ (List.Subset.trans (placeCells_subset dst) hreads)
  | mul src =>
    obtain ⟨heax, hsrc⟩ := List.cons_subset.mp hreads
    refine (get_secure (by simpa [Reg.cells] using heax)).bind fun _ =>
      (read_secure hsrc).bind fun _ => ?_
    refine Secure.forget ((put_secure .eax _).bind fun _ =>
      (put_secure .edx _).bind fun _ => setFlags_secure _) ?_
    exact fun c hc => by simpa [Instr.writes, or_left_comm] using hc
  | imul dst src =>
    obtain ⟨hdst, hsrc⟩ := List.append_subset.mp hreads
    exact (get_secure hdst).bind fun _ => (read_secure hsrc).bind fun _ => imul_secure _ _ _
  | imulImm dst src imm => exact (read_secure hreads).bind fun _ => imul_secure _ _ _
  | div src =>
    obtain ⟨heax, hreads⟩ := List.cons_subset.mp hreads
    obtain ⟨hedx, hsrc⟩ := List.cons_subset.mp hreads
    exact (read_secure hsrc).bind fun _ => divide_secure _ heax hedx
  | idiv src =>
    obtain ⟨heax, hreads⟩ := List.cons_subset.mp hreads
    obtain ⟨hedx, hsrc⟩ := List.cons_subset.mp hreads
    exact (read_secure hsrc).bind fun _ => divideSigned_secure _ heax hedx
  | cdq =>
    exact (get_secure (by simpa [Reg.cells, Instr.reads] using hreads)).bind fun _ =>
      put_secure _ _
  | shift kind dst count =>
    obtain ⟨hdst, hcount⟩ := List.append_subset.mp hreads
    exact shift_secure kind hdst hcount
  | shld dst src count | shrd dst src count =>
    obtain ⟨hreads, hcount⟩ := List.append_subset.mp hreads
    obtain ⟨hdst, hsrc⟩ := List.append_subset.mp hreads
    exact shiftDouble_secure _ hdst hsrc hcount
  | jmp target =>
    cases target with
    | label => cases huses
    | symbol | reg => cases hlocal
  | jcc => cases huses
  | call target =>
    cases target with
    | label | reg => cases hlocal
    | symbol s =>
      obtain ⟨intrinsic, -, hsymbol⟩ := List.any_eq_true.mp hlocal
      obtain rfl := eq_of_beq hsymbol
      exact execute_call_secure hwf intrinsic site
  | ret => cases hlocal

end Execute

end Machine

/-! ## Runs through a template -/

section Runs

open Machine

variable {p : Program Instr} {base : Nat} {code : List Instr} {live : Label → List Cell}
  {after : List Cell}

def StandsIn (base : Nat) (code : List Instr) (m : Machine) : Prop := ¬Outside base code m.pc

/-- The machines agree on what the code needs from where they stand on. -/
def Abreast (live : Label → List Cell) (after : List Cell) (base : Nat) (code : List Instr)
    (m₁ m₂ : Machine) : Prop :=
  ∃ known pc, Agree known pc m₁ m₂ ∧ Covers live after base code known pc

theorem Machine.Agree.fetched {known : List Cell} {pc : UInt32} {m₁ m₂ : Machine}
    (h : Agree known pc m₁ m₂) (k : Nat) :
    Agree known (codeAddress (k + 1)) (m₁.fetched k) (m₂.fetched k) :=
  ⟨rfl, rfl, h.store, h.sp, h.fp, h.regs, h.flags⟩

/-- Both machines go to the address of a label. -/
theorem goto_alike {known : List Cell} {pc : UInt32} {m₁ m₂ : Machine} {l : Label}
    (hagree : Agree known pc m₁ m₂)
    (hcovers : ∀ address, p.labelAddress l = .ok address →
      Covers live after base code known address) :
    Alike (Abreast live after base code)
      ((lift (p.labelAddress l) >>= fun address => goto address) m₁)
      ((lift (p.labelAddress l) >>= fun address => goto address) m₂) := by
  cases haddress : p.labelAddress l with
  | error fault => exact .error
  | ok address =>
    exact .ok ⟨known, address,
      ⟨rfl, rfl, hagree.store, hagree.sp, hagree.fp, hagree.regs, hagree.flags⟩,
      hcovers address haddress⟩

theorem execute_abreast (hwf : p.WellFormed) (hplaced : Placed p base code)
    (hend : base + code.length ≤ codeLimit) (hneeds : Needs live [] code after)
    (hexits : ∀ l ∈ usedLabels code, l ∉ boundLabels code → after ⊆ live l)
    {k : Nat} {known need : List Cell} {instr : Instr} {site : UInt32} {m₁ m₂ : Machine}
    (hinstr : code[k]? = some instr) (hneed : needs? live after (code.drop k) = some need)
    (hknown : need ⊆ known) (hagree : Agree known (codeAddress (base + k + 1)) m₁ m₂) :
    Alike (Abreast live after base code) (execute p site instr m₁) (execute p site instr m₂) := by
  have hk : k < code.length := (List.getElem?_eq_some_iff.mp hinstr).1
  rw [List.drop_eq_getElem_cons hk, (List.getElem?_eq_some_iff.mp hinstr).2] at hneed
  obtain ⟨tail, htail, hlocal, -, rfl⟩ := needs?_cons.mp hneed
  obtain ⟨hreads, hjump, hrest⟩ := needsBefore_subset hknown
  have hnext : ∀ {known'}, tail ⊆ known' →
      Covers live after base code known' (codeAddress (base + k + 1)) :=
    fun hsub => .of_drop (k := k + 1) hend hk htail hsub
  -- a label that the instruction goes to is covered by what is live there
  have hlabel : ∀ {l}, LabelUse.uses? instr = some l → ∀ address,
      p.labelAddress l = .ok address → Covers live after base code known address := by
    intro l huses address haddress
    have hused : l ∈ usedLabels code :=
      List.mem_filterMap.mpr ⟨instr, List.mem_of_getElem? hinstr, huses⟩
    exact (covers_label hwf hplaced hend hneeds hexits hused haddress).mono (hjump l huses)
  cases huses : LabelUse.uses? instr with
  | none =>
    have hgoes : instr.goesOn = true := by
      cases instr with
      | jmp target => cases target with
        | label => cases huses
        | symbol | reg => cases hlocal
      | ret => cases hlocal
      | _ => rfl
    have halike := Machine.execute_secure hwf site hlocal huses hreads m₁ m₂ hagree
    generalize execute p site instr m₁ = first, execute p site instr m₂ = second at halike
    cases halike with
    | ok h => exact .ok ⟨_, _, h, hnext (hrest hgoes)⟩
    | error => exact .error
  | some l =>
    cases instr with
    | jmp target =>
      cases target with
      | label l' =>
        obtain rfl := Option.some.inj huses
        exact goto_alike hagree (hlabel rfl)
      | symbol | reg => cases huses
    | jcc cond l' =>
      obtain rfl := Option.some.inj huses
      have hflags := hagree.flags (hreads (List.mem_singleton_self _))
      show Alike _ ((if m₁.flags.holds cond = true then _ else _ : Run Unit) m₁)
        ((if m₂.flags.holds cond = true then _ else _ : Run Unit) m₂)
      rw [hflags]
      split
      · exact goto_alike hagree (hlabel rfl)
      · exact .ok ⟨known, _, hagree, hnext (hrest rfl)⟩
    | call target =>
      cases target with
      | label => cases hlocal
      | symbol | reg => cases huses
    | _ => cases huses

theorem lockstep_of_needs (hwf : p.WellFormed) (hplaced : Placed p base code)
    (hend : base + code.length ≤ codeLimit) (hneeds : Needs live [] code after)
    (hexits : ∀ l ∈ usedLabels code, l ∉ boundLabels code → after ⊆ live l) :
    Lockstep (cycle p) (StandsIn base code) (Abreast live after base code)
      fun m₁ m₂ => ∃ pc, Agree after pc m₁ m₂ where
  inside := by
    rintro m₁ m₂ ⟨known, pc, hagree, -⟩
    rw [StandsIn, StandsIn, hagree.left, hagree.right]
  step := by
    rintro m₁ m₂ ⟨known, pc, hagree, hcovers⟩ hinside
    rcases hcovers with ⟨k, need, hk, rfl, hneed, hknown⟩ | ⟨houtside, -⟩
    · have hinstr := List.getElem?_eq_getElem hk
      rw [cycle_at hwf.fits hagree.left (hplaced.fetch k _ hinstr),
        cycle_at hwf.fits hagree.right (hplaced.fetch k _ hinstr)]
      exact execute_abreast hwf hplaced hend hneeds hexits hinstr hneed hknown
        (hagree.fetched (base + k))
    · rw [StandsIn, hagree.left] at hinside
      exact absurd houtside hinside
  same := by
    rintro m₁ m₂ ⟨known, pc, hagree, hcovers⟩ houtside
    rw [StandsIn, hagree.left, not_not] at houtside
    rcases hcovers with ⟨k, need, hk, rfl, -, -⟩ | ⟨-, hafter⟩
    · exact absurd rfl (houtside k hk)
    · exact ⟨pc, hagree.mono hafter⟩

/-- From the start of the code, wherever it is placed, two machines that agree on the store, the stack
pointer and the frame pointer run alike, and leave with the cells of `after` agreed on as well. -/
def RunsAlike (code : List Instr) (after : List Cell) : Prop :=
  ∀ (p : Program Instr) (base : Nat) (m₁ m₂ : Machine), p.WellFormed → Placed p base code →
    base ≤ p.code.size → Agree [] (codeAddress base) m₁ m₂ →
    EndAlike (cycle p) (StandsIn base code) (fun m₁ m₂ => ∃ pc, Agree after pc m₁ m₂) m₁ m₂

theorem runsAlike_of_isolated {ctx : EmitContext} {i : Instruction} (h : Isolated code after)
    (hlabels : TemplateLabels ctx i code) : RunsAlike code after := by
  intro p base m₁ m₂ hwf hplaced hbase hagree
  obtain ⟨live, houtside, hneeds⟩ := h
  have hend := (hplaced.end_le hbase).trans hwf.fits
  have hexits : ∀ l ∈ usedLabels code, l ∉ boundLabels code → after ⊆ live l :=
    fun l hused hbound =>
      houtside l (isSynthetic_of_goesTo ((hlabels.closed l hused).resolve_left hbound))
  refine (lockstep_of_needs hwf hplaced hend hneeds hexits).endAlike ⟨[], _, hagree, ?_⟩
  obtain ⟨need, hneed, hknown⟩ := hneeds
  exact .of_drop (k := 0) hend (Nat.zero_le _) hneed hknown

end Runs

end Stencil.X86
