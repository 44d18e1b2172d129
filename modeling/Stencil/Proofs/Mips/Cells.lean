import Stencil.Proofs.Isolation.Lockstep
import Stencil.Proofs.Isolation.Needs
import Stencil.Proofs.Mips.Height
import Stencil.Proofs.Mips.Labels

/-!
# What MIPS32 instructions read and set

The cells are the registers, `hi` and `lo`. Every machine knows `$zero`, its stack pointer and its
frame pointer, so reading them needs nothing. Two machines that agree on what an instruction reads run
it alike, and then agree on what it sets as well (`Machine.execute_secure`). On the way through a
template they stand at the same instruction, in the same delay slot, or at the same intrinsic.
-/

namespace Stencil.Mips

open AddressMap Stateful

/-- A part of the machine that templates do not share. -/
inductive Cell where
  | reg (r : Reg)
  | hi
  | lo
  deriving DecidableEq

def Reg.cells (r : Reg) : List Cell :=
  if r = .zero ∨ r = .sp ∨ r = .fp then [] else [.reg r]

def intrinsicCells (symbol : Symbol) : List Cell :=
  if symbol = Intrinsic.callSite.symbol then [.reg .v0] else []

namespace Instr

def reads : Instr → List Cell
  | .alu _ _ lhs rhs | .mult lhs rhs _ | .div lhs rhs _ | .branch _ lhs rhs _ =>
    lhs.cells ++ rhs.cells
  | .aluImm _ _ src _ | .shift _ _ src _ | .move _ src | .branchZero _ src _ => src.cells
  | .mfhi _ => [.hi]
  | .mflo _ => [.lo]
  | .load _ _ _ _ base => base.cells
  | .store _ src _ base => base.cells ++ src.cells
  | .label _ | .nop | .li _ _ | .la _ _ | .j _ | .jal _ | .jalr _ | .jr _ => []

/-- The cells that the instruction sets; a call sets those of its intrinsic. -/
def writes : Instr → List Cell
  | .alu _ dst _ _ | .aluImm _ dst _ _ | .shift _ dst _ _ | .mfhi dst | .mflo dst | .li dst _
  | .la dst _ | .move dst _ | .load _ _ dst _ _ => [.reg dst]
  | .mult _ _ _ | .div _ _ _ => [.hi, .lo]
  | .jal s => .reg .ra :: intrinsicCells s
  | _ => []

/-- The instruction jumps to a label, calls an intrinsic or goes on, and its delay slot is empty. -/
def isLocal (instr : Instr) (rest : List Instr) : Bool :=
  match instr with
  | .branch .. | .branchZero .. | .j _ => rest.head? = some .nop
  | .jal s => Intrinsic.all.any (·.symbol == s) && rest.head? = some .nop
  | .jalr _ | .jr _ => false
  | _ => true

def goesOn : Instr → Bool
  | .j _ | .jr _ => false
  | _ => true

end Instr

instance : CellUse Instr Cell where
  reads := Instr.reads
  writes := Instr.writes
  goesOn := Instr.goesOn
  admits := Instr.isLocal
  admits_append {instr rest more} h := by
    have hhead : rest.head? = some .nop → (rest ++ more).head? = some .nop := by
      cases rest with
      | nil => exact nofun
      | cons first rest => exact id
    cases instr with
    | branch | branchZero | j => simpa [Instr.isLocal] using hhead (by simpa [Instr.isLocal] using h)
    | jal s =>
      simp only [Instr.isLocal, Bool.and_eq_true, decide_eq_true_eq] at h ⊢
      exact ⟨h.1, hhead h.2⟩
    | jalr | jr => cases h
    | _ => rfl
  goesOn_of_label {instr _} h := by
    cases instr <;> first | exact ⟨rfl, rfl, rfl, rfl⟩ | cases h

/-! ## Machines that agree -/

namespace Machine

/-- Both machines stand at `pc` with `npc` next and agree on the store, `$zero`, the stack pointer,
the frame pointer and the cells of `known`. -/
structure Agree (known : List Cell) (pc npc : UInt32) (m₁ m₂ : Machine) : Prop where
  left : m₁.pc = pc ∧ m₁.npc = npc
  right : m₂.pc = pc ∧ m₂.npc = npc
  store : m₁.store = m₂.store
  zero : m₁.reg .zero = m₂.reg .zero
  sp : m₁.reg .sp = m₂.reg .sp
  fp : m₁.reg .fp = m₂.reg .fp
  regs : ∀ r, Cell.reg r ∈ known → m₁.reg r = m₂.reg r
  hi : Cell.hi ∈ known → m₁.hi = m₂.hi
  lo : Cell.lo ∈ known → m₁.lo = m₂.lo

section Primitives

variable {known : List Cell} {pc npc : UInt32}

theorem Agree.mono {known' : List Cell} {m₁ m₂ : Machine} (h : Agree known pc npc m₁ m₂)
    (hsub : known' ⊆ known) : Agree known' pc npc m₁ m₂ :=
  { h with
    regs := fun r hr => h.regs r (hsub hr)
    hi := fun hhi => h.hi (hsub hhi)
    lo := fun hlo => h.lo (hsub hlo) }

theorem Agree.reg {m₁ m₂ : Machine} (h : Agree known pc npc m₁ m₂) {r : Reg}
    (hknown : r.cells ⊆ known) : m₁.reg r = m₂.reg r := by
  by_cases hr : r = .zero ∨ r = .sp ∨ r = .fp
  · rcases hr with rfl | rfl | rfl
    · exact h.zero
    · exact h.sp
    · exact h.fp
  · refine h.regs r (hknown ?_)
    rw [Reg.cells, if_neg hr]
    exact List.mem_singleton_self _

/-- Runs that need `known` and then know `known'`. -/
abbrev Secure {α : Type} (pc npc : UInt32) (known known' : List Cell) (x : Run α) : Prop :=
  Couples (Agree known pc npc) (Agree known' pc npc) x

theorem setReg_hi (m : Machine) (r : Reg) (value : UInt32) : (m.setReg r value).hi = m.hi := by
  unfold setReg
  split <;> rfl

theorem setReg_lo (m : Machine) (r : Reg) (value : UInt32) : (m.setReg r value).lo = m.lo := by
  unfold setReg
  split <;> rfl

theorem Agree.setReg {m₁ m₂ : Machine} (h : Agree known pc npc m₁ m₂) (r : Reg) (value : UInt32) :
    Agree (.reg r :: known) pc npc (m₁.setReg r value) (m₂.setReg r value) := by
  -- the register is the same now, all others as before
  have hself : (m₁.setReg r value).reg r = (m₂.setReg r value).reg r := by
    by_cases hr : r = .zero
    · rw [hr]
      exact h.zero
    · rw [reg_setReg_self _ _ hr, reg_setReg_self _ _ hr]
  have hreg : ∀ r', m₁.reg r' = m₂.reg r' →
      (m₁.setReg r value).reg r' = (m₂.setReg r value).reg r' := by
    intro r' hr'
    by_cases heq : r' = r
    · rw [heq, hself]
    · rw [reg_setReg_of_ne _ _ heq, reg_setReg_of_ne _ _ heq, hr']
  refine ⟨?_, ?_, ?_, hreg _ h.zero, hreg _ h.sp, hreg _ h.fp, fun r' hr' => ?_, fun hhi => ?_,
    fun hlo => ?_⟩
  · rw [setReg_pc, setReg_npc]
    exact h.left
  · rw [setReg_pc, setReg_npc]
    exact h.right
  · rw [setReg_store, setReg_store, h.store]
  · rcases List.mem_cons.mp hr' with heq | hr'
    · obtain rfl := Cell.reg.inj heq
      exact hself
    · exact hreg r' (h.regs r' hr')
  · rw [setReg_hi, setReg_hi, h.hi (by simpa using hhi)]
  · rw [setReg_lo, setReg_lo, h.lo (by simpa using hlo)]

theorem get_secure {r : Reg} (h : r.cells ⊆ known) : Secure pc npc known known (get r) := by
  intro m₁ m₂ hagree
  show Alike _ (.ok (m₁.reg r) m₁) (.ok (m₂.reg r) m₂)
  rw [hagree.reg h]
  exact .ok hagree

theorem put_secure (r : Reg) (value : UInt32) :
    Secure pc npc known (.reg r :: known) (put r value) := fun _ _ h => .ok (h.setReg r value)

theorem lift_secure {α : Type} (x : Except Fault α) : Secure pc npc known known (lift x) := by
  cases x with
  | ok a => exact .pure a
  | error fault => exact .throw fault

theorem onStore_secure {α : Type} (action : StoreM α) :
    Secure pc npc known known (onStore action) := by
  intro m₁ m₂ h
  obtain ⟨regs₁, hi₁, lo₁, pc₁, npc₁, store, trace₁⟩ := m₁
  obtain ⟨regs₂, hi₂, lo₂, pc₂, npc₂, _, trace₂⟩ := m₂
  obtain rfl := h.store
  unfold onStore
  dsimp only
  cases action store with
  | ok a store' => exact .ok ⟨h.left, h.right, rfl, h.zero, h.sp, h.fp, h.regs, h.hi, h.lo⟩
  | error fault store' => exact .error

theorem setHiLo_secure (hi lo : UInt32) :
    Secure pc npc known (.hi :: .lo :: known) (setHiLo hi lo) := by
  intro m₁ m₂ h
  refine .ok ⟨h.left, h.right, h.store, h.zero, h.sp, h.fp, fun r hr => ?_, fun _ => rfl,
    fun _ => rfl⟩
  exact h.regs r (by simpa using hr)

theorem address_secure (width : Width) (offset : Int32) {base : Reg} (h : base.cells ⊆ known) :
    Secure pc npc known known (address width offset base) := by
  refine (get_secure h).bind fun value => ?_
  dsimp only
  split
  · exact .throw _
  · exact .pure _

end Primitives

/-! ## Instructions -/

section Execute

variable {known : List Cell} {pc npc : UInt32} {p : Program Instr}

/-- Two machines that agree on what an instruction reads run it alike, and agree on what it sets. -/
theorem execute_secure {instr : Instr} (hplain : instr.hasDelaySlot = false)
    (hreads : instr.reads ⊆ known) :
    Secure pc npc known (instr.writes ++ known) (execute p instr) := by
  cases instr with
  | branch | branchZero | j | jal | jalr | jr => cases hplain
  | label | nop => exact .pure _
  | alu op dst lhs rhs =>
    obtain ⟨hlhs, hrhs⟩ := List.append_subset.mp hreads
    exact (get_secure hlhs).bind fun _ => (get_secure hrhs).bind fun _ =>
      (put_secure _ _).bind fun _ => .pure _
  | aluImm op dst src imm =>
    exact (get_secure hreads).bind fun _ => (put_secure _ _).bind fun _ => .pure _
  | shift op dst src amount =>
    exact (get_secure hreads).bind fun _ => (put_secure _ _).bind fun _ => .pure _
  | mult lhs rhs unsigned =>
    obtain ⟨hlhs, hrhs⟩ := List.append_subset.mp hreads
    exact (get_secure hlhs).bind fun _ => (get_secure hrhs).bind fun _ =>
      (setHiLo_secure _ _).bind fun _ => .pure _
  | div lhs rhs unsigned =>
    obtain ⟨hlhs, hrhs⟩ := List.append_subset.mp hreads
    refine (get_secure hrhs).bind fun divisor => ?_
    dsimp only
    split
    · exact .throw _
    · exact (get_secure hlhs).bind fun _ => (setHiLo_secure _ _).bind fun _ => .pure _
  | mfhi dst =>
    intro m₁ m₂ h
    show Alike _ (.ok none (m₁.setReg dst m₁.hi)) (.ok none (m₂.setReg dst m₂.hi))
    rw [h.hi (hreads (List.mem_singleton_self _))]
    exact .ok (h.setReg dst _)
  | mflo dst =>
    intro m₁ m₂ h
    show Alike _ (.ok none (m₁.setReg dst m₁.lo)) (.ok none (m₂.setReg dst m₂.lo))
    rw [h.lo (hreads (List.mem_singleton_self _))]
    exact .ok (h.setReg dst _)
  | li dst imm => exact (put_secure _ _).bind fun _ => .pure _
  | la dst symbol =>
    exact (lift_secure _).bind fun _ => (put_secure _ _).bind fun _ => .pure _
  | move dst src =>
    exact (get_secure hreads).bind fun _ => (put_secure _ _).bind fun _ => .pure _
  | load width signed dst offset base =>
    exact (address_secure width offset hreads).bind fun _ => (onStore_secure _).bind fun _ =>
      (put_secure _ _).bind fun _ => .pure _
  | store width src offset base =>
    obtain ⟨hbase, hsrc⟩ := List.append_subset.mp hreads
    exact (address_secure width offset hbase).bind fun _ => (get_secure hsrc).bind fun _ =>
      (onStore_secure _).bind fun _ => .pure _

/-- The answer of a branch: the label's address if the condition `c` holds. -/
def branchAnswer (p : Program Instr) (l : Label) (c : Bool) (m : Machine) :
    EStateM.Result Fault Machine (Option UInt32) :=
  match c, p.labelAddress l with
  | true, .ok address => .ok (some address) m
  | true, .error fault => .error fault m
  | false, _ => .ok none m

theorem execute_branch_apply (onEqual : Bool) (lhs rhs : Reg) (l : Label) (m : Machine) :
    execute p (.branch onEqual lhs rhs l) m =
      branchAnswer p l ((m.reg lhs == m.reg rhs) == onEqual) m := by
  simp only [execute, bind_apply, get]
  generalize ((m.reg lhs == m.reg rhs) == onEqual) = c
  cases c with
  | false => rfl
  | true => cases h : p.labelAddress l <;> simp [branchAnswer, h, lift, bind_apply]

theorem execute_branchZero_apply (test : ZeroTest) (src : Reg) (l : Label) (m : Machine) :
    execute p (.branchZero test src l) m =
      branchAnswer p l (test.holds (m.reg src).toInt32) m := by
  simp only [execute, bind_apply, get]
  generalize test.holds (m.reg src).toInt32 = c
  cases c with
  | false => rfl
  | true => cases h : p.labelAddress l <;> simp [branchAnswer, h, lift, bind_apply]

theorem execute_j_apply (l : Label) (m : Machine) :
    execute p (.j l) m = branchAnswer p l true m := by
  simp only [execute, bind_apply]
  cases h : p.labelAddress l <;> simp [branchAnswer, h, lift]

theorem Agree.fetched {m₁ m₂ : Machine} (h : Agree known pc npc m₁ m₂) (k : Nat) :
    Agree known pc npc (m₁.fetched k) (m₂.fetched k) :=
  ⟨h.left, h.right, h.store, h.zero, h.sp, h.fp, h.regs, h.hi, h.lo⟩

theorem Agree.advance {m₁ m₂ : Machine} (h : Agree known pc npc m₁ m₂) (next : Option UInt32) :
    Agree known npc (next.getD (npc + 4)) (m₁.advance next) (m₂.advance next) := by
  refine ⟨⟨h.left.2, ?_⟩, ⟨h.right.2, ?_⟩, h.store, h.zero, h.sp, h.fp, h.regs, h.hi, h.lo⟩
  · show next.getD (m₁.npc + 4) = _
    rw [h.left.2]
  · show next.getD (m₂.npc + 4) = _
    rw [h.right.2]

/-- Control goes to `target`, in order from there on. -/
theorem redirect_secure (target : UInt32) :
    Couples (Agree known pc npc) (Agree known target (target + 4))
      (modify fun m => { m with pc := target, npc := target + 4 } : Run Unit) :=
  fun _ _ h => .ok ⟨⟨rfl, rfl⟩, ⟨rfl, rfl⟩, h.store, h.zero, h.sp, h.fp, h.regs, h.hi, h.lo⟩

def intrinsicThen (p : Program Instr) (intrinsic : Intrinsic) (ra : UInt32) : Run Unit := do
  let sp ← get .sp
  match ← onStore (p.runIntrinsic intrinsic sp (ra - 8)) with
  | some value => put .v0 value
  | none => pure ()
  modify fun m => { m with pc := ra, npc := ra + 4 }

theorem callIntrinsic_eq (intrinsic : Intrinsic) (m : Machine) :
    callIntrinsic p intrinsic m = intrinsicThen p intrinsic (m.reg .ra) m := rfl

theorem intrinsicThen_secure (intrinsic : Intrinsic) (ra : UInt32) :
    Couples (Agree known pc npc)
      (Agree (intrinsicCells intrinsic.symbol ++ known) ra (ra + 4))
      (intrinsicThen p intrinsic ra) := by
  refine (get_secure (by simp [Reg.cells])).bind fun sp => ?_
  cases intrinsic with
  | callSite => exact (put_secure .v0 (ra - 8)).bind fun _ => redirect_secure ra
  | _ =>
    refine (onStore_secure _).bind fun value => ?_
    cases value with
    | none => exact redirect_secure ra
    | some value =>
      have hput : Secure pc npc known known (put .v0 value) :=
        (put_secure .v0 value).mono (fun _ _ h => h)
          fun _ _ h => h.mono (List.subset_cons_self _ _)
      exact hput.bind fun _ => redirect_secure ra

/-- An intrinsic runs alike and returns to the same place. -/
theorem callIntrinsic_alike (intrinsic : Intrinsic) {m₁ m₂ : Machine}
    (hagree : Agree known pc npc m₁ m₂) (hra : Cell.reg .ra ∈ known) :
    Alike (Agree (intrinsicCells intrinsic.symbol ++ known) (m₁.reg .ra) (m₁.reg .ra + 4))
      (callIntrinsic p intrinsic m₁) (callIntrinsic p intrinsic m₂) := by
  rw [callIntrinsic_eq, callIntrinsic_eq, ← hagree.regs .ra hra]
  exact intrinsicThen_secure intrinsic (m₁.reg .ra) m₁ m₂ hagree

end Execute

end Machine

/-! ## Runs through a template -/

section Runs

open Machine

variable {p : Program Instr} {base : Nat} {code : List Instr} {live : Label → List Cell}
  {after : List Cell}

/-- Control stands at an instruction of the code, or at an intrinsic that it called. -/
def StandsIn (base : Nat) (code : List Instr) (m : Machine) : Prop :=
  ¬Outside base code m.pc ∨ (Intrinsic.atAddress? m.pc).isSome = true

/-- Once the intrinsic has returned to `ra`, what is needed there is known. -/
structure Returns (live : Label → List Cell) (after : List Cell) (base : Nat) (code : List Instr)
    (known : List Cell) (intrinsic : Intrinsic) (ra : UInt32) : Prop where
  mem : Cell.reg .ra ∈ known
  plain : Intrinsic.atAddress? ra = none
  covers : Covers live after base code (intrinsicCells intrinsic.symbol ++ known) ra

/-- Where control stands on the way through the code: it goes on in order, or it stands in an empty
delay slot before a jump or a call, or at the intrinsic that was called. -/
inductive OnWay (live : Label → List Cell) (after : List Cell) (base : Nat) (code : List Instr)
    (known : List Cell) (pc npc ra : UInt32) : Prop
  | inOrder (hnpc : npc = pc + 4) (hplain : Intrinsic.atAddress? pc = none)
      (hcovers : Covers live after base code known pc)
  | jumping {k : Nat} (hpc : pc = codeAddress (base + k)) (hnop : code[k]? = some .nop)
      (hplain : Intrinsic.atAddress? npc = none) (hcovers : Covers live after base code known npc)
  | calling {k : Nat} {intrinsic : Intrinsic} (hpc : pc = codeAddress (base + k))
      (hnop : code[k]? = some .nop) (hat : Intrinsic.atAddress? npc = some intrinsic)
      (hreturns : Returns live after base code known intrinsic ra)
  | called {intrinsic : Intrinsic} (hat : Intrinsic.atAddress? pc = some intrinsic)
      (hreturns : Returns live after base code known intrinsic ra)

/-- The machines agree on what the code needs from where they stand on. -/
def Abreast (live : Label → List Cell) (after : List Cell) (base : Nat) (code : List Instr)
    (m₁ m₂ : Machine) : Prop :=
  ∃ known pc npc, Agree known pc npc m₁ m₂ ∧
    OnWay live after base code known pc npc (m₁.reg .ra)

/-- What the two runs do after instructions that answered alike. -/
theorem alike_advance {R : Machine → Machine → Prop} {m₁ m₂ : Machine} {x : Run (Option UInt32)}
    (h : Alike R (x m₁) (x m₂))
    (hR : ∀ next t₁ t₂, x m₁ = .ok next t₁ → R t₁ t₂ →
      Abreast live after base code (t₁.advance next) (t₂.advance next)) :
    Alike (Abreast live after base code)
      ((x >>= fun next => modify (Machine.advance · next)) m₁)
      ((x >>= fun next => modify (Machine.advance · next)) m₂) := by
  rw [bind_apply, bind_apply]
  generalize hfirst : x m₁ = first at h hR ⊢
  generalize x m₂ = second at h ⊢
  cases h with
  | ok h => exact .ok (hR _ _ _ rfl h)
  | error => exact .error

theorem slot_abreast (hwf : p.WellFormed) (hplaced : Placed p base code) {k : Nat}
    {known : List Cell} {pc npc : UInt32} {m₁ m₂ : Machine} (hpc : pc = codeAddress (base + k))
    (hnop : code[k]? = some .nop) (hagree : Agree known pc npc m₁ m₂)
    (hway : OnWay live after base code known npc (npc + 4) (m₁.reg .ra)) :
    Alike (Abreast live after base code) (cycle p m₁) (cycle p m₂) := by
  rw [cycle_at hwf.fits (hagree.left.1.trans hpc) (hplaced.fetch k _ hnop),
    cycle_at hwf.fits (hagree.right.1.trans hpc) (hplaced.fetch k _ hnop)]
  exact .ok ⟨known, npc, npc + 4, (hagree.fetched (base + k)).advance none, hway⟩

/-- Control goes on to the next instruction, and the cells that it needs are known. -/
theorem goesOn_abreast (hend : base + code.length < codeLimit) {k : Nat} {known tail : List Cell}
    {m₁ m₂ : Machine} (hk : k < code.length) (htail : needs? live after (code.drop (k + 1)) = some tail)
    (hknown : tail ⊆ known)
    (hagree : Agree known (codeAddress (base + k)) (codeAddress (base + (k + 1))) m₁ m₂) :
    Abreast live after base code (m₁.advance none) (m₂.advance none) :=
  ⟨known, _, _, hagree.advance none, .inOrder rfl (atAddress?_codeAddress (by omega))
    (.of_drop (Nat.le_of_lt hend) hk htail hknown)⟩

/-- The code calls an intrinsic, and what is needed behind the call is known or comes from it. -/
theorem call_abreast (hwf : p.WellFormed) (hend : base + code.length < codeLimit) {k : Nat}
    {known tail : List Cell} {intrinsic : Intrinsic} {m₁ m₂ : Machine} (hnop : code[k + 1]? = some .nop)
    (htail : needs? live after (code.drop (k + 1)) = some tail)
    (hknown : tail ⊆ .reg .ra :: intrinsicCells intrinsic.symbol ++ known)
    (hagree : Agree known (codeAddress (base + k)) (codeAddress (base + (k + 1))) m₁ m₂) :
    Alike (Abreast live after base code)
      ((execute p (.jal intrinsic.symbol) >>= fun next => modify (Machine.advance · next)) m₁)
      ((execute p (.jal intrinsic.symbol) >>= fun next => modify (Machine.advance · next)) m₂) := by
  obtain ⟨address, hresolve, hat⟩ := hwf.intrinsics intrinsic
  have hrun : ∀ m : Machine, execute p (.jal intrinsic.symbol) m =
      .ok (some address) (m.setReg .ra (m.pc + 8)) := by
    intro m
    simp only [execute, bind_apply, hresolve, lift, pure_apply]
    rfl
  rw [bind_apply, bind_apply, hrun, hrun, hagree.left.1, hagree.right.1]
  -- the intrinsic returns behind the delay slot, which needs what is needed there
  have hlt : k + 1 < code.length := (List.getElem?_eq_some_iff.mp hnop).1
  have hra : ∀ t : Machine, (t.setReg .ra (codeAddress (base + k) + 8)).reg .ra =
      codeAddress (base + (k + 2)) := by
    intro t
    rw [reg_setReg_self _ _ (by decide), show (8 : UInt32) = 4 + 4 from rfl, ← UInt32.add_assoc,
      codeAddress_succ, codeAddress_succ]
    rfl
  rw [List.drop_eq_getElem_cons hlt, (List.getElem?_eq_some_iff.mp hnop).2] at htail
  obtain ⟨tail', htail', -, -, rfl⟩ := needs?_cons.mp htail
  have hslot : tail' ⊆ needsBefore live Instr.nop tail' :=
    (needsBefore_subset (List.Subset.refl (needsBefore live Instr.nop tail'))).2.2 rfl
  refine .ok ⟨.reg .ra :: known, _, _, (hagree.setReg .ra _).advance (some address),
    .calling rfl hnop hat ⟨List.mem_cons_self, ?_, ?_⟩⟩
  · rw [advance_reg, hra]
    exact atAddress?_codeAddress (by omega)
  · rw [advance_reg, hra]
    refine .of_drop (Nat.le_of_lt hend) hlt htail' (List.Subset.trans (List.Subset.trans hslot hknown) ?_)
    intro c hc
    simp only [List.cons_append, List.mem_cons, List.mem_append] at hc ⊢
    tauto

section Step

variable (hwf : p.WellFormed) (hplaced : Placed p base code)
  (hend : base + code.length < codeLimit) (hneeds : Needs live [] code after)
  (hexits : ∀ l ∈ usedLabels code, l ∉ boundLabels code → after ⊆ live l)

include hwf hplaced hend hneeds hexits

/-- A label that the code uses has the address of an instruction where its live cells are enough. -/
theorem label_covers {l : Label} {address : UInt32} {known : List Cell}
    (hused : l ∈ usedLabels code) (hknown : live l ⊆ known)
    (haddress : p.labelAddress l = .ok address) :
    Intrinsic.atAddress? address = none ∧ Covers live after base code known address := by
  refine ⟨?_, (covers_label hwf hplaced (Nat.le_of_lt hend) hneeds hexits hused haddress).mono
    hknown⟩
  unfold Program.labelAddress at haddress
  split at haddress
  · rename_i index hindex
    obtain rfl := Except.ok.inj haddress
    obtain ⟨instr, hinstr, -⟩ := hwf.labels l index hindex
    have hlt := (Array.getElem?_eq_some_iff.mp hinstr).1
    exact atAddress?_codeAddress (Nat.lt_of_lt_of_le hlt hwf.fits)
  · cases haddress

/-- Both machines go to a label once the delay slot is over. -/
theorem goto_abreast {k : Nat} {l : Label} {known : List Cell} {m₁ m₂ : Machine} {address : UInt32}
    (hused : l ∈ usedLabels code) (hnop : code[k + 1]? = some .nop) (hknown : live l ⊆ known)
    (haddress : p.labelAddress l = .ok address)
    (hagree : Agree known (codeAddress (base + k)) (codeAddress (base + (k + 1))) m₁ m₂) :
    Abreast live after base code (m₁.advance (some address)) (m₂.advance (some address)) := by
  obtain ⟨hnone, hcovers⟩ := label_covers hwf hplaced hend hneeds hexits hused hknown haddress
  exact ⟨known, _, _, hagree.advance (some address), .jumping rfl hnop hnone hcovers⟩

theorem execute_abreast {k : Nat} {known need : List Cell} {instr : Instr} {m₁ m₂ : Machine}
    (hinstr : code[k]? = some instr) (hneed : needs? live after (code.drop k) = some need)
    (hknown : need ⊆ known)
    (hagree : Agree known (codeAddress (base + k)) (codeAddress (base + (k + 1))) m₁ m₂) :
    Alike (Abreast live after base code)
      ((execute p instr >>= fun next => modify (Machine.advance · next)) m₁)
      ((execute p instr >>= fun next => modify (Machine.advance · next)) m₂) := by
  have hk : k < code.length := (List.getElem?_eq_some_iff.mp hinstr).1
  rw [List.drop_eq_getElem_cons hk, (List.getElem?_eq_some_iff.mp hinstr).2] at hneed
  obtain ⟨tail, htail, hlocal, -, rfl⟩ := needs?_cons.mp hneed
  obtain ⟨hreads, hjump, hrest⟩ := needsBefore_subset hknown
  have hslot : (code.drop (k + 1)).head? = some .nop → code[k + 1]? = some .nop := by
    rw [List.head?_drop]
    exact id
  -- a branch that is taken or not, on the same condition
  have hbranch : ∀ {l} {c : Bool}, LabelUse.uses? instr = some l →
      (c = false → instr.goesOn = true ∧ instr.writes = []) → code[k + 1]? = some .nop →
      execute p instr m₁ = branchAnswer p l c m₁ → execute p instr m₂ = branchAnswer p l c m₂ →
      Alike (Abreast live after base code)
        ((execute p instr >>= fun next => modify (Machine.advance · next)) m₁)
        ((execute p instr >>= fun next => modify (Machine.advance · next)) m₂) := by
    intro l c huses hgoes hnop hfirst hsecond
    rw [bind_apply, bind_apply, hfirst, hsecond]
    cases c with
    | false =>
      obtain ⟨hgoes, hwrites⟩ := hgoes rfl
      have hsub : tail ⊆ instr.writes ++ known := hrest hgoes
      rw [hwrites] at hsub
      exact .ok (goesOn_abreast hend hk htail hsub hagree)
    | true =>
      unfold branchAnswer
      have hused : l ∈ usedLabels code :=
        List.mem_filterMap.mpr ⟨instr, List.mem_of_getElem? hinstr, huses⟩
      cases haddress : p.labelAddress l with
      | error fault => exact .error
      | ok address =>
        exact .ok (goto_abreast hwf hplaced hend hneeds hexits hused hnop (hjump l huses) haddress hagree)
  by_cases hdelay : instr.hasDelaySlot = false
  · refine alike_advance (execute_secure hdelay hreads m₁ m₂ hagree) ?_
    intro next t₁ t₂ hrun h
    obtain rfl := execute_goesOn_of_plain p hdelay m₁ next t₁ hrun
    refine goesOn_abreast hend hk htail (hrest ?_) h
    show instr.goesOn = true
    cases instr <;> first | rfl | cases hdelay
  · cases instr with
    | branch onEqual lhs rhs target =>
      obtain ⟨hlhs, hrhs⟩ := List.append_subset.mp hreads
      refine hbranch rfl (fun _ => ⟨rfl, rfl⟩) (hslot (of_decide_eq_true hlocal))
        (execute_branch_apply onEqual lhs rhs target m₁) ?_
      rw [execute_branch_apply, hagree.reg hlhs, hagree.reg hrhs]
    | branchZero test src target =>
      refine hbranch rfl (fun _ => ⟨rfl, rfl⟩) (hslot (of_decide_eq_true hlocal))
        (execute_branchZero_apply test src target m₁) ?_
      rw [execute_branchZero_apply, hagree.reg hreads]
    | j target =>
      exact hbranch (c := true) rfl nofun (hslot (of_decide_eq_true hlocal)) (execute_j_apply target m₁)
        (execute_j_apply target m₂)
    | jal symbol =>
      obtain ⟨hintrinsic, hnop⟩ := Bool.and_eq_true_iff.mp hlocal
      obtain ⟨intrinsic, -, hsymbol⟩ := List.any_eq_true.mp hintrinsic
      obtain rfl := eq_of_beq hsymbol
      exact call_abreast hwf hend (hslot (of_decide_eq_true hnop)) htail (hrest rfl) hagree
    | jalr | jr => cases hlocal
    | _ => exact absurd rfl hdelay

theorem lockstep_of_needs :
    Lockstep (cycle p) (StandsIn base code) (Abreast live after base code)
      fun m₁ m₂ => ∃ pc npc, Agree after pc npc m₁ m₂ where
  inside := by
    rintro m₁ m₂ ⟨known, pc, npc, hagree, -⟩
    rw [StandsIn, StandsIn, hagree.left.1, hagree.right.1]
  step := by
    rintro m₁ m₂ ⟨known, pc, npc, hagree, hway⟩ hinside
    cases hway with
    | inOrder hnpc hplain hcovers =>
      rcases hcovers with ⟨k, need, hk, rfl, hneed, hknown⟩ | ⟨houtside, -⟩
      · have hinstr := List.getElem?_eq_getElem hk
        rw [cycle_at hwf.fits hagree.left.1 (hplaced.fetch k _ hinstr),
          cycle_at hwf.fits hagree.right.1 (hplaced.fetch k _ hinstr)]
        rw [hnpc, codeAddress_succ] at hagree
        exact execute_abreast hwf hplaced hend hneeds hexits hinstr hneed hknown
          (hagree.fetched (base + k))
      · rw [StandsIn, hagree.left.1, hplain] at hinside
        rcases hinside with hinside | hinside
        · exact absurd houtside hinside
        · cases hinside
    | jumping hpc hnop hplain hcovers =>
      exact slot_abreast hwf hplaced hpc hnop hagree (.inOrder rfl hplain hcovers)
    | calling hpc hnop hat hreturns =>
      exact slot_abreast hwf hplaced hpc hnop hagree (.called hat hreturns)
    | called hat hreturns =>
      rename_i intrinsic
      rw [← hagree.left.1] at hat
      rw [cycle_intrinsic hat, cycle_intrinsic (by rwa [hagree.right.1, ← hagree.left.1])]
      have halike := callIntrinsic_alike (p := p) intrinsic hagree hreturns.mem
      generalize callIntrinsic p intrinsic m₁ = first, callIntrinsic p intrinsic m₂ = second
        at halike
      cases halike with
      | ok h => exact .ok ⟨_, _, _, h, .inOrder rfl hreturns.plain hreturns.covers⟩
      | error => exact .error
  same := by
    rintro m₁ m₂ ⟨known, pc, npc, hagree, hway⟩ houtside
    rw [StandsIn, hagree.left.1, not_or, not_not] at houtside
    obtain ⟨houtside, hnone⟩ := houtside
    cases hway with
    | inOrder hnpc hplain hcovers =>
      rcases hcovers with ⟨k, need, hk, rfl, -, -⟩ | ⟨-, hafter⟩
      · exact absurd rfl (houtside k hk)
      · exact ⟨pc, npc, hagree.mono hafter⟩
    | jumping hpc hnop => exact absurd hpc (houtside _ (List.getElem?_eq_some_iff.mp hnop).1)
    | calling hpc hnop => exact absurd hpc (houtside _ (List.getElem?_eq_some_iff.mp hnop).1)
    | called hat =>
      rw [hat] at hnone
      exact absurd rfl hnone

end Step

/-- From the start of the code, wherever it is placed below the intrinsics, two machines that agree on
the store, `$zero`, the stack pointer and the frame pointer run alike, and leave with the cells of
`after` agreed on as well. -/
def RunsAlike (code : List Instr) (after : List Cell) : Prop :=
  ∀ (p : Program Instr) (base : Nat) (m₁ m₂ : Machine), p.WellFormed → Placed p base code →
    base + code.length < codeLimit → Agree [] (codeAddress base) (codeAddress base + 4) m₁ m₂ →
    EndAlike (cycle p) (StandsIn base code) (fun m₁ m₂ => ∃ pc npc, Agree after pc npc m₁ m₂) m₁ m₂

theorem runsAlike_of_isolated {ctx : EmitContext} {i : Instruction} (h : Isolated code after)
    (hlabels : TemplateLabels ctx i code) : RunsAlike code after := by
  intro p base m₁ m₂ hwf hplaced hend hagree
  obtain ⟨live, houtside, hneeds⟩ := h
  have hexits : ∀ l ∈ usedLabels code, l ∉ boundLabels code → after ⊆ live l :=
    fun l hused hbound =>
      houtside l (isSynthetic_of_goesTo ((hlabels.closed l hused).resolve_left hbound))
  refine (lockstep_of_needs hwf hplaced hend hneeds hexits).endAlike ⟨[], _, _, hagree,
    .inOrder rfl (atAddress?_codeAddress (by omega)) ?_⟩
  obtain ⟨need, hneed, hknown⟩ := hneeds
  exact .of_drop (k := 0) (Nat.le_of_lt hend) (Nat.zero_le _) hneed hknown

end Runs

end Stencil.Mips
