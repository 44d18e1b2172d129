import Stencil.Proofs.Mips.Product
import Stencil.Proofs.Mips.Releases

/-!
# What the MIPS32 machine keeps between invocations

An invocation sets registers and the trace anew, and the program counters before the first instruction runs,
but it leaves `hi` and `lo`. As long as control enters spans at their starts, from inside or from calls, it
comes to what reads them only from the instruction before it (`Way.before_reads`). So what a run finds in `hi`
and `lo` at first makes no difference (`invoke_start`).
-/

namespace Stencil.Mips

open AddressMap Invocation Stateful

namespace Machine

/-! ## Changes aside from registers and store -/

/-- The change leaves the registers and the store alone, and does not look at them. -/
structure Aside (f : Machine → Machine) : Prop where
  reg : ∀ m r, (f m).reg r = m.reg r
  store : ∀ m, (f m).store = m.store
  setReg : ∀ m r value, (f m).setReg r value = f (m.setReg r value)
  withStore : ∀ m (s : Store), { f m with store := s } = f { m with store := s }

def withProduct (hi lo : UInt32) (m : Machine) : Machine := { m with hi, lo }

/-- The machine with other values of `hi` and `lo` and other program counters. -/
def elsewhere (hi lo pc npc : UInt32) (m : Machine) : Machine := { m with hi, lo, pc, npc }

theorem withProduct_setReg (hi lo : UInt32) (m : Machine) (r : Reg) (value : UInt32) :
    (m.withProduct hi lo).setReg r value = (m.setReg r value).withProduct hi lo := by
  unfold Machine.setReg
  split <;> rfl

theorem withProduct_aside (hi lo : UInt32) : Aside (withProduct hi lo) where
  reg _ _ := rfl
  store _ := rfl
  setReg := withProduct_setReg hi lo
  withStore _ _ := rfl

theorem elsewhere_aside (hi lo pc npc : UInt32) : Aside (elsewhere hi lo pc npc) where
  reg _ _ := rfl
  store _ := rfl
  setReg m r value := by
    unfold Machine.setReg
    split <;> rfl
  withStore _ _ := rfl

section Aside

variable {f : Machine → Machine} (hf : Aside f)

include hf

theorem get_ignores (r : Reg) : Ignores f (get r) := fun m => by
  rw [get_apply, get_apply, hf.reg]
  rfl

theorem put_ignores (r : Reg) (value : UInt32) : Ignores f (put r value) := fun m => by
  rw [put_apply, put_apply, hf.setReg]
  rfl

omit hf in
theorem lift_ignores {α : Type} (answer : Except Fault α) : Ignores f (lift answer) := fun m => by
  cases answer <;> rfl

omit hf in
theorem onStore_eq {α : Type} (action : StoreM α) (m : Machine) :
    onStore action m = match action m.store with
      | .ok a s => .ok a { m with store := s }
      | .error fault s => .error fault { m with store := s } := rfl

theorem onStore_ignores {α : Type} (action : StoreM α) : Ignores f (onStore action) := by
  intro m
  rw [onStore_eq, onStore_eq, hf.store]
  cases action m.store with
  | ok a s => exact congrArg (EStateM.Result.ok a) (hf.withStore m s)
  | error fault s => exact congrArg (EStateM.Result.error fault) (hf.withStore m s)

theorem push_ignores (value : UInt32) : Ignores f (push value) :=
  .bind (get_ignores hf _) fun _ => .bind (onStore_ignores hf _) fun _ => put_ignores hf _ _

theorem address_ignores (width : Width) (offset : Int32) (base : Reg) : Ignores f (address width offset base) :=
  .bind (get_ignores hf _) fun _ => .ite (.bind (.throw _) fun _ => .pure _) (.pure _)

theorem collect_ignores (args : List StackValue) (returnBytes : UInt32) : Ignores f (collect args returnBytes) := by
  refine .bind (get_ignores hf _) fun sp => ?_
  have hread : Ignores f ((List.range (returnBytes / 4).toNat).mapM fun k =>
      onStore (Store.readWord (sp + 4 * UInt32.ofNat k))) := .mapM (fun _ => onStore_ignores hf _) _
  exact .ite (.bind (.throw _) fun _ => hread) hread

end Aside

/-! ## Instructions -/

section Product

variable {p : Program Instr} {hi lo : UInt32}

theorem link_ignores : Ignores (withProduct hi lo) link := fun m =>
  congrArg (EStateM.Result.ok ()) (withProduct_setReg hi lo m .ra (m.pc + 8))

/-- Most instructions have nothing to do with `hi` and `lo`. -/
theorem execute_ignores {instr : Instr} (h : instr.usesProduct = false) :
    Ignores (withProduct hi lo) (execute p instr) := by
  have hf := withProduct_aside hi lo
  have hput : ∀ (r : Reg) (value : UInt32), Ignores (withProduct hi lo) (do
      put r value
      return none : Run (Option UInt32)) := fun r value => .bind (put_ignores hf r value) fun _ => .pure _
  cases instr with
  | mult | div | mfhi | mflo => cases h
  | label | nop => exact .pure _
  | alu op dst lhs rhs => exact .bind (get_ignores hf _) fun _ => .bind (get_ignores hf _) fun _ => hput _ _
  | aluImm op dst src imm => exact .bind (get_ignores hf _) fun _ => hput _ _
  | shift op dst src amount => exact .bind (get_ignores hf _) fun _ => hput _ _
  | li dst imm => exact hput _ _
  | la dst symbol => exact .bind (lift_ignores _) fun _ => hput _ _
  | move dst src => exact .bind (get_ignores hf _) fun _ => hput _ _
  | load width signed dst offset base =>
    exact .bind (address_ignores hf _ _ _) fun _ => .bind (onStore_ignores hf _) fun _ => hput _ _
  | store width src offset base =>
    exact .bind (address_ignores hf _ _ _) fun _ => .bind (get_ignores hf _) fun _ =>
      .bind (onStore_ignores hf _) fun _ => .pure _
  | branch onEqual lhs rhs target =>
    refine .bind (get_ignores hf _) fun _ => .bind (get_ignores hf _) fun _ => .ite ?_ (.pure _)
    exact .bind (lift_ignores _) fun _ => .pure _
  | branchZero test src target =>
    exact .bind (get_ignores hf _) fun _ => .ite (.bind (lift_ignores _) fun _ => .pure _) (.pure _)
  | j target => exact .bind (lift_ignores _) fun _ => .pure _
  | jal symbol => exact .bind (lift_ignores _) fun _ => .bind link_ignores fun _ => .pure _
  | jalr target => exact .bind (get_ignores hf _) fun _ => .bind link_ignores fun _ => .pure _
  | jr target => exact .bind (get_ignores hf _) fun _ => .pure _

/-- An instruction runs alike whatever is in `hi` and `lo`, unless it reads them; where it uses them they are
the same afterwards. -/
theorem execute_product (m : Machine) {instr : Instr} (hsame : instr.readsProduct = true → hi = m.hi ∧ lo = m.lo) :
    ∃ hi' lo', execute p instr (m.withProduct hi lo) = mapState (withProduct hi' lo') (execute p instr m) ∧
      ∀ next t, execute p instr m = .ok next t → instr.usesProduct = true → hi' = t.hi ∧ lo' = t.lo := by
  cases huses : instr.usesProduct with
  | false => exact ⟨hi, lo, execute_ignores huses m, fun _ _ _ h => nomatch h⟩
  | true =>
    cases instr with
    | mult lhs rhs unsigned => exact ⟨_, _, rfl, fun next t ht _ => by cases ht; exact ⟨rfl, rfl⟩⟩
    | mfhi dst =>
      obtain ⟨rfl, rfl⟩ := hsame rfl
      exact ⟨(m.setReg dst m.hi).hi, (m.setReg dst m.hi).lo, rfl, fun next t ht _ => by cases ht; exact ⟨rfl, rfl⟩⟩
    | mflo dst =>
      obtain ⟨rfl, rfl⟩ := hsame rfl
      exact ⟨(m.setReg dst m.lo).hi, (m.setReg dst m.lo).lo, rfl, fun next t ht _ => by cases ht; exact ⟨rfl, rfl⟩⟩
    | div lhs rhs unsigned =>
      by_cases hzero : m.reg rhs = 0
      · have hthrow : ∀ m : Machine, m.reg rhs = 0 → execute p (.div lhs rhs unsigned) m = .error .divide m := by
          intro m hzero
          rw [execute, bind_of_ok (get_apply rhs m), hzero]
          rfl
        refine ⟨hi, lo, ?_, fun next t ht _ => ?_⟩
        · rw [hthrow m hzero, hthrow (m.withProduct hi lo) hzero]
          rfl
        · rw [hthrow m hzero] at ht
          cases ht
      · let result := quotient unsigned (m.reg lhs) (m.reg rhs)
        have hdivide : ∀ m' : Machine, m'.reg = m.reg →
            execute p (.div lhs rhs unsigned) m' = .ok none { m' with hi := result.2, lo := result.1 } := by
          intro m' hreg
          rw [execute, bind_of_ok (get_apply rhs m'), hreg]
          simp only [hzero, if_false]
          rw [bind_of_ok (get_apply lhs m'), hreg]
          rfl
        refine ⟨result.2, result.1, ?_, fun next t ht _ => ?_⟩
        · rw [hdivide m rfl, hdivide (m.withProduct hi lo) rfl]
          rfl
        · rw [hdivide m rfl] at ht
          cases ht
          exact ⟨rfl, rfl⟩
    | _ => cases huses

end Product

/-! ## Cycles -/

section Cycles

variable {p : Program Instr} {hi lo : UInt32}

theorem cycle_eq (p : Program Instr) (m : Machine) :
    cycle p m = match Intrinsic.atAddress? m.pc with
      | some intrinsic => callIntrinsic p intrinsic m
      | none =>
        match p.indexOf m.pc with
        | .error fault => .error fault m
        | .ok k =>
          match p.code[k]? with
          | none => .error (.invalidInstruction m.pc) (m.fetched k)
          | some instr => (execute p instr >>= fun next => modify (advance · next)) (m.fetched k) := by
  unfold cycle
  rw [bind_of_ok (estate_get_apply m)]
  cases Intrinsic.atAddress? m.pc with
  | some intrinsic => rfl
  | none =>
    dsimp only
    cases p.indexOf m.pc with
    | error fault => rfl
    | ok k =>
      rw [bind_of_ok (show lift (Except.ok k) m = .ok k m from rfl)]
      dsimp only
      cases p.code[k]? <;> rfl

theorem callIntrinsic_ignores (intrinsic : Intrinsic) : Ignores (withProduct hi lo) (callIntrinsic p intrinsic) := by
  have hf := withProduct_aside hi lo
  refine .bind (get_ignores hf _) fun ra => .bind (get_ignores hf _) fun sp => .bind (onStore_ignores hf _) fun answer => ?_
  have hreturn : Ignores (withProduct hi lo) (modify fun m => { m with pc := ra, npc := ra + 4 } : Run PUnit) :=
    .modify fun _ => rfl
  cases answer with
  | none => exact hreturn
  | some value => exact .bind (put_ignores hf _ _) fun _ => hreturn

def lastIndex (m : Machine) : Option Nat := m.trace.back?.map TraceEntry.index

theorem lastIndex_of_trace {m t : Machine} {k : Nat} (h : t.trace = (m.fetched k).trace) : t.lastIndex = some k := by
  rw [lastIndex, h, fetched, Array.back?_push]
  rfl

def productOf (m : Machine) : UInt32 × UInt32 := (m.hi, m.lo)

theorem callIntrinsic_product (intrinsic : Intrinsic) : Keeps productOf (callIntrinsic p intrinsic) := by
  have hput : ∀ r value, Keeps productOf (put r value) := fun r value m => by
    show productOf (m.setReg r value) = _
    rw [productOf, setReg_hi, setReg_lo]
    rfl
  refine .bind (fun _ => rfl) fun ra => .bind (fun _ => rfl) fun sp => .bind (fun m => ?_) fun answer => ?_
  · rw [onStore_state]
    rfl
  · have hreturn : Keeps productOf (modify fun m => { m with pc := ra, npc := ra + 4 } : Run PUnit) :=
      .modify fun _ => rfl
    cases answer with
    | none => exact hreturn
    | some value => exact .bind (hput _ _) fun _ => hreturn

theorem execute_trace {instr : Instr} {m : Machine} : (stateAfter (execute p instr) m).trace = m.trace :=
  congrArg (·.1.2) (execute_notes p instr m)

theorem callIntrinsic_trace (intrinsic : Intrinsic) (m : Machine) :
    (stateAfter (callIntrinsic p intrinsic) m).trace = m.trace := by
  have hlogs := congrArg Prod.snd (callIntrinsic_logs (p := p) intrinsic m)
  rw [onStore_state] at hlogs
  exact hlogs

/-- If `hi` or `lo` were used last they are the same. -/
def SameProduct (p : Program Instr) (hi lo : UInt32) (m : Machine) : Prop :=
  ∀ k instr, m.lastIndex = some k → p.code[k]? = some instr → instr.usesProduct = true → hi = m.hi ∧ lo = m.lo

/-- A cycle runs alike whatever is in `hi` and `lo`, unless the instruction reads them. -/
theorem cycle_product (m : Machine) (hsame : SameProduct p hi lo m)
    (hreads : ∀ k, m.pc = codeAddress k → ReadsProduct p k → hi = m.hi ∧ lo = m.lo) :
    ∃ hi' lo', cycle p (m.withProduct hi lo) = mapState (withProduct hi' lo') (cycle p m) ∧
      ∀ t, cycle p m = .ok () t → SameProduct p hi' lo' t := by
  have hpc : (m.withProduct hi lo).pc = m.pc := rfl
  rw [cycle_eq, cycle_eq, hpc]
  cases hat : Intrinsic.atAddress? m.pc with
  | some intrinsic =>
    refine ⟨hi, lo, callIntrinsic_ignores intrinsic m, fun t ht k instr hlast hinstr huses => ?_⟩
    have htrace := callIntrinsic_trace (p := p) intrinsic m
    rw [stateAfter_of_ok ht] at htrace
    obtain ⟨hhi, hlo⟩ := Prod.mk.inj ((callIntrinsic_product intrinsic).of_ok ht)
    rw [lastIndex, htrace] at hlast
    rw [hhi, hlo]
    exact hsame k instr hlast hinstr huses
  | none =>
    dsimp only
    cases hindex : p.indexOf m.pc with
    | error fault => exact ⟨hi, lo, rfl, fun t ht => nomatch ht⟩
    | ok k =>
      dsimp only
      cases hinstr : p.code[k]? with
      | none => exact ⟨hi, lo, rfl, fun t ht => nomatch ht⟩
      | some instr =>
        dsimp only
        have hpc := (Program.indexOf_ok hindex).1
        obtain ⟨hi', lo', hrun, huses⟩ := @execute_product p hi lo (m.fetched k) instr fun hread =>
          hreads k hpc ⟨instr, hinstr, hread⟩
        have hfetched : (m.withProduct hi lo).fetched k = (m.fetched k).withProduct hi lo := rfl
        refine ⟨hi', lo', ?_, fun t ht k' instr' hlast hinstr' hused => ?_⟩
        · rw [hfetched]
          cases hexecute : execute p instr (m.fetched k) with
          | ok next t =>
            rw [hexecute] at hrun
            rw [bind_of_ok hexecute, bind_of_ok hrun]
            rfl
          | error fault t =>
            rw [hexecute] at hrun
            rw [bind_of_error hexecute, bind_of_error hrun]
            rfl
        · obtain ⟨next, u, hexecute, hadvance⟩ := bind_eq_ok.mp ht
          obtain ⟨-, rfl⟩ := EStateM.Result.ok.inj hadvance
          have htrace : u.trace = (m.fetched k).trace := by
            have hkept : (stateAfter (execute p instr) (m.fetched k)).trace = (m.fetched k).trace := execute_trace
            rwa [stateAfter_of_ok hexecute] at hkept
          have hran : (u.advance next).lastIndex = some k := lastIndex_of_trace htrace
          obtain rfl := Option.some.inj (hran.symm.trans hlast)
          obtain rfl := Option.some.inj (hinstr.symm.trans hinstr')
          exact huses next u hexecute hused

end Cycles

/-! ## Ways to what reads `hi` and `lo` -/

/-- Control proceeds behind the instruction at the index, at once or when an intrinsic returns, or to an address
where neither `hi` nor `lo` is read. -/
def Proceeds (p : Program Instr) (k : Nat) (a ra : UInt32) : Prop :=
  a = codeAddress (k + 1) ∨ Clear p a ∧ (Intrinsic.atAddress? a ≠ none → ra = codeAddress (k + 1))

/-- The index lies in a span in which `hi` or `lo` is read. -/
def Listens (methods : List (CompiledMethod Instr)) (p : Program Instr) (k : Nat) : Prop :=
  ∃ k', Together methods k k' ∧ ReadsProduct p k'

/-- Where control goes from the instruction that ran last, if `hi` or `lo` is read in its span. -/
inductive Way (methods : List (CompiledMethod Instr)) (p : Program Instr) (m : Machine) : Prop
  | start (hlast : m.lastIndex = none) (hnpc : m.npc = m.pc + 4)
  | inOrder {k : Nat} (hlast : m.lastIndex = some k) (hnpc : m.npc = m.pc + 4)
      (hproceeds : Listens methods p k → Proceeds p k m.pc (m.reg .ra))
  | inSlot {k : Nat} {instr : Instr} (hlast : m.lastIndex = some k) (hinstr : p.code[k]? = some instr)
      (hslot : instr.hasDelaySlot = true) (hpc : m.pc = codeAddress (k + 1))
      (hproceeds : Listens methods p k → Proceeds p (k + 1) m.npc (m.reg .ra))

section Ways

variable {tables : Table} {options : Options} {methods : List (CompiledMethod Instr)} {config : RunConfig}
  {p : Program Instr} (hcompiled : ∀ m ∈ methods, ∃ body, compileMethod backend tables options body = .ok m)
  (hlinked : Linked methods tables options config p) (hfits : p.code.size < codeLimit)

include hcompiled hlinked hfits

/-- Where a jump from a span goes in which `hi` or `lo` is read. -/
theorem proceeds_of_execute {k : Nat} {instr : Instr} {m t : Machine} {next : Option UInt32}
    (hpc : m.pc = codeAddress k) (hinstr : p.code[k]? = some instr) (hslot : instr.hasDelaySlot = true)
    (hlistens : Listens methods p k) (h : execute p instr (m.fetched k) = .ok next t) :
    Proceeds p (k + 1) (next.getD (codeAddress (k + 2))) (t.reg .ra) := by
  obtain ⟨k', htogether, hreads⟩ := hlistens
  have hdirect := direct_of_linked hcompiled hlinked htogether hreads hinstr
  have hlabel : ∀ {l a}, p.labelAddress l = .ok a → Proceeds p (k + 1) a (t.reg .ra) := fun hl =>
    .inr ⟨(clear_label hlinked hfits hl).1, fun hne => absurd (clear_label hlinked hfits hl).2 hne⟩
  have hbranch : ∀ {l}, instr.branchesTo l → Proceeds p (k + 1) (next.getD (codeAddress (k + 2))) (t.reg .ra) := by
    intro l hbranches
    obtain ⟨-, rfl | ⟨a, ha, rfl⟩⟩ := execute_branch hbranches h
    · exact .inl rfl
    · exact hlabel ha
  cases instr with
  | branch onEqual lhs rhs target => exact hbranch (l := target) rfl
  | branchZero test src target => exact hbranch (l := target) rfl
  | j target =>
    obtain ⟨-, a, ha, rfl⟩ := execute_j h
    exact hlabel ha
  | jal s =>
    obtain ⟨a, rfl, rfl, hresolve⟩ := execute_call rfl h
    refine .inr ⟨clear_symbol hcompiled hlinked hfits (hresolve s rfl), fun _ => ?_⟩
    rw [reg_setReg_self _ _ (by decide), fetched_pc, hpc, show (8 : UInt32) = 4 + 4 from rfl, ← UInt32.add_assoc,
      codeAddress_succ, codeAddress_succ]
  | jalr | jr => cases hdirect
  | _ => cases hslot

theorem Way.cycle {m t : Machine} (h : Way methods p m) (hcycle : Machine.cycle p m = .ok () t) :
    Way methods p t := by
  have hbehind : ∀ {j k : Nat}, Together methods j k → j + 1 < codeLimit := fun htogether => by
    have hlt := htogether.lt hcompiled hlinked
    omega
  rcases cycle_cases hfits.le m with ⟨intrinsic, hat, hrun⟩ | ⟨-, hrun | ⟨k, instr, hpc, hinstr, hrun⟩⟩
  · rw [hrun] at hcycle
    have htrace := callIntrinsic_trace (p := p) intrinsic m
    rw [stateAfter_of_ok hcycle] at htrace
    have hlast : t.lastIndex = m.lastIndex := congrArg (fun trace => trace.back?.map TraceEntry.index) htrace
    obtain ⟨-, -, htpc, htnpc⟩ := callIntrinsic_ok hcycle
    have horder : t.npc = t.pc + 4 := by rw [htnpc, htpc]
    cases h with
    | start hnone => exact .start (hlast.trans hnone) horder
    | inOrder hk _ hproceeds =>
      refine .inOrder (hlast.trans hk) horder fun hlistens => ?_
      rw [htpc]
      rcases hproceeds hlistens with hnext | ⟨-, hreturn⟩
      · obtain ⟨_, htogether, -⟩ := hlistens
        rw [hnext, atAddress?_codeAddress (hbehind htogether)] at hat
        cases hat
      · exact .inl (hreturn (by rw [hat]; exact Option.some_ne_none _))
    | inSlot _ hinstr hslot hpc =>
      obtain ⟨-, htogether⟩ := slot_of_linked hcompiled hlinked hinstr hslot
      rw [hpc, atAddress?_codeAddress (hbehind htogether)] at hat
      cases hat
  · cases hrun.symm.trans hcycle
  · rw [hrun] at hcycle
    obtain ⟨next, u, hexecute, hadvance⟩ := bind_eq_ok.mp hcycle
    obtain ⟨-, rfl⟩ := EStateM.Result.ok.inj hadvance
    have hnotes := notes_of_execute hexecute
    have hlast : (u.advance next).lastIndex = some k := lastIndex_of_trace (congrArg (·.1.2) hnotes)
    have hnpc : u.npc = m.npc := congrArg (·.2) hnotes
    have hk := (Array.getElem?_eq_some_iff.mp hinstr).1
    -- what runs in order: the next instruction follows, or a delay slot
    have hgoes : m.npc = m.pc + 4 → Way methods p (u.advance next) := by
      intro horder
      rw [hpc, codeAddress_succ] at horder
      cases hslot : instr.hasDelaySlot with
      | false =>
        obtain rfl := execute_goesOn_of_plain p hslot _ _ _ hexecute
        refine .inOrder hlast rfl fun _ => .inl ?_
        rw [advance_pc, hnpc, horder]
      | true =>
        refine .inSlot hlast hinstr hslot ?_ fun hlistens => ?_
        · rw [advance_pc, hnpc, horder]
        · have hproceeds := proceeds_of_execute hcompiled hlinked hfits hpc hinstr hslot hlistens hexecute
          rw [← codeAddress_succ, ← horder, ← hnpc] at hproceeds
          exact hproceeds
    cases h with
    | start _ horder => exact hgoes horder
    | inOrder _ horder => exact hgoes horder
    | inSlot _ hinstr' hslot hpc' hproceeds =>
      rename_i j instr'
      obtain ⟨hnop, htogether⟩ := slot_of_linked hcompiled hlinked hinstr' hslot
      have hj := hbehind htogether
      obtain rfl := (codeAddress_inj (by omega) (by omega)).mp (hpc'.symm.trans hpc)
      obtain rfl := Option.some.inj (hnop.symm.trans hinstr)
      obtain ⟨rfl, rfl⟩ := EStateM.Result.ok.inj hexecute
      refine .inOrder hlast rfl fun ⟨k', hlistens, hreads⟩ => ?_
      exact hproceeds ⟨k', htogether.trans hcompiled hlistens, hreads⟩

/-- Where control comes from the same span to an instruction that reads `hi` or `lo`, it comes from the
instruction before it. -/
theorem Way.before_reads {m : Machine} (h : Way methods p m) {j k : Nat} (hlast : m.lastIndex = some j)
    (hpc : m.pc = codeAddress k) (hreads : ReadsProduct p k) (htogether : Together methods j k) : k = j + 1 := by
  obtain ⟨reader, hreader, hread⟩ := id hreads
  have hk := (Array.getElem?_eq_some_iff.mp hreader).1
  have hj := htogether.lt hcompiled hlinked
  cases h with
  | start hnone => cases hnone.symm.trans hlast
  | inOrder hlast' _ hproceeds =>
    obtain rfl := Option.some.inj (hlast'.symm.trans hlast)
    rcases hproceeds ⟨k, htogether, hreads⟩ with hnext | ⟨hclear, -⟩
    · exact (codeAddress_inj (by omega) (by omega)).mp (hpc.symm.trans hnext)
    · exact absurd hreads (hclear k hpc)
  | inSlot hlast' _ _ hpc' =>
    obtain rfl := Option.some.inj (hlast'.symm.trans hlast)
    exact (codeAddress_inj (by omega) (by omega)).mp (hpc.symm.trans hpc')

/-- Control comes to what reads `hi` or `lo` from the same span. -/
def ListensInside (methods : List (CompiledMethod Instr)) (p : Program Instr) (ran : List TraceEntry) : Prop :=
  ∀ before entry after, ran = before ++ entry :: after → ReadsProduct p entry.index →
    ∃ last, before.getLast? = some last ∧ Together methods last.index entry.index

omit hfits in
theorem listensInside_of_enters {ran : List TraceEntry} (h : EntersSpans methods p Instr.isCall 1 ran) :
    ListensInside methods p ran := by
  intro before entry after hran hreads
  obtain ⟨reader, hreader, -⟩ := id hreads
  obtain ⟨base, span, hspan, hholds⟩ := exists_spanAt hcompiled hlinked (Array.getElem?_eq_some_iff.mp hreader).1
  obtain ⟨j, instr, hj, hinside, hinstr, huses⟩ := product_of_linked hcompiled hlinked hspan hholds hreads
  rcases h before entry after hran base span hspan hholds with hfirst | ⟨last, hlast, hlies⟩ | hback
  · have hlow := hinside.1
    omega
  · exact ⟨last, hlast, base, span, hspan, hlies, hholds⟩
  · -- a call returns behind its delay slot
    obtain ⟨call, -, caller, -, hcaller, hcall, hreturn⟩ := hback
    have hslot : caller.hasDelaySlot = true := by
      cases caller with
      | jal | jalr => rfl
      | _ => cases hcall
    obtain ⟨hnop, -⟩ := slot_of_linked hcompiled hlinked hcaller hslot
    obtain rfl : j = call.index + 1 := by omega
    obtain rfl := Option.some.inj (hnop.symm.trans hinstr)
    cases huses

omit hcompiled hlinked hfits in
theorem cycle_trace_at (hfits : p.code.size ≤ codeLimit) {m : Machine} {k : Nat} {instr : Instr}
    (hpc : m.pc = codeAddress k) (hinstr : p.code[k]? = some instr) :
    (stateAfter (Machine.cycle p) m).trace = (m.fetched k).trace := by
  have hrun : stateAfter (Machine.cycle p) m =
      stateAfter (execute p instr >>= fun next => modify (advance · next)) (m.fetched k) := by
    rw [stateAfter, stateAfter, cycle_at hfits hpc hinstr]
  have htrace := @execute_trace p instr (m.fetched k)
  rw [hrun]
  cases hexecute : execute p instr (m.fetched k) with
  | ok next t =>
    rw [stateAfter_of_ok hexecute] at htrace
    rw [stateAfter_bind_of_ok hexecute, ← htrace]
    rfl
  | error fault t =>
    rw [stateAfter_of_error hexecute] at htrace
    rw [stateAfter_bind_of_error hexecute, htrace]

omit hcompiled hlinked hfits in
theorem cycle_trace (hfits : p.code.size ≤ codeLimit) (m : Machine) :
    m.trace.toList <+: (stateAfter (Machine.cycle p) m).trace.toList := by
  rcases cycle_cases hfits m with ⟨intrinsic, -, hrun⟩ | ⟨-, hrun | ⟨k, instr, hpc, hinstr, -⟩⟩
  · have hsame : stateAfter (Machine.cycle p) m = stateAfter (callIntrinsic p intrinsic) m := by
      rw [stateAfter, stateAfter, hrun]
    rw [hsame, callIntrinsic_trace]
  · rw [stateAfter_of_error hrun]
  · rw [cycle_trace_at hfits hpc hinstr, fetched, Array.toList_push]
    exact List.prefix_append _ _

omit hcompiled hlinked hfits in
theorem stateAfter_run {m : Machine} (hpc : m.pc ≠ returnSentinel) (fuel : Nat) :
    (∃ t, Machine.cycle p m = .ok () t ∧ stateAfter (run p (fuel + 1)) m = stateAfter (run p fuel) t) ∨
      stateAfter (run p (fuel + 1)) m = stateAfter (Machine.cycle p) m := by
  cases hcycle : Machine.cycle p m with
  | ok _ t => exact .inl ⟨t, rfl, by simp only [stateAfter, run, hpc, if_false, hcycle]⟩
  | error fault t => exact .inr (by simp only [stateAfter, run, hpc, if_false, hcycle])

omit hcompiled hlinked hfits in
theorem run_trace (hfits : p.code.size ≤ codeLimit) (fuel : Nat) (m : Machine) :
    m.trace.toList <+: (stateAfter (run p fuel) m).trace.toList := by
  induction fuel generalizing m with
  | zero =>
    have hdone : stateAfter (run p 0) m = m := by
      by_cases hpc : m.pc = returnSentinel <;> simp [stateAfter, run, hpc]
    rw [hdone]
  | succ fuel ih =>
    by_cases hpc : m.pc = returnSentinel
    · have hdone : stateAfter (run p (fuel + 1)) m = m := by simp [stateAfter, run, hpc]
      rw [hdone]
    · have hcycle := cycle_trace hfits m
      rcases stateAfter_run hpc fuel with ⟨t, ht, hrun⟩ | hrun
      · rw [stateAfter_of_ok ht] at hcycle
        rw [hrun]
        exact hcycle.trans (ih t)
      · rwa [hrun]

/-- Where control comes to what reads `hi` or `lo`, they are the same already. -/
theorem Way.sameProduct {m : Machine} {hi lo : UInt32} (h : Way methods p m) (hsame : SameProduct p hi lo m)
    {ran : List TraceEntry} (hlistens : ListensInside methods p ran)
    (hran : (stateAfter (Machine.cycle p) m).trace.toList <+: ran) {k : Nat} (hpc : m.pc = codeAddress k)
    (hreads : ReadsProduct p k) : hi = m.hi ∧ lo = m.lo := by
  obtain ⟨reader, hreader, -⟩ := id hreads
  obtain ⟨after, rfl⟩ := hran
  rw [cycle_trace_at hfits.le hpc hreader, fetched, Array.toList_push, List.append_assoc] at hlistens
  obtain ⟨last, hlast, htogether⟩ := hlistens _ _ after rfl hreads
  have hindex : m.lastIndex = some last.index := by
    rw [lastIndex, ← Array.getLast?_toList, hlast]
    rfl
  have hbefore := h.before_reads hcompiled hlinked hfits hindex hpc hreads htogether
  obtain ⟨base, span, hspan, hholds⟩ := exists_spanAt hcompiled hlinked (Array.getElem?_eq_some_iff.mp hreader).1
  obtain ⟨j, instr, hj, -, hinstr, huses⟩ := product_of_linked hcompiled hlinked hspan hholds hreads
  have hsucc : last.index = j := by omega
  exact hsame j instr (hindex.trans (congrArg some hsucc)) hinstr huses

/-- A run goes alike whatever is in `hi` and `lo` at first. -/
theorem run_product {ran : List TraceEntry} (hlistens : ListensInside methods p ran) (fuel : Nat) {m : Machine}
    {hi lo : UInt32} (h : Way methods p m) (hsame : SameProduct p hi lo m)
    (hran : (stateAfter (run p fuel) m).trace.toList <+: ran) :
    ∃ hi' lo', run p fuel (m.withProduct hi lo) = mapState (withProduct hi' lo') (run p fuel m) := by
  induction fuel generalizing m hi lo with
  | zero =>
    refine ⟨hi, lo, ?_⟩
    have hpc : (m.withProduct hi lo).pc = m.pc := rfl
    unfold run
    rw [hpc]
    split <;> rfl
  | succ fuel ih =>
    have hpc : (m.withProduct hi lo).pc = m.pc := rfl
    by_cases hdone : m.pc = returnSentinel
    · refine ⟨hi, lo, ?_⟩
      simp only [run, hpc, hdone, if_true]
      rfl
    · have hcycled : (stateAfter (Machine.cycle p) m).trace.toList <+: ran := by
        rcases stateAfter_run hdone fuel with ⟨t, ht, hrun⟩ | hrun
        · rw [stateAfter_of_ok ht]
          rw [hrun] at hran
          exact (run_trace hfits.le fuel t).trans hran
        · rwa [← hrun]
      obtain ⟨hi', lo', hcycle, hsame'⟩ := cycle_product m hsame fun k hk hreads =>
        h.sameProduct hcompiled hlinked hfits hsame hlistens hcycled hk hreads
      cases hrun : Machine.cycle p m with
      | ok _ t =>
        have hnext : run p (fuel + 1) m = run p fuel t := by simp only [run, hdone, if_false, hrun]
        rw [hrun] at hcycle
        have hnext' : run p (fuel + 1) (m.withProduct hi lo) = run p fuel (t.withProduct hi' lo') := by
          simp only [run, hpc, hdone, if_false, hcycle, mapState]
        have hran' : (stateAfter (run p fuel) t).trace.toList <+: ran := by
          rw [stateAfter, ← hnext]
          exact hran
        rw [hnext, hnext']
        exact ih (h.cycle hcompiled hlinked hfits hrun) (hsame' t hrun) hran'
      | error fault t =>
        refine ⟨hi', lo', ?_⟩
        rw [hrun] at hcycle
        simp only [run, hpc, hdone, if_false, hrun, hcycle, mapState]

/-! ## Invocations -/

omit hcompiled hlinked hfits in
/-- An invocation is prepared before it is known where it starts. -/
theorem prepare_elsewhere (p : Program Instr) (entry : Symbol) (args : List StackValue)
    (returnBytes hi lo pc npc : UInt32) (m : Machine) :
    (∃ t, prepare p entry args returnBytes m = .ok () t ∧
        prepare p entry args returnBytes (m.elsewhere hi lo pc npc) = .ok () (t.withProduct hi lo)) ∨
      ∃ fault t, prepare p entry args returnBytes m = .error fault t ∧
        prepare p entry args returnBytes (m.elsewhere hi lo pc npc) = .error fault (t.elsewhere hi lo pc npc) := by
  have hf := elsewhere_aside hi lo pc npc
  let front : Run UInt32 := do
    modify fun m => { m with trace := #[], regs := Vector.replicate 32 0 }
    put .sp stackTop
    (argumentWords args).forM push
    put .sp ((← get .sp) - returnBytes)
    put .ra returnSentinel
    lift (p.resolve entry)
  have hfront : Ignores (elsewhere hi lo pc npc) front :=
    .bind (.modify fun _ => rfl) fun _ => .bind (put_ignores hf _ _) fun _ =>
      .bind (.forM (push_ignores hf) _) fun _ => .bind (get_ignores hf _) fun _ =>
      .bind (put_ignores hf _ _) fun _ => .bind (put_ignores hf _ _) fun _ => lift_ignores _
  have hprepare : prepare p entry args returnBytes =
      front >>= fun start => modify fun m => { m with pc := start, npc := start + 4 } := by
    simp only [prepare, front, bind_assoc]
  rw [hprepare]
  cases hrun : front m with
  | ok start t => exact .inl ⟨_, bind_of_ok hrun, bind_of_ok (hfront.of_ok hrun)⟩
  | error fault t => exact .inr ⟨fault, t, bind_of_error hrun, bind_of_error (hfront.of_error hrun)⟩

omit hcompiled hlinked hfits in
/-- What is done behind the run adds nothing to the trace. -/
theorem invoke_trace {entry : Symbol} {args : List StackValue} {returnBytes : UInt32} {m t : Machine}
    (h : prepare p entry args returnBytes m = .ok () t) :
    (stateAfter (invoke p entry args returnBytes) m).trace = (stateAfter (run p p.stepLimit) t).trace := by
  rw [invoke_eq, stateAfter_bind_of_ok h]
  cases hrun : run p p.stepLimit t with
  | ok _ u =>
    rw [stateAfter_of_ok hrun, stateAfter_bind_of_ok hrun]
    exact congrArg Prod.snd (collect_logs args returnBytes u)
  | error fault u => rw [stateAfter_of_error hrun, stateAfter_bind_of_error hrun]

/-- An invocation on a machine that has run before shows the same as one on a new machine with the same
store. -/
theorem invoke_start (entry : Symbol) (args : List StackValue) (returnBytes : UInt32) (m : Machine)
    (h : EntersSpans methods p Instr.isCall 1 (stateAfter (invoke p entry args returnBytes) m).trace.toList) :
    Restarts ops p entry args returnBytes m := by
  show outcome ops (invoke p entry args returnBytes m) =
    outcome ops (invoke p entry args returnBytes (ops.start m.store))
  have hstart : prepare p entry args returnBytes (ops.start m.store) =
      prepare p entry args returnBytes (m.elsewhere 0 0 returnSentinel returnSentinel) := rfl
  rcases prepare_elsewhere p entry args returnBytes 0 0 returnSentinel returnSentinel m with
    ⟨t, ht, ht'⟩ | ⟨fault, t, ht, ht'⟩
  · rw [invoke_of_prepare ht, invoke_of_prepare (hstart.trans ht')]
    have hlogs := prepare_logs p entry args returnBytes m
    rw [stateAfter_of_ok ht] at hlogs
    obtain ⟨-, htrace⟩ := Prod.mk.inj hlogs
    have hnone : t.lastIndex = none := by rw [lastIndex, htrace]; rfl
    have hran : (stateAfter (run p p.stepLimit) t).trace.toList <+:
        (stateAfter (invoke p entry args returnBytes) m).trace.toList := by
      rw [invoke_trace ht]
    obtain ⟨hi, lo, hproduct⟩ := run_product hcompiled hlinked hfits
      (listensInside_of_enters hcompiled hlinked h) p.stepLimit (.start hnone (prepare_ok ht).2)
      (fun k _ hlast => absurd (hnone.symm.trans hlast) (Option.some_ne_none k).symm) hran
    cases hrun : run p p.stepLimit t with
    | ok _ u =>
      rw [hrun] at hproduct
      rw [bind_of_ok hrun, bind_of_ok hproduct, collect_ignores (withProduct_aside hi lo) args returnBytes u]
      cases collect args returnBytes u <;> rfl
    | error fault u =>
      rw [hrun] at hproduct
      rw [bind_of_error hrun, bind_of_error hproduct]
      rfl
  · rw [invoke_eq, bind_of_error ht, bind_of_error (hstart.trans ht')]
    rfl

end Ways

end Machine

end Stencil.Mips
