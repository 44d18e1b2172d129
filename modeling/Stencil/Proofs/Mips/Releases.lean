import Stencil.Proofs.Machine.Released
import Stencil.Proofs.Mips.Invocation
import Stencil.Proofs.Mips.Rests
import Stencil.Proofs.Objects.Basic

/-!
# Releases of the MIPS32 machine

Instructions release nothing: an intrinsic runs when the program counter gets to its address, some cycles
after a call was noted. So while a run goes on, the calls that may yet release something are kept apart from
those that have (`Owes`). Where no jump through a register goes to the intrinsic, and no intrinsic returns
to it, the releases of a run go back to calls of the symbol (`invoke_releases`).
-/

namespace Stencil.Mips

namespace Machine

open AddressMap Invocation Stateful

/-- What runs only add to: the released objects and the trace. -/
def logs (m : Machine) : Array UInt32 × Array TraceEntry := (m.store.released, m.trace)

/-- The logs, and where control goes after the present instruction. -/
def notes (m : Machine) : (Array UInt32 × Array TraceEntry) × UInt32 := (m.logs, m.npc)

/-! ## Registers and memory -/

theorem get_notes (r : Reg) : Keeps notes (get r) := fun _ => rfl

theorem notes_setReg (m : Machine) (r : Reg) (value : UInt32) : notes (m.setReg r value) = notes m := by
  unfold setReg
  split
  · rfl
  · rfl

theorem put_notes (r : Reg) (value : UInt32) : Keeps notes (put r value) := fun m => notes_setReg m r value

theorem lift_notes {α : Type} (answer : Except Fault α) : Keeps notes (lift answer) := fun m => by
  cases answer <;> rfl

theorem onStore_state {α : Type} (action : StoreM α) (m : Machine) :
    stateAfter (onStore action) m = { m with store := stateAfter action m.store } := by
  unfold stateAfter onStore
  dsimp only
  cases action m.store <;> rfl

theorem onStore_notes {α : Type} {action : StoreM α} (h : ReleasesNothing action) :
    Keeps notes (onStore action) := by
  intro m
  rw [onStore_state, notes, logs, h m.store]
  rfl

theorem push_notes (value : UInt32) : Keeps notes (push value) :=
  .bind (get_notes _) fun _ => .bind (onStore_notes (Store.write_releases _ _ _)) fun _ => put_notes _ _

theorem address_notes (width : Width) (offset : Int32) (base : Reg) : Keeps notes (address width offset base) :=
  .bind (get_notes _) fun _ => .ite (.bind (.throw _) fun _ => .pure _) (.pure _)

theorem setHiLo_notes (hi lo : UInt32) : Keeps notes (setHiLo hi lo) := fun _ => rfl

theorem link_notes : Keeps notes link := fun m => notes_setReg m _ _

variable (p : Program Instr)

theorem execute_notes (instr : Instr) : Keeps notes (execute p instr) := by
  have hput : ∀ (r : Reg) (value : UInt32), Keeps notes (do
      put r value
      return none : Run (Option UInt32)) := fun r value => .bind (put_notes r value) fun _ => .pure _
  cases instr with
  | label l => exact .pure _
  | nop => exact .pure _
  | alu op dst lhs rhs => exact .bind (get_notes _) fun _ => .bind (get_notes _) fun _ => hput _ _
  | aluImm op dst src imm => exact .bind (get_notes _) fun _ => hput _ _
  | shift op dst src amount => exact .bind (get_notes _) fun _ => hput _ _
  | mult lhs rhs unsigned =>
    exact .bind (get_notes _) fun _ => .bind (get_notes _) fun _ => .bind (setHiLo_notes _ _) fun _ => .pure _
  | div lhs rhs unsigned =>
    refine .bind (get_notes _) fun divisor => .ite (.bind (.throw _) fun _ => ?_) ?_
    all_goals exact .bind (get_notes _) fun _ => .bind (setHiLo_notes _ _) fun _ => .pure _
  | mfhi dst => exact fun m => notes_setReg m _ _
  | mflo dst => exact fun m => notes_setReg m _ _
  | li dst imm => exact hput _ _
  | la dst symbol => exact .bind (lift_notes _) fun _ => hput _ _
  | move dst src => exact .bind (get_notes _) fun _ => hput _ _
  | load width signed dst offset base =>
    exact .bind (address_notes _ _ _) fun _ => .bind (onStore_notes (Store.read_releases _ _)) fun _ => hput _ _
  | store width src offset base =>
    exact .bind (address_notes _ _ _) fun _ => .bind (get_notes _) fun _ =>
      .bind (onStore_notes (Store.write_releases _ _ _)) fun _ => .pure _
  | branch onEqual lhs rhs target =>
    refine .bind (get_notes _) fun _ => .bind (get_notes _) fun _ => .ite ?_ (.pure _)
    exact .bind (lift_notes _) fun _ => .pure _
  | branchZero test src target =>
    exact .bind (get_notes _) fun _ => .ite (.bind (lift_notes _) fun _ => .pure _) (.pure _)
  | j target => exact .bind (lift_notes _) fun _ => .pure _
  | jal symbol => exact .bind (lift_notes _) fun _ => .bind link_notes fun _ => .pure _
  | jalr target => exact .bind (get_notes _) fun _ => .bind link_notes fun _ => .pure _
  | jr target => exact .bind (get_notes _) fun _ => .pure _

variable {p}

theorem notes_of_execute {instr : Instr} {m t : Machine} {next : Option UInt32}
    (h : execute p instr m = .ok next t) : t.notes = m.notes := by
  have hnotes := execute_notes p instr m
  rwa [stateAfter_of_ok h] at hnotes

/-- A cycle on an instruction logs only its fetch, and goes where control was sent before. -/
theorem notes_of_cycle (hfits : p.code.size ≤ codeLimit) {m t : Machine} {k : Nat} {instr : Instr}
    (hpc : m.pc = codeAddress k) (hinstr : p.code[k]? = some instr) (h : cycle p m = .ok () t) :
    t.logs = (m.fetched k).logs ∧ t.pc = m.npc := by
  obtain ⟨next, u, hexecute, rfl⟩ := cycle_ok hfits hpc hinstr h
  exact Prod.mk.inj (notes_of_execute hexecute)

variable (p)

/-! ## Cycles -/

/-- A jump through a register goes to the intrinsic that releases, or an intrinsic is about to return to
it. -/
def ForgesRelease (m : Machine) : Prop :=
  (∃ k r, m.pc = codeAddress k ∧ (p.code[k]? = some (.jr r) ∨ p.code[k]? = some (.jalr r)) ∧
      Intrinsic.atAddress? (m.reg r) = some .release) ∨
    Intrinsic.atAddress? m.pc ≠ none ∧ Intrinsic.atAddress? (m.reg .ra) = some .release

/-- Calls of a symbol that leads to the intrinsic are among these instructions. -/
def CallsRelease (calls : Nat → Prop) : Prop :=
  ∀ k s a, p.code[k]? = some (.jal s) → p.resolve s = .ok a → Intrinsic.atAddress? a = some .release → calls k

/-- What was released goes back to the calls that ran first. Where the intrinsic comes next, or after the
present instruction, one of the later ones has called it. -/
structure Owes (calls : Nat → Prop) (released : Array UInt32) (ran late : List TraceEntry) (m : Machine) :
    Prop where
  trace : m.trace.toList = ran ++ late
  settled : ReleasedBy calls released m.store.released ran
  now : Intrinsic.atAddress? m.pc = some .release → ∃ entry ∈ late, calls entry.index
  next : Intrinsic.atAddress? m.pc = none → Intrinsic.atAddress? m.npc = some .release →
    ∃ entry ∈ late, calls entry.index

variable {p} {calls : Nat → Prop} {released : Array UInt32} {ran late : List TraceEntry} {m : Machine}

theorem Owes.releasedBy (h : Owes calls released ran late m) :
    ReleasedBy calls released m.store.released m.trace.toList := by
  rw [h.trace]
  exact h.settled.later late

/-- Control goes to the intrinsic only by a call of its symbol, or through a register. -/
theorem calls_of_execute (hwf : p.WellFormed) (hcalls : CallsRelease p calls) {k : Nat} {instr : Instr}
    (hpc : m.pc = codeAddress k) (hinstr : p.code[k]? = some instr) (hunforged : ¬ForgesRelease p m)
    {a : UInt32} {t : Machine} (h : execute p instr (m.fetched k) = .ok (some a) t)
    (hat : Intrinsic.atAddress? a = some .release) : calls k := by
  have hlabel : ∀ l, p.labelAddress l = .ok a → calls k := by
    intro l hl
    obtain ⟨j, -, hj, rfl⟩ := hwf.labelAddress_ok hl
    have hfits := hwf.fits
    exact absurd hat (atAddress?_codeAddress_ne (by omega) (by decide))
  cases instr with
  | branch onEqual lhs rhs target =>
    have hbranches : (Instr.branch onEqual lhs rhs target).branchesTo target := rfl
    obtain ⟨-, hnone | ⟨a', ha', hsome⟩⟩ := execute_branch hbranches h
    · cases hnone
    · cases hsome
      exact hlabel target ha'
  | branchZero test src target =>
    have hbranches : (Instr.branchZero test src target).branchesTo target := rfl
    obtain ⟨-, hnone | ⟨a', ha', hsome⟩⟩ := execute_branch hbranches h
    · cases hnone
    · cases hsome
      exact hlabel target ha'
  | j target =>
    obtain ⟨-, a', ha', hsome⟩ := execute_j h
    cases hsome
    exact hlabel target ha'
  | jal symbol =>
    obtain ⟨a', hsome, -, hresolve⟩ := execute_call rfl h
    cases hsome
    exact hcalls k symbol a hinstr (hresolve symbol rfl) hat
  | jalr target =>
    obtain ⟨hsome, -⟩ := EStateM.Result.ok.inj h
    cases hsome
    exact absurd (.inl ⟨k, target, hpc, .inr hinstr, hat⟩) hunforged
  | jr target =>
    obtain ⟨hsome, -⟩ := EStateM.Result.ok.inj h
    cases hsome
    exact absurd (.inl ⟨k, target, hpc, .inl hinstr, hat⟩) hunforged
  | _ => cases execute_goesOn_of_plain p rfl _ _ _ h

/-- Nothing is owed where the program counters have left the intrinsic aside. -/
theorem Owes.settle (trace : m.trace.toList = ran ++ late)
    (settled : ReleasedBy calls released m.store.released ran)
    (hpc : Intrinsic.atAddress? m.pc ≠ some .release) (hnpc : m.npc = m.pc + 4) :
    Owes calls released ran late m where
  trace := trace
  settled := settled
  now hat := absurd hat hpc
  next hnone hat := by
    rw [hnpc] at hat
    exact absurd hnone (atAddress?_of_release_add hat)

/-- An intrinsic adds to the logs what its work on the store adds. -/
theorem callIntrinsic_logs (intrinsic : Intrinsic) (m : Machine) :
    logs (stateAfter (callIntrinsic p intrinsic) m) =
      logs (stateAfter (onStore (p.runIntrinsic intrinsic (m.reg .sp) (m.reg .ra - 8))) m) := by
  have hreturn : Keeps logs (modify fun t => { t with pc := m.reg .ra, npc := m.reg .ra + 4 } : Run PUnit) :=
    .modify fun _ => rfl
  have hput : ∀ value, Keeps logs (put .v0 value) := fun value => (put_notes .v0 value).map Prod.fst
  unfold callIntrinsic
  rw [stateAfter_bind_of_ok (get_apply .ra m), stateAfter_bind_of_ok (get_apply .sp m)]
  cases hrun : onStore (p.runIntrinsic intrinsic (m.reg .sp) (m.reg .ra - 8)) m with
  | error fault u => rw [stateAfter_bind_of_error hrun, stateAfter_of_error hrun]
  | ok answer u =>
    rw [stateAfter_bind_of_ok hrun, stateAfter_of_ok hrun]
    cases answer with
    | none => exact hreturn u
    | some value => exact Keeps.bind (hput value) (fun _ => hreturn) u

/-- An intrinsic releases for one of the calls that are owed, if it releases at all. -/
theorem callIntrinsic_settles {intrinsic : Intrinsic} (hm : Owes calls released ran late m)
    (hat : Intrinsic.atAddress? m.pc = some intrinsic) :
    ∃ ran' late', (stateAfter (callIntrinsic p intrinsic) m).trace.toList = ran' ++ late' ∧
      ReleasedBy calls released (stateAfter (callIntrinsic p intrinsic) m).store.released ran' := by
  obtain ⟨hreleased, htrace⟩ := Prod.mk.inj (callIntrinsic_logs (p := p) intrinsic m)
  rw [onStore_state] at hreleased htrace
  rw [hreleased, htrace]
  rcases p.released_runIntrinsic intrinsic (m.reg .sp) (m.reg .ra - 8) m.store with
    hsame | ⟨rfl, w, -, hpushed⟩
  · refine ⟨ran, late, hm.trace, ?_⟩
    rw [hsame]
    exact hm.settled
  · obtain ⟨entry, hentry, hcall⟩ := hm.now hat
    refine ⟨ran ++ late, [], ?_, ?_⟩
    · rw [List.append_nil]
      exact hm.trace
    · rw [hpushed]
      exact hm.settled.push hentry hcall w

/-- One cycle keeps account of what is owed. -/
theorem cycle_owes (hwf : p.WellFormed) (hcalls : CallsRelease p calls) (hm : Owes calls released ran late m)
    (hunforged : ¬ForgesRelease p m) :
    (∀ t, cycle p m = .ok () t → ∃ ran' late', Owes calls released ran' late' t) ∧
      ∀ fault t, cycle p m = .error fault t → ReleasedBy calls released t.store.released t.trace.toList := by
  rcases cycle_cases hwf.fits m with ⟨intrinsic, hat, hcycle⟩ | ⟨hnone, hcycle | hran⟩
  · rw [hcycle]
    obtain ⟨ran', late', htrace, hsettled⟩ := callIntrinsic_settles hm hat
    constructor
    · intro t ht
      rw [stateAfter_of_ok ht] at htrace hsettled
      obtain ⟨-, -, hpc, hnpc⟩ := callIntrinsic_ok ht
      refine ⟨ran', late', .settle htrace hsettled ?_ (by rw [hnpc, hpc])⟩
      rw [hpc]
      intro hback
      exact hunforged (.inr ⟨by rw [hat]; exact Option.some_ne_none _, hback⟩)
    · intro fault t ht
      rw [stateAfter_of_error ht] at htrace hsettled
      rw [htrace]
      exact hsettled.later late'
  · constructor
    · intro t ht
      rw [hcycle] at ht
      cases ht
    · intro fault' t ht
      rw [hcycle] at ht
      cases ht
      exact hm.releasedBy
  · obtain ⟨k, instr, hpc, hinstr, hcycle⟩ := hran
    let entry : TraceEntry := { index := k, sp := m.reg .sp, fp := m.reg .fp }
    have htrace : (m.fetched k).trace.toList = ran ++ (late ++ [entry]) := by
      rw [← List.append_assoc, ← hm.trace]
      exact Array.toList_push
    have hnotes := execute_notes p instr (m.fetched k)
    rw [hcycle]
    cases hrun : execute p instr (m.fetched k) with
    | error fault t =>
      rw [bind_of_error hrun]
      rw [stateAfter_of_error hrun] at hnotes
      obtain ⟨hreleased, hnoted⟩ := Prod.mk.inj (Prod.mk.inj hnotes).1
      refine ⟨fun _ ht => (nomatch ht), fun fault' t' ht => ?_⟩
      cases ht
      rw [hreleased, hnoted, htrace, ← List.append_assoc]
      exact (hm.settled.later late).later [entry]
    | ok next t =>
      rw [bind_of_ok hrun]
      rw [stateAfter_of_ok hrun] at hnotes
      obtain ⟨hlogs, hnpc⟩ := Prod.mk.inj hnotes
      obtain ⟨hreleased, hnoted⟩ := Prod.mk.inj hlogs
      refine ⟨fun t' ht => ?_, fun _ _ ht => (nomatch ht)⟩
      obtain rfl := (EStateM.Result.ok.inj ht).2
      have htraced : (t.advance next).trace.toList = ran ++ (late ++ [entry]) := by
        rw [← htrace, ← hnoted]
        rfl
      have hsettled : ReleasedBy calls released (t.advance next).store.released ran := by
        rw [advance_store, hreleased]
        exact hm.settled
      refine ⟨ran, late ++ [entry], htraced, hsettled, ?_, ?_⟩
      · rw [advance_pc, hnpc]
        intro hat
        obtain ⟨e, he, hcall⟩ := hm.next hnone hat
        exact ⟨e, List.mem_append_left _ he, hcall⟩
      · rw [advance_pc, hnpc]
        intro hnone' hat
        cases next with
        | none =>
          rw [advance_npc_none, hnpc] at hat
          exact absurd hnone' (atAddress?_of_release_add hat)
        | some a =>
          have hcall := calls_of_execute hwf hcalls hpc hinstr hunforged hrun hat
          exact ⟨entry, List.mem_append_right _ List.mem_cons_self, hcall⟩

/-! ## Invocations -/

theorem run_releases (hwf : p.WellFormed) (hcalls : CallsRelease p calls) (fuel : Nat)
    (hm : Owes calls released ran late m) (hunforged : ∀ n t, n < fuel → Cycles (cycle p) n m t → ¬ForgesRelease p t) :
    ReleasedBy calls released (stateAfter (run p fuel) m).store.released
      (stateAfter (run p fuel) m).trace.toList := by
  induction fuel generalizing m ran late with
  | zero =>
    have hdone : stateAfter (run p 0) m = m := by
      by_cases hpc : m.pc = returnSentinel
      · simp [stateAfter, run, hpc]
      · simp [stateAfter, run, hpc]
    rw [hdone]
    exact hm.releasedBy
  | succ fuel ih =>
    by_cases hpc : m.pc = returnSentinel
    · have hdone : stateAfter (run p (fuel + 1)) m = m := by simp [stateAfter, run, hpc]
      rw [hdone]
      exact hm.releasedBy
    obtain ⟨hok, herror⟩ := cycle_owes hwf hcalls hm (hunforged 0 m (Nat.succ_pos _) .zero)
    cases hnext : cycle p m with
    | ok _ t =>
      have hrun : stateAfter (run p (fuel + 1)) m = stateAfter (run p fuel) t := by
        simp [stateAfter, run, hpc, hnext]
      obtain ⟨ran', late', ht⟩ := hok t hnext
      rw [hrun]
      exact ih ht fun n u hn hcycles => hunforged (n + 1) u (Nat.succ_lt_succ hn) (.succ hnext hcycles)
    | error fault t =>
      have hrun : stateAfter (run p (fuel + 1)) m = t := by simp [stateAfter, run, hpc, hnext]
      rw [hrun]
      exact herror fault t hnext

/-- A run that has taken all its steps is where they have led. -/
theorem stateAfter_run_of_cycles (hfits : p.code.size ≤ codeLimit) {n : Nat} {t : Machine}
    (h : Cycles (cycle p) n m t) : stateAfter (run p n) m = t := by
  induction h with
  | @zero m =>
    by_cases hpc : m.pc = returnSentinel
    · simp [stateAfter, run, hpc]
    · simp [stateAfter, run, hpc]
  | @succ n m t _ hcycle _ ih =>
    have hpc := pc_of_cycle hfits hcycle
    rw [← ih]
    simp [stateAfter, run, hpc, hcycle]

/-- The run of an invocation begins with nothing released and nothing noted. -/
theorem prepare_logs (p : Program Instr) (entry : Symbol) (args : List StackValue) (returnBytes : UInt32)
    (m : Machine) : logs (stateAfter (prepare p entry args returnBytes) m) = (m.store.released, #[]) := by
  let f : Machine → Machine := fun m => { m with trace := #[], regs := Vector.replicate 32 0 }
  have hput : ∀ r value, Keeps logs (put r value) := fun r value => (put_notes r value).map Prod.fst
  have hpush : ∀ value, Keeps logs (push value) := fun value => (push_notes value).map Prod.fst
  have hlift : ∀ {α : Type} (answer : Except Fault α), Keeps logs (lift answer) := fun answer =>
    (lift_notes answer).map Prod.fst
  have hrest : Keeps logs (do
      put .sp stackTop
      (argumentWords args).forM push
      put .sp ((← get .sp) - returnBytes)
      put .ra returnSentinel
      let start ← lift (p.resolve entry)
      modify fun m => { m with pc := start, npc := start + 4 } : Run Unit) :=
    .bind (hput _ _) fun _ => .bind (.forM hpush _) fun _ => .bind (fun _ => rfl) fun _ =>
      .bind (hput _ _) fun _ => .bind (hput _ _) fun _ => .bind (hlift _) fun _ => .modify fun _ => rfl
  exact hrest (f m)

theorem prepare_ok {entry : Symbol} {args : List StackValue} {returnBytes : UInt32} {t : Machine}
    (h : prepare p entry args returnBytes m = .ok () t) : p.resolve entry = .ok t.pc ∧ t.npc = t.pc + 4 := by
  unfold prepare at h
  obtain ⟨_, _, -, h⟩ := bind_eq_ok.mp h
  obtain ⟨_, _, -, h⟩ := bind_eq_ok.mp h
  obtain ⟨_, _, -, h⟩ := bind_eq_ok.mp h
  obtain ⟨_, _, -, h⟩ := bind_eq_ok.mp h
  obtain ⟨_, _, -, h⟩ := bind_eq_ok.mp h
  obtain ⟨_, _, -, h⟩ := bind_eq_ok.mp h
  obtain ⟨start, u, hstart, h⟩ := bind_eq_ok.mp h
  obtain ⟨hresolve, rfl⟩ := lift_ok.mp hstart
  obtain ⟨-, rfl⟩ := EStateM.Result.ok.inj h
  exact ⟨hresolve, rfl⟩

theorem collect_logs (args : List StackValue) (returnBytes : UInt32) : Keeps logs (collect args returnBytes) := by
  refine .bind (fun _ => rfl) fun sp => ?_
  have hread : Keeps logs ((List.range (returnBytes / 4).toNat).mapM fun k =>
      onStore (Store.readWord (sp + 4 * UInt32.ofNat k))) :=
    .mapM (fun k => (onStore_notes (Store.read_releases _ _)).map Prod.fst) _
  exact .ite (.bind (.throw _) fun _ => hread) hread

/-- What an invocation has released when its steps are used up. -/
theorem released_of_cycles (hfits : p.code.size ≤ codeLimit) {entry : Symbol} {args : List StackValue}
    {returnBytes : UInt32} {t t' : Machine} (hprepare : prepare p entry args returnBytes m = .ok () t)
    (hcycles : Cycles (cycle p) p.stepLimit t t') :
    (stateAfter (invoke p entry args returnBytes) m).store.released = t'.store.released := by
  have hran := stateAfter_run_of_cycles hfits hcycles
  rw [invoke_eq, stateAfter_bind_of_ok hprepare]
  cases hrun : run p p.stepLimit t with
  | error fault u =>
    rw [stateAfter_of_error hrun] at hran
    rw [stateAfter_bind_of_error hrun, hran]
  | ok _ u =>
    rw [stateAfter_of_ok hrun] at hran
    rw [stateAfter_bind_of_ok hrun, ← hran]
    exact (Prod.mk.inj (collect_logs args returnBytes u)).1

/-- What an invocation releases goes back to calls of the symbol, one for each. -/
theorem invoke_releases (hwf : p.WellFormed) (hcalls : CallsRelease p calls) {entry : Symbol}
    (hentry : ∀ a, p.resolve entry = .ok a → Intrinsic.atAddress? a ≠ some .release)
    (args : List StackValue) (returnBytes : UInt32)
    (hunforged : ∀ t, PassesThrough p entry args returnBytes m t → ¬ForgesRelease p t) :
    ReleasedBy calls m.store.released (stateAfter (invoke p entry args returnBytes) m).store.released
      (stateAfter (invoke p entry args returnBytes) m).trace.toList := by
  have hprepared := prepare_logs p entry args returnBytes m
  rw [invoke_eq]
  cases hprepare : prepare p entry args returnBytes m with
  | error fault t =>
    rw [stateAfter_of_error hprepare] at hprepared
    obtain ⟨hreleased, htrace⟩ := Prod.mk.inj hprepared
    rw [stateAfter_bind_of_error hprepare, hreleased]
    exact .none _
  | ok _ t =>
    rw [stateAfter_of_ok hprepare] at hprepared
    obtain ⟨hreleased, htrace⟩ := Prod.mk.inj hprepared
    obtain ⟨hresolve, hnpc⟩ := prepare_ok hprepare
    have hstart : Owes calls m.store.released [] [] t := by
      apply Owes.settle
      · rw [htrace]
        rfl
      · rw [hreleased]
        exact .none _
      · exact hentry _ hresolve
      · exact hnpc
    have hran := run_releases hwf hcalls p.stepLimit hstart fun n u hn hcycles =>
      hunforged u ⟨t, n, hprepare, hn, hcycles⟩
    rw [stateAfter_bind_of_ok hprepare]
    cases hrun : run p p.stepLimit t with
    | error fault u =>
      rw [stateAfter_of_error hrun] at hran
      rwa [stateAfter_bind_of_error hrun]
    | ok _ u =>
      rw [stateAfter_of_ok hrun] at hran
      obtain ⟨hreleased', htrace'⟩ := Prod.mk.inj (collect_logs args returnBytes u)
      rw [stateAfter_bind_of_ok hrun, hreleased', htrace']
      exact hran

/-! ## The template of a pop -/

section Pop

variable {k : Nat} {w fp : UInt32} {words : List UInt32}

theorem not_forges (hfits : p.code.size ≤ codeLimit) {instr : Instr} (hpc : m.pc = codeAddress k)
    (hinstr : p.code[k]? = some instr) (hplain : instr.jumpsByRegister = false) : ¬ForgesRelease p m := by
  have hk : k < p.code.size := (Array.getElem?_eq_some_iff.mp hinstr).1
  rintro (⟨j, r, hj, hjump, -⟩ | ⟨hat, -⟩)
  · have hlt : j < p.code.size := by
      rcases hjump with h | h <;> exact (Array.getElem?_eq_some_iff.mp h).1
    obtain rfl : k = j := (codeAddress_inj (by omega) (by omega)).mp (hpc.symm.trans hj)
    rcases hjump with h | h <;> (obtain rfl := Option.some.inj (hinstr.symm.trans h); cases hplain)
  · rw [hpc] at hat
    exact hat (atAddress?_codeAddress (by omega))

/-- The template of a pop releases the word that it drops, whatever it is, and forges nothing. -/
theorem pop_releases (hwf : p.WellFormed) {e : Effect} (hnew : (e.operand 0).isNew = true)
    (hplaced : Placed p k (Mips.pop e)) (hm : Poised Instr m k (w :: words) fp) :
    Avoids (cycle p) (ForgesRelease p) (fun t => ¬ForgesRelease p t ∧ t.reg .fp = fp ∧ t.store = m.store ∧
      ∃ t', cycle p t = .ok () t' ∧ t'.store = { t.store with released := t.store.released.push w }) m := by
  obtain ⟨hpc, hnpc, -, hsp, hfp, hholds⟩ := poised_iff.mp hm
  have hcode : ∀ j < 2, (Instr.callSymbol Intrinsic.release.symbol)[j]? = (Mips.pop e)[j]? := by
    intro j hj
    rw [Mips.pop, if_pos hnew, List.getElem?_append_left hj]
  have hrests : Rests m k m.reg m.store := ⟨hpc, hnpc, fun _ => rfl, rfl⟩
  have hcall := hplaced.fetch 0 _ ((hcode 0 (by decide)).symm.trans rfl)
  have hnop := hplaced.fetch 1 _ ((hcode 1 (by decide)).symm.trans rfl)
  have hnext : k + 1 < p.code.size := (Array.getElem?_eq_some_iff.mp hnop).1
  have hfits := hwf.fits
  obtain ⟨address, hresolve, hat⟩ := hwf.intrinsics .release
  obtain ⟨t₁, hfirst, h₁⟩ := hrests.call hfits hcall hresolve
  obtain ⟨t, hsecond, h⟩ := h₁.nop hfits hnop
  have hunforged : ¬ForgesRelease p t := by
    rintro (⟨j, r, hj, hjump, -⟩ | ⟨-, hback⟩)
    · have hlt : j < p.code.size := by
        rcases hjump with h | h <;> exact (Array.getElem?_eq_some_iff.mp h).1
      rw [← h.pc, hj] at hat
      cases (atAddress?_codeAddress (by omega)).symm.trans hat
    · rw [h.reg, Function.update_self] at hback
      exact atAddress?_codeAddress_ne (by omega) (by decide) hback
  have hread : t.store.memory.read (t.reg .sp) 4 = .ok w := by
    rw [h.reg, h.store, Function.update_of_ne (by decide), hsp, stackPointer_cons]
    exact hholds.read_top
  have hrelease := cycle_intrinsic_of_ok (by rw [h.pc]; exact hat) (p.runIntrinsic_release hread)
  have hframe : t.reg .fp = fp := by rw [h.reg, Function.update_of_ne (by decide), hfp]
  exact .step (not_forges hfits hpc hcall rfl) hfirst
    (.step (not_forges hfits h₁.pc hnop rfl) hsecond
      (.here ⟨hunforged, hframe, h.store, _, hrelease, rfl⟩))

end Pop

end Machine

end Stencil.Mips
