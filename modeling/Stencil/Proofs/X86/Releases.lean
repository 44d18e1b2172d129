import Stencil.Proofs.Machine.Released
import Stencil.Proofs.X86.Invocation

/-!
# Releases of the x86 machine

Of all instructions only calls release anything. A call reaches the intrinsic by its symbol or through a
register; where no call does the latter, the releases of a run go back to calls of the symbol among the
instructions that it ran (`invoke_releases`).
-/

namespace Stencil.X86

def Instr.jumps : Instr → Bool
  | .jmp _ | .jcc _ _ | .call _ | .ret => true
  | _ => false

namespace Machine

open AddressMap Invocation Stateful

/-- What runs only add to: the released objects and the trace. -/
def logs (m : Machine) : Array UInt32 × Array TraceEntry := (m.store.released, m.trace)

def notes (m : Machine) : (Array UInt32 × Array TraceEntry) × UInt32 := (m.logs, m.pc)

/-! ## Registers, memory and operands -/

theorem get_notes (r : Reg) : Keeps notes (get r) := fun _ => rfl

theorem put_notes (r : Reg) (value : UInt32) : Keeps notes (put r value) := fun _ => rfl

theorem setFlags_notes (f : Flags → Flags) : Keeps notes (setFlags f) := fun _ => rfl

theorem goto_logs (pc : UInt32) : Keeps logs (goto pc) := fun _ => rfl

theorem lift_ok {α : Type} {answer : Except Fault α} {a : α} {m t : Machine} (h : lift answer m = .ok a t) :
    answer = .ok a := by
  cases answer with
  | ok b =>
    obtain ⟨rfl, -⟩ := EStateM.Result.ok.inj h
    rfl
  | error fault => cases h

theorem lift_state {α : Type} (answer : Except Fault α) (m : Machine) : stateAfter (lift answer) m = m := by
  cases answer <;> rfl

theorem lift_notes {α : Type} (answer : Except Fault α) : Keeps notes (lift answer) := fun m => by
  rw [lift_state]

theorem onStore_state {α : Type} (action : StoreM α) (m : Machine) :
    stateAfter (onStore action) m = { m with store := stateAfter action m.store } := by
  unfold stateAfter onStore
  dsimp only
  cases action m.store <;> rfl

theorem onStore_notes {α : Type} {action : StoreM α} (h : ReleasesNothing action) : Keeps notes (onStore action) := by
  intro m
  rw [onStore_state, notes, logs, h m.store]
  rfl

theorem push_notes (value : UInt32) : Keeps notes (push value) :=
  .bind (get_notes _) fun _ => .bind (onStore_notes (Store.write_releases _ _ _)) fun _ => put_notes _ _

theorem pop_notes : Keeps notes pop :=
  .bind (get_notes _) fun _ => .bind (onStore_notes (Store.read_releases _ _)) fun _ =>
    .bind (put_notes _ _) fun _ => .pure _

variable (p : Program Instr)

theorem address_notes (mem : Mem) : Keeps notes (address p mem) := by
  obtain ⟨base, symbol, disp⟩ := mem
  cases base with
  | none =>
    cases symbol with
    | none => exact .bind (.pure _) fun _ => .bind (.pure _) fun _ => .pure _
    | some s => exact .bind (.pure _) fun _ => .bind (lift_notes _) fun _ => .pure _
  | some r =>
    cases symbol with
    | none => exact .bind (get_notes r) fun _ => .bind (.pure _) fun _ => .pure _
    | some s => exact .bind (get_notes r) fun _ => .bind (lift_notes _) fun _ => .pure _

theorem read_notes (o : Operand) : Keeps notes (read p o) := by
  cases o with
  | reg r => exact get_notes r
  | part r width => exact .bind (get_notes r) fun _ => .pure _
  | imm value => exact .pure _
  | mem width m => exact .bind (address_notes p m) fun _ => onStore_notes (Store.read_releases _ _)
  | addr symbol => exact lift_notes _

theorem write_notes (value : UInt32) (o : Operand) : Keeps notes (write p value o) := by
  cases o with
  | reg r => exact put_notes r value
  | part r width => exact .bind (get_notes r) fun _ => put_notes _ _
  | mem width m => exact .bind (address_notes p m) fun _ => onStore_notes (Store.write_releases _ _ _)
  | imm _ | addr _ => exact fun _ => rfl

theorem targetAddress_state (target : Target) (m : Machine) : stateAfter (targetAddress p target) m = m := by
  cases target with
  | label l => exact lift_state _ m
  | symbol s => exact lift_state _ m
  | reg r => rfl

theorem targetAddress_notes (target : Target) : Keeps notes (targetAddress p target) := fun m => by
  rw [targetAddress_state]

theorem shiftCount_notes (count : ShiftCount) : Keeps notes (shiftCount count) := by
  cases count with
  | cl => exact .bind (get_notes _) fun _ => .pure _
  | imm n => exact .pure _

/-! ## Instructions -/

theorem imul_notes (dst : Reg) (lhs rhs : UInt32) : Keeps notes (imul dst lhs rhs) :=
  .bind (setFlags_notes _) fun _ => put_notes _ _

theorem accumulator_notes : Keeps notes accumulator :=
  .bind (get_notes _) fun _ => .bind (get_notes _) fun _ => .pure _

theorem divide_notes (divisor : UInt32) : Keeps notes (divide divisor) := by
  have hput := fun q r => Keeps.bind (put_notes .eax q) fun _ => put_notes .edx r
  exact .bind accumulator_notes fun _ => .ite (.bind (.throw _) fun _ => hput _ _) (hput _ _)

theorem divideSigned_notes (divisor : UInt32) : Keeps notes (divideSigned divisor) := by
  have hput := fun q r => Keeps.bind (put_notes .eax q) fun _ => put_notes .edx r
  exact .bind accumulator_notes fun _ => .ite (.bind (.throw _) fun _ => hput _ _) (hput _ _)

theorem shift_notes (kind : ShiftKind) (dst : Operand) (count : ShiftCount) : Keeps notes (shift p kind dst count) := by
  refine .bind (shiftCount_notes count) fun _ => .ite ?_ (.pure _)
  exact .bind (read_notes p dst) fun _ => .bind (setFlags_notes _) fun _ => write_notes p _ dst

theorem shiftDouble_notes (left : Bool) (dst : Operand) (src : Reg) (count : ShiftCount) :
    Keeps notes (shiftDouble p left dst src count) := by
  refine .bind (shiftCount_notes count) fun _ => .ite ?_ (.pure _)
  exact .bind (read_notes p dst) fun _ => .bind (get_notes src) fun _ => write_notes p _ dst

/-- Instructions that do not jump release nothing and go on. -/
theorem execute_notes (site : UInt32) {instr : Instr} (hjumps : instr.jumps = false) :
    Keeps notes (execute p site instr) := by
  have hread := read_notes p
  have hwrite := write_notes p
  cases instr with
  | label l => exact .pure _
  | nop => exact .pure _
  | mov dst src => exact .bind (hread src) fun _ => hwrite _ dst
  | movzx dst src => exact .bind (hread src) fun _ => put_notes _ _
  | movsx dst src => exact .bind (hread src) fun _ => put_notes _ _
  | lea dst src => exact .bind (address_notes p src) fun _ => put_notes _ _
  | push src => exact .bind (hread src) fun _ => push_notes _
  | pop dst => exact .bind pop_notes fun _ => hwrite _ dst
  | alu op dst src =>
    exact .bind (hread dst) fun _ => .bind (hread src) fun _ => .bind .get fun _ =>
      .bind (setFlags_notes _) fun _ => .ite (hwrite _ dst) (.pure _)
  | test dst src => exact .bind (hread dst) fun _ => .bind (hread src) fun _ => setFlags_notes _
  | neg dst => exact .bind (hread dst) fun _ => .bind (setFlags_notes _) fun _ => hwrite _ dst
  | not dst => exact .bind (hread dst) fun _ => hwrite _ dst
  | mul src =>
    exact .bind (get_notes _) fun _ => .bind (hread src) fun _ => .bind (put_notes _ _) fun _ =>
      .bind (put_notes _ _) fun _ => setFlags_notes _
  | imul dst src => exact .bind (get_notes _) fun _ => .bind (hread src) fun _ => imul_notes _ _ _
  | imulImm dst src imm => exact .bind (hread src) fun _ => imul_notes _ _ _
  | div src => exact .bind (hread src) fun _ => divide_notes _
  | idiv src => exact .bind (hread src) fun _ => divideSigned_notes _
  | cdq => exact .bind (get_notes _) fun _ => put_notes _ _
  | shift kind dst count => exact shift_notes p kind dst count
  | shld dst src count => exact shiftDouble_notes p true dst src count
  | shrd dst src count => exact shiftDouble_notes p false dst src count
  | jmp | jcc | call | ret => cases hjumps

/-- Instructions other than calls release nothing. -/
theorem execute_logs (site : UInt32) {instr : Instr} (hcall : ∀ target, instr ≠ .call target) :
    Keeps logs (execute p site instr) := by
  cases instr with
  | jmp target => exact .bind ((targetAddress_notes p target).map Prod.fst) fun _ => goto_logs _
  | jcc cond target =>
    exact .bind .get fun _ => .ite (.bind ((lift_notes _).map Prod.fst) fun _ => goto_logs _) (.pure _)
  | call target => exact absurd rfl (hcall target)
  | ret => exact .bind (pop_notes.map Prod.fst) fun _ => goto_logs _
  | _ => exact (execute_notes p site rfl).map Prod.fst

/-- What is done with the answer of an intrinsic does not matter to the logs. -/
theorem answer_logs {result : Option UInt32 → Run Unit} (hresult : ∀ answer, Keeps logs (result answer))
    (intrinsic : Intrinsic) (site : UInt32) (m : Machine) :
    logs (stateAfter (get .esp >>= fun sp => onStore (p.runIntrinsic intrinsic sp site) >>= result) m) =
      logs (stateAfter (onStore (p.runIntrinsic intrinsic (m.reg .esp) site)) m) := by
  rw [stateAfter_bind_of_ok (get_apply .esp m)]
  cases hrun : onStore (p.runIntrinsic intrinsic (m.reg .esp) site) m with
  | ok answer u => rw [stateAfter_bind_of_ok hrun, hresult answer u, stateAfter_of_ok hrun]
  | error fault u => rw [stateAfter_bind_of_error hrun, stateAfter_of_error hrun]

/-- A call releases nothing unless its target is the intrinsic that does. -/
theorem call_releases (site next : UInt32) (target : Target) (m : Machine) :
    (stateAfter (call p site next target) m).trace = m.trace ∧
      ((stateAfter (call p site next target) m).store.released = m.store.released ∨
        ∃ a w, targetAddress p target m = .ok a m ∧ Intrinsic.atAddress? a = some .release ∧
          (stateAfter (call p site next target) m).store.released = m.store.released.push w) := by
  have hstate := targetAddress_state p target m
  cases htarget : targetAddress p target m with
  | error fault t =>
    rw [stateAfter_of_error htarget] at hstate
    rw [call, stateAfter_bind_of_error htarget, hstate]
    exact ⟨rfl, .inl rfl⟩
  | ok a t =>
    rw [stateAfter_of_ok htarget] at hstate
    subst hstate
    cases hat : Intrinsic.atAddress? a with
    | none =>
      rw [call, stateAfter_bind_of_ok htarget, hat]
      have hkeeps : Keeps logs (push next >>= fun _ => goto a) :=
        .bind ((push_notes _).map Prod.fst) fun _ => goto_logs _
      obtain ⟨hreleased, htrace⟩ := Prod.mk.inj (hkeeps t)
      exact ⟨htrace, .inl hreleased⟩
    | some intrinsic =>
      have hlogs : logs (stateAfter (call p site next target) t) =
          logs (stateAfter (onStore (p.runIntrinsic intrinsic (t.reg .esp) site)) t) := by
        rw [call, stateAfter_bind_of_ok htarget, hat]
        refine answer_logs p (fun answer => ?_) intrinsic site t
        cases answer with
        | none => exact .pure _
        | some value => exact (put_notes .eax value).map Prod.fst
      rw [onStore_state] at hlogs
      obtain ⟨hreleased, htrace⟩ := Prod.mk.inj hlogs
      refine ⟨htrace, ?_⟩
      rcases p.released_runIntrinsic intrinsic (t.reg .esp) site t.store with hsame | ⟨rfl, w, -, hpushed⟩
      · exact .inl (hreleased.trans hsame)
      · exact .inr ⟨a, w, rfl, hat, hreleased.trans hpushed⟩

/-! ## Runs -/

/-- The machine is about to call the intrinsic that releases through a register. -/
def ForgesRelease (m : Machine) : Prop :=
  ∃ k r, m.pc = codeAddress k ∧ p.code[k]? = some (.callReg r) ∧
    Intrinsic.atAddress? (m.reg r) = some .release

/-- Calls of a symbol that leads to the intrinsic are among these instructions. -/
def CallsRelease (calls : Nat → Prop) : Prop :=
  ∀ k s a, p.code[k]? = some (.callSymbol s) → p.resolve s = .ok a →
    Intrinsic.atAddress? a = some .release → calls k

variable {p} {calls : Nat → Prop} {released : Array UInt32} {m : Machine}

theorem cycle_releases (hwf : p.WellFormed) (hcalls : CallsRelease p calls)
    (hm : ReleasedBy calls released m.store.released m.trace.toList) (hunforged : ¬ForgesRelease p m) :
    ReleasedBy calls released (stateAfter (cycle p) m).store.released
      (stateAfter (cycle p) m).trace.toList := by
  rcases cycle_cases hwf.fits m with hstays | ⟨k, instr, hpc, hinstr, hcycle⟩
  · rwa [stateAfter_of_error hstays]
  let entry : TraceEntry := { index := k, sp := m.reg .esp, fp := m.reg .ebp }
  have hstate : stateAfter (cycle p) m = stateAfter (execute p (codeAddress k) instr) (m.fetched k) := by
    rw [stateAfter, stateAfter, hcycle]
  have htrace : (m.fetched k).trace.toList = m.trace.toList ++ [entry] := Array.toList_push
  rw [hstate]
  by_cases hcall : ∃ target, instr = .call target
  · obtain ⟨target, rfl⟩ := hcall
    obtain ⟨hran, hsame | ⟨a, w, htarget, hat, hpushed⟩⟩ := call_releases p (codeAddress k) (codeAddress k + 4) target (m.fetched k)
    · rw [execute, hran, hsame, htrace]
      exact hm.later [entry]
    · rw [execute, hran, hpushed, htrace]
      refine hm.push List.mem_cons_self ?_ w
      cases target with
      | label l =>
        obtain ⟨j, -, hj, rfl⟩ := hwf.labelAddress_ok (lift_ok htarget)
        have hfits := hwf.fits
        exact absurd hat (atAddress?_codeAddress_ne (by omega) (by decide))
      | symbol s =>
        exact hcalls k s a hinstr (lift_ok htarget) hat
      | reg r =>
        cases htarget
        exact absurd ⟨k, r, hpc, hinstr, hat⟩ hunforged
  · push Not at hcall
    obtain ⟨hreleased, hran⟩ := Prod.mk.inj (execute_logs p (codeAddress k) hcall (m.fetched k))
    rw [hreleased, hran, htrace]
    exact hm.later [entry]

theorem run_releases (hwf : p.WellFormed) (hcalls : CallsRelease p calls) (fuel : Nat)
    (hm : ReleasedBy calls released m.store.released m.trace.toList)
    (hunforged : ∀ n t, n < fuel → Cycles (cycle p) n m t → ¬ForgesRelease p t) :
    ReleasedBy calls released (stateAfter (run p fuel) m).store.released
      (stateAfter (run p fuel) m).trace.toList := by
  induction fuel generalizing m with
  | zero =>
    have hdone : stateAfter (run p 0) m = m := by
      by_cases hpc : m.pc = returnSentinel
      · simp [stateAfter, run, hpc]
      · simp [stateAfter, run, hpc]
    rwa [hdone]
  | succ fuel ih =>
    by_cases hpc : m.pc = returnSentinel
    · have hdone : stateAfter (run p (fuel + 1)) m = m := by simp [stateAfter, run, hpc]
      rwa [hdone]
    have hcycle := cycle_releases hwf hcalls hm (hunforged 0 m (Nat.succ_pos _) .zero)
    cases hnext : cycle p m with
    | ok _ t =>
      have hrun : stateAfter (run p (fuel + 1)) m = stateAfter (run p fuel) t := by
        simp [stateAfter, run, hpc, hnext]
      rw [stateAfter_of_ok hnext] at hcycle
      rw [hrun]
      exact ih hcycle fun n u hn hcycles => hunforged (n + 1) u (Nat.succ_lt_succ hn) (.succ hnext hcycles)
    | error fault t =>
      have hrun : stateAfter (run p (fuel + 1)) m = t := by simp [stateAfter, run, hpc, hnext]
      rw [stateAfter_of_error hnext] at hcycle
      rwa [hrun]

/-- The run of an invocation begins with nothing released and nothing noted. -/
theorem prepare_logs (p : Program Instr) (entry : Symbol) (args : List StackValue) (returnBytes : UInt32)
    (m : Machine) : logs (stateAfter (prepare p entry args returnBytes) m) = (m.store.released, #[]) := by
  let f : Machine → Machine := fun m => { m with trace := #[], regs := Vector.replicate 8 0, flags := {} }
  have hrest : Keeps logs (do
      put .esp stackTop
      (Invocation.argumentWords args).forM push
      put .esp ((← get .esp) - returnBytes)
      push returnSentinel
      goto (← lift (p.resolve entry)) : Run Unit) :=
    .bind ((put_notes _ _).map Prod.fst) fun _ => .bind (.forM (fun w => (push_notes w).map Prod.fst) _) fun _ =>
      .bind ((get_notes _).map Prod.fst) fun _ => .bind ((put_notes _ _).map Prod.fst) fun _ =>
      .bind ((push_notes _).map Prod.fst) fun _ => .bind ((lift_notes _).map Prod.fst) fun _ => goto_logs _
  exact hrest (f m)

theorem collect_logs (args : List StackValue) (returnBytes : UInt32) :
    Keeps logs (collect args returnBytes) := by
  refine (?_ : Keeps notes (collect args returnBytes)).map Prod.fst
  refine .bind (get_notes _) fun sp => ?_
  have hread : Keeps notes ((List.range (returnBytes / 4).toNat).mapM fun k =>
      onStore (Store.readWord (sp + 4 * UInt32.ofNat k))) :=
    .mapM (fun k => onStore_notes (Store.read_releases _ _)) _
  exact .ite (.bind (.throw _) fun _ => hread) hread

/-- What an invocation releases goes back to calls of the symbol, one for each. -/
theorem invoke_releases (hwf : p.WellFormed) (hcalls : CallsRelease p calls) (entry : Symbol)
    (args : List StackValue) (returnBytes : UInt32)
    (hunforged : ∀ t, PassesThrough p entry args returnBytes m t → ¬ForgesRelease p t) :
    ReleasedBy calls m.store.released (stateAfter (invoke p entry args returnBytes) m).store.released
      (stateAfter (invoke p entry args returnBytes) m).trace.toList := by
  have hprepared := prepare_logs p entry args returnBytes m
  rw [invoke_eq]
  cases hprepare : prepare p entry args returnBytes m with
  | error fault t =>
    rw [stateAfter_of_error hprepare] at hprepared
    obtain ⟨hreleased, htrace⟩ := Prod.mk.inj hprepared
    rw [stateAfter_bind_of_error hprepare, hreleased]
    exact .none _
  | ok _ t =>
    rw [stateAfter_of_ok hprepare] at hprepared
    obtain ⟨hreleased, htrace⟩ := Prod.mk.inj hprepared
    have hstart : ReleasedBy calls m.store.released t.store.released t.trace.toList := by
      rw [hreleased]
      exact .none _
    have hran := run_releases hwf hcalls p.stepLimit hstart fun n u hn hcycles =>
      hunforged u ⟨t, n, hprepare, hn, hcycles⟩
    rw [stateAfter_bind_of_ok hprepare]
    cases hrun : run p p.stepLimit t with
    | error fault u =>
      rw [stateAfter_of_error hrun] at hran
      rwa [stateAfter_bind_of_error hrun]
    | ok _ u =>
      rw [stateAfter_of_ok hrun] at hran
      obtain ⟨hreleased', htrace'⟩ := Prod.mk.inj (collect_logs args returnBytes u)
      rw [stateAfter_bind_of_ok hrun, hreleased', htrace']
      exact hran

/-! ## The template of a pop -/

section Pop

variable {k : Nat} {w fp : UInt32} {words : List UInt32}

/-- The template of a pop releases the word that it drops, whatever it is. -/
theorem pop_releases (hwf : p.WellFormed) {e : Effect} (hnew : (e.operand 0).isNew = true)
    (hplaced : Placed p k (X86.pop e)) (hm : Poised Instr m k (w :: words) fp) :
    Reaches (cycle p) m fun t => t.reg .ebp = fp ∧ t.store.memory.Holds (w :: words) ∧
      ∃ t', cycle p t = .ok () t' ∧ t'.store = { t.store with released := t.store.released.push w } := by
  obtain ⟨hpc, hesp, hebp, hholds⟩ := poised_iff.mp hm
  have hcall : p.code[k]? = some (.callSymbol Intrinsic.release.symbol) := by
    refine hplaced.fetch 0 _ ?_
    rw [X86.pop, if_pos hnew]
    rfl
  have hread : m.store.memory.read (m.reg .esp) 4 = .ok w := by
    rw [hesp, stackPointer_cons]
    exact hholds.read_top
  refine .here ⟨hebp, hholds, { m.fetched k with
    store := { m.store with released := m.store.released.push w } }, ?_, rfl⟩
  have hrun : onStore (p.runIntrinsic .release (m.reg .esp) (codeAddress k)) (m.fetched k) =
      .ok none { m.fetched k with store := { m.store with released := m.store.released.push w } } :=
    onStore_of_ok (p.runIntrinsic_release hread)
  rw [cycle_callSymbol hwf hpc hcall, bind_of_ok hrun]
  rfl

end Pop

end Machine

end Stencil.X86
