import Stencil.Frame
import Stencil.Proofs.Stateful
import Stencil.Walk

/-!
# Errors name their instruction

Every error that decoding, look-ups, the simulation or the walk raise at an instruction carries its
opcode and its position (`Walk.step_fails`), and an error of a frame those of the method start.
-/

namespace Stencil

open Stateful

/-- Only errors of this kind are answered. -/
def Errs {α : Type} (P : CompileError → Prop) (x : Except CompileError α) : Prop :=
  ∀ e, x = .error e → P e

/-- Only errors of this kind are raised. -/
def Fails {σ α : Type} (P : CompileError → Prop) (x : EStateM CompileError σ α) : Prop :=
  ∀ s e s', x s = .error e s' → P e

/-- The error names the opcode and the position of `i`. -/
def ErrorAt (i : Instruction) (e : CompileError) : Prop :=
  e.op? = some i.op ∧ e.position? = some i.position

namespace Errs

variable {α β : Type} {P : CompileError → Prop}

theorem ok (a : α) : Errs P (.ok a) := by
  intro e h
  cases h

theorem of_ok {x : Except CompileError α} {a : α} (h : x = .ok a) : Errs P x := h ▸ .ok a

theorem error {e : CompileError} (h : P e) : Errs P (.error e : Except CompileError α) := by
  intro e' h'
  obtain rfl := Except.error.inj h'
  exact h

theorem bind {x : Except CompileError α} {f : α → Except CompileError β} (hx : Errs P x)
    (hf : ∀ a, x = .ok a → Errs P (f a)) : Errs P (x >>= f) := by
  intro e h
  cases hanswer : x with
  | error e' =>
    rw [hanswer] at h
    obtain rfl := Except.error.inj h
    exact hx _ hanswer
  | ok a =>
    rw [hanswer] at h
    exact hf a hanswer e h

theorem map {x : Except CompileError α} (hx : Errs P x) (f : α → β) : Errs P (x.map f) := by
  intro e h
  cases hanswer : x with
  | error e' =>
    rw [hanswer] at h
    obtain rfl := Except.error.inj h
    exact hx _ hanswer
  | ok a =>
    rw [hanswer] at h
    cases h

theorem mapM {f : α → Except CompileError β} (hf : ∀ a, Errs P (f a)) (as : List α) :
    Errs P (as.mapM f) := by
  induction as with
  | nil => exact .ok _
  | cons a as ih =>
    rw [List.mapM_cons]
    exact .bind (hf a) fun _ _ => .bind ih fun _ _ => .ok _

theorem option_mapM {f : α → Except CompileError β} (hf : ∀ a, Errs P (f a)) (a : Option α) :
    Errs P (a.mapM f) := by
  cases a with
  | none => exact .ok _
  | some a => exact .bind (hf a) fun _ _ => .ok _

theorem ite {p : Prop} [Decidable p] {x y : Except CompileError α} (hx : Errs P x)
    (hy : Errs P y) : Errs P (if p then x else y) := by
  split
  · exact hx
  · exact hy

theorem require {i : Instruction} (kind : DescriptorKind) (a : Option α) :
    Errs (ErrorAt i) (Table.require i kind a) := by
  cases a with
  | none => exact .error ⟨rfl, rfl⟩
  | some a => exact .ok a

end Errs

/-! ## Operands -/

namespace Instruction

variable (i : Instruction)

theorem operandBytes_errs (start width : Nat) : Errs (ErrorAt i) (i.operandBytes start width) :=
  .ite (.ok _) (.error ⟨rfl, rfl⟩)

theorem operandNat_errs (width : Nat) : Errs (ErrorAt i) (i.operandNat width) :=
  (i.operandBytes_errs 0 width).map _

theorem operandInt_errs (width : Nat) : Errs (ErrorAt i) (i.operandInt width) :=
  (i.operandBytes_errs 0 width).map _

theorem index_errs : Errs (ErrorAt i) i.index := by
  unfold index
  split
  · exact .ok _
  · split
    · exact i.operandNat_errs 1
    · exact i.operandNat_errs 2
    · exact .error ⟨rfl, rfl⟩

theorem constant_errs : Errs (ErrorAt i) i.constant := by
  unfold constant
  split
  · exact .ok _
  · split
    · exact (i.operandInt_errs 1).map _
    · exact (i.operandInt_errs 4).map _
    · exact .error ⟨rfl, rfl⟩

theorem longConstant_errs : Errs (ErrorAt i) i.longConstant := (i.operandInt_errs 8).map _

theorem branchTarget_errs : Errs (ErrorAt i) i.branchTarget := by
  unfold branchTarget
  split
  · exact (i.operandInt_errs 1).map _
  · exact (i.operandInt_errs 4).map _
  · exact .error ⟨rfl, rfl⟩

theorem switchTargets_errs : Errs (ErrorAt i) i.switchTargets := by
  refine .bind (i.operandNat_errs 4) fun count _ => ?_
  refine .ite (.error ⟨rfl, rfl⟩) (.mapM (fun k => ?_) _)
  exact ((i.operandBytes_errs _ 4).map _).map _

theorem targets_errs : Errs (ErrorAt i) i.targets := by
  unfold targets
  split
  · exact i.branchTarget_errs.map _
  · exact i.branchTarget_errs.map _
  · exact i.switchTargets_errs
  · exact .ok _

end Instruction

/-! ## Frames -/

theorem Frame.ofMethod_errs (tables : Table) (pointerSize : Nat) (m : MethodDescriptor) :
    Errs (ErrorAt (.pseudo 0 .methodStart)) (Frame.ofMethod tables pointerSize m) := by
  have hitem : ∀ id, Errs (ErrorAt (.pseudo 0 .methodStart)) (signatureItem tables pointerSize id) :=
    fun id => (Errs.require .type (tables.type? id)).map _
  have hreceiver : Errs (ErrorAt (.pseudo 0 .methodStart)) (receiver tables pointerSize m) :=
    .ite (.ok _) ((Errs.require .type (tables.type? m.declaringType)).map _)
  exact .bind hreceiver fun _ _ => .bind (.mapM hitem _) fun _ _ => .bind (.option_mapM hitem _)
    fun _ _ => .bind (.mapM hitem _) fun _ _ => .ok _

namespace Fails

variable {σ α β : Type} {P : CompileError → Prop}

theorem pure (a : α) : Fails P (pure a : EStateM CompileError σ α) := by
  intro s e s' h
  cases h

theorem throw {e : CompileError} (h : P e) : Fails P (throw e : EStateM CompileError σ α) := by
  intro s e' s' h'
  rw [throw_apply] at h'
  injection h' with he
  exact he ▸ h

theorem bind {x : EStateM CompileError σ α} {f : α → EStateM CompileError σ β} (hx : Fails P x)
    (hf : ∀ a, Fails P (f a)) : Fails P (x >>= f) := by
  intro s e s' h
  rcases bind_eq_error.mp h with h | ⟨a, t, -, h⟩
  · exact hx s e s' h
  · exact hf a t e s' h

theorem discard {x : EStateM CompileError σ α} (hx : Fails P x) :
    Fails P (Functor.discard x) := .bind hx fun _ => .pure _

theorem get : Fails P (get : EStateM CompileError σ σ) := by
  intro s e s' h
  cases h

theorem set (t : σ) : Fails P (set t : EStateM CompileError σ PUnit) := by
  intro s e s' h
  cases h

theorem modify (f : σ → σ) : Fails P (modify f : EStateM CompileError σ PUnit) := by
  intro s e s' h
  cases h

theorem ite {p : Prop} [Decidable p] {x y : EStateM CompileError σ α} (hx : Fails P x)
    (hy : Fails P y) : Fails P (if p then x else y) := by
  split
  · exact hx
  · exact hy

theorem guard {p : Prop} [Decidable p] {e : CompileError} {k : Unit → EStateM CompileError σ β}
    (he : P e) (hk : Fails P (k ())) :
    Fails P (if p then MonadExcept.throw e >>= k else k ()) :=
  .ite (.bind (.throw he) fun _ => hk) hk

/-- Something done on a condition only, before the rest `k`. -/
theorem when {p : Prop} [Decidable p] {x : EStateM CompileError σ Unit}
    {k : Unit → EStateM CompileError σ β} (hx : Fails P x) (hk : Fails P (k ())) :
    Fails P (if p then x >>= k else k ()) :=
  .ite (.bind hx fun _ => hk) hk

theorem forM {f : α → EStateM CompileError σ PUnit} (hf : ∀ a, Fails P (f a)) (as : List α) :
    Fails P (as.forM f) := by
  induction as with
  | nil => exact .pure _
  | cons a as ih => exact .bind (hf a) fun _ => ih

end Fails

/-! ## The simulation -/

namespace Sim

variable (env : SimEnv) (i : Instruction)

theorem lift_fails {α : Type} {x : Except CompileError α} (h : Errs (ErrorAt i) x) :
    Fails (ErrorAt i) (lift x) := by
  cases x with
  | ok a => exact .pure a
  | error e => exact .throw (h e rfl)

theorem push_fails (item : StackItem) : Fails (ErrorAt i) (push i item) :=
  .ite (.throw ⟨rfl, rfl⟩) (.modify _)

theorem pop_fails : Fails (ErrorAt i) (pop i) := by
  refine .bind .get fun s => .bind (lift_fails i ?_) fun _ => .bind (.modify _) fun _ =>
    .guard ⟨rfl, rfl⟩ (.bind (.modify _) fun _ => .pure _)
  cases s.stack with
  | nil => exact .error ⟨rfl, rfl⟩
  | cons item rest => exact .ok _

theorem popInt_fails : Fails (ErrorAt i) (popInt i) :=
  .bind (pop_fails i) fun _ => .guard ⟨rfl, rfl⟩ (.pure _)

theorem popPair_fails : Fails (ErrorAt i) (popPair i) :=
  .bind (popInt_fails i) fun _ => .bind (popInt_fails i) fun _ => .guard ⟨rfl, rfl⟩ (.pure _)

theorem popSized_fails (size : Nat) : Fails (ErrorAt i) (popSized i size) :=
  .bind (pop_fails i) fun _ => .ite (.throw ⟨rfl, rfl⟩) (.pure _)

theorem popObject_fails : Fails (ErrorAt i) (popObject env i) := popSized_fails i _

theorem popAll_fails : Fails (ErrorAt i) (popAll i) :=
  .bind .get fun _ => .forM (fun _ => (pop_fails i).discard) _

theorem resolveType_fails : Fails (ErrorAt i) (lift (env.tables.resolveType i)) :=
  lift_fails i (.require _ _)

theorem resolveField_fails : Fails (ErrorAt i) (lift (env.tables.resolveField i)) :=
  lift_fails i (.require _ _)

theorem resolveMethod_fails : Fails (ErrorAt i) (lift (env.tables.resolveMethod i)) :=
  lift_fails i (.require _ _)

theorem typeItem_fails (id : TypeId) : Fails (ErrorAt i) (typeItem env i id) :=
  lift_fails i ((Errs.require .type (env.tables.type? id)).map _)

theorem valueItem_fails (kind : ValueKind) : Fails (ErrorAt i) (valueItem env i kind) := by
  cases kind with
  | typed => exact lift_fails i ((Errs.require .type _).map _)
  | i1 | u1 | i2 | u2 | i4 | u4 | i8 | i | r4 | r8 | ref => exact .pure _

theorem popArguments_fails (params : List TypeId) : Fails (ErrorAt i) (popArguments env i params) :=
  .forM (fun _ => .bind (typeItem_fails env i _) fun _ => popSized_fails i _) _

theorem call_fails (m : MethodDescriptor) (onReceiver : Bool) :
    Fails (ErrorAt i) (call env i m onReceiver) := by
  refine .bind (popArguments_fails env i _) fun _ => ?_
  refine .when (popObject_fails env i) ?_
  cases m.returnType with
  | none => exact .pure _
  | some id => exact .bind (typeItem_fails env i id) fun _ => push_fails i _

theorem argument_fails : Fails (ErrorAt i) (argument env i) := by
  refine .bind (lift_fails i i.index_errs) fun index => ?_
  cases env.frame.args[index]? with
  | none => exact .throw ⟨rfl, rfl⟩
  | some slot => exact .pure slot

theorem localSlot_fails : Fails (ErrorAt i) (localSlot env i) := by
  refine .bind (lift_fails i i.index_errs) fun index => ?_
  cases env.frame.locals[index]? with
  | none => exact .throw ⟨rfl, rfl⟩
  | some slot => exact .pure slot

theorem instanceField_fails : Fails (ErrorAt i) (instanceField env i) :=
  .bind (resolveField_fails env i) fun _ => .guard ⟨rfl, rfl⟩ (typeItem_fails env i _)

theorem staticField_fails : Fails (ErrorAt i) (staticField env i) :=
  .bind (resolveField_fails env i) fun _ => .guard ⟨rfl, rfl⟩ (typeItem_fails env i _)

theorem token_fails : Fails (ErrorAt i) (token env i) :=
  .ite (resolveType_fails env i).discard
    (.ite (resolveField_fails env i).discard (resolveMethod_fails env i).discard)

theorem newObject_fails : Fails (ErrorAt i) (newObject env i) :=
  .bind (resolveMethod_fails env i) fun _ => .bind (lift_fails i (.require _ _)) fun _ =>
    .guard ⟨rfl, rfl⟩ (.ite
      (.bind (popObject_fails env i) fun _ => .bind (popObject_fails env i) fun _ =>
        push_fails i _)
      (.bind (popArguments_fails env i _) fun _ => push_fails i _))

theorem ret_fails : Fails (ErrorAt i) (operate env i .ret) := by
  have hcheck : Fails (ErrorAt i) (do
      let stack := (← get).stack
      if !stack.isEmpty then
        throw (i.stackShape (.leftAtReturn stack.height)) : Sim Unit) :=
    .bind .get fun _ => .ite (.throw ⟨rfl, rfl⟩) (.pure _)
  unfold operate
  cases env.frame.returnItem with
  | none => exact hcheck
  | some item => exact .bind (popSized_fails i _) fun _ => hcheck

theorem operate_fails (op : Operation) : Fails (ErrorAt i) (operate env i op) := by
  have hpush : ∀ item, Fails (ErrorAt i) (push i item) := push_fails i
  have hobject := popObject_fails env i
  have htype := (resolveType_fails env i).discard
  cases op with
  | nop | methodStart | methodEnd => exact .pure _
  | loadArg => exact .bind (argument_fails env i) fun _ => hpush _
  | loadLocal => exact .bind (localSlot_fails env i) fun _ => hpush _
  | loadArgAddress => exact .bind (argument_fails env i).discard fun _ => hpush _
  | loadLocalAddress => exact .bind (localSlot_fails env i).discard fun _ => hpush _
  | storeArg => exact .bind (argument_fails env i) fun _ => popSized_fails i _
  | storeLocal => exact .bind (localSlot_fails env i) fun _ => popSized_fails i _
  | loadConst =>
    exact .ite (.bind (lift_fails i i.longConstant_errs).discard fun _ => hpush _)
      (.bind (lift_fails i i.constant_errs).discard fun _ => hpush _)
  | loadNull => exact hpush _
  | loadString => exact .bind (lift_fails i (.require _ _)).discard fun _ => hpush _
  | loadToken => exact .bind (token_fails env i) fun _ => hpush _
  | loadFunction => exact .bind (resolveMethod_fails env i).discard fun _ => hpush _
  | sizeOf => exact .bind htype fun _ => hpush _
  | dup =>
    refine .bind .get fun s => ?_
    cases s.stack with
    | nil => exact .throw ⟨rfl, rfl⟩
    | cons top rest => exact hpush _
  | pop => exact (pop_fails i).discard
  | branch condition =>
    cases condition with
    | always => exact .pure _
    | isTrue | isFalse => exact (popInt_fails i).discard
    | eq | neUn | ge | gt | le | lt | geUn | gtUn | leUn | ltUn => exact (popPair_fails i).discard
  | switch => exact popSized_fails i 4
  | leave => exact popAll_fails i
  | ret => exact ret_fails env i
  | binary op => exact .bind (popPair_fails i) fun _ => .guard ⟨rfl, rfl⟩ (hpush _)
  | unary op => exact .bind (popInt_fails i) fun _ => hpush _
  | shift op =>
    exact .bind (popInt_fails i).discard fun _ => .bind (popInt_fails i) fun _ => hpush _
  | compare op => exact .bind (popPair_fails i).discard fun _ => hpush _
  | convert target =>
    cases target with
    | none => exact .throw ⟨rfl, rfl⟩
    | some target => exact .bind (popInt_fails i).discard fun _ => hpush _
  | loadIndirect kind =>
    exact .bind (valueItem_fails env i kind) fun _ => .bind hobject fun _ => hpush _
  | storeIndirect kind =>
    exact .bind (valueItem_fails env i kind) fun _ => .bind (popSized_fails i _) fun _ => hobject
  | loadField =>
    exact .bind (instanceField_fails env i) fun _ => .bind hobject fun _ => hpush _
  | loadFieldAddress =>
    exact .bind (instanceField_fails env i).discard fun _ => .bind hobject fun _ => hpush _
  | storeField =>
    exact .bind (instanceField_fails env i) fun _ => .bind (popSized_fails i _) fun _ => hobject
  | loadStatic => exact .bind (staticField_fails env i) fun _ => hpush _
  | loadStaticAddress => exact .bind (staticField_fails env i).discard fun _ => hpush _
  | storeStatic => exact .bind (staticField_fails env i) fun _ => popSized_fails i _
  | newArray => exact .bind htype fun _ => .bind (popSized_fails i 4) fun _ => hpush _
  | loadLength => exact .bind hobject fun _ => hpush _
  | loadElement kind =>
    exact .bind (valueItem_fails env i kind) fun _ => .bind (popSized_fails i 4) fun _ =>
      .bind hobject fun _ => hpush _
  | loadElementAddress =>
    exact .bind htype fun _ => .bind (popSized_fails i 4) fun _ => .bind hobject fun _ => hpush _
  | storeElement kind =>
    exact .bind (valueItem_fails env i kind) fun _ => .bind (popSized_fails i _) fun _ =>
      .bind (popSized_fails i 4) fun _ => hobject
  | call => exact .bind (resolveMethod_fails env i) fun _ => call_fails env i _ _
  | callIndirect =>
    exact .bind (resolveMethod_fails env i) fun _ => .bind hobject fun _ => call_fails env i _ _
  | callVirtual =>
    exact .bind (resolveMethod_fails env i) fun _ => .guard ⟨rfl, rfl⟩ (call_fails env i _ true)
  | newObject => exact newObject_fails env i
  | isInstance | castClass => exact .bind htype fun _ => .bind hobject fun _ => hpush _
  | throw => exact hobject
  | initObject => exact .bind htype fun _ => hobject

end Sim

theorem simulate_fails (env : SimEnv) (i : Instruction) : Fails (ErrorAt i) (simulate env i) := by
  intro stack e stack' h
  unfold simulate at h
  split at h
  · injection h with he
    exact he ▸ ⟨rfl, rfl⟩
  · split at h
    · cases h
    · rename_i hrun
      injection h with he
      exact Sim.operate_fails env i _ _ e _ (he ▸ hrun)

/-! ## The walk -/

namespace Walk

theorem enter_fails (i : Instruction) : Fails (ErrorAt i) (enter i) := by
  refine .bind .get fun w => .ite (.ite (.set _) (.pure _)) (.ite (.set _) ?_)
  cases w.pending[i.position]? with
  | none => exact .bind (.pure _) fun _ => .set _
  | some expected => exact .guard ⟨rfl, rfl⟩ (.set _)

theorem simulateHere_fails (env : SimEnv) (i : Instruction) : Fails (ErrorAt i) (simulateHere env i) := by
  intro w e w' h
  unfold simulateHere at h
  split at h
  · cases h
  · rename_i hsimulate
    injection h with he
    exact simulate_fails env i _ e _ (he ▸ hsimulate)

theorem record_fails (env : WalkEnv) (i : Instruction) (target : Int) :
    Fails (ErrorAt i) (record env i target) := by
  unfold record
  refine .guard ⟨rfl, rfl⟩ (.bind (.modify _) fun _ => .bind .get fun w => ?_)
  cases (w.entries[target.toNat]? <|> w.pending[target.toNat]?) with
  | none => exact .set _
  | some expected => exact .ite (.throw ⟨rfl, rfl⟩) (.pure _)

/-- A step fails at its own instruction. -/
theorem step_fails (env : WalkEnv) (i : Instruction) : Fails (ErrorAt i) (step env i) := by
  refine .bind (enter_fails i) fun _ => .bind .get fun _ =>
    .bind (simulateHere_fails _ i) fun _ => ?_
  have hrest : ∀ step : WalkStep, Fails (ErrorAt i) (do
      if i.op.endsFlow then
        modify fun w => { w with unreachable := true }
      return step : WalkM WalkStep) :=
    fun _ => .when (.modify _) (.pure _)
  cases htargets : i.targets with
  | error e => exact .bind (.throw (i.targets_errs e htargets)) fun _ => hrest _
  | ok targets => exact .bind (.forM (record_fails env i) targets) fun _ => hrest _

end Walk

end Stencil
