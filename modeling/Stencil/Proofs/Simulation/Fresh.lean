import Stencil.Proofs.Simulation.Effects

/-!
# Fresh allocations

The simulation flags the items that `newobj` and `newarr` push as fresh. No other instruction pushes such an
item (`simulate_settled`): what is loaded, copied or computed is settled.
-/

namespace Stencil

open Stateful

def OperandStack.Only (stack : OperandStack) (kind : StackItem → Prop) : Prop :=
  ∀ item ∈ stack, kind item

/-- The item is no allocation that is stored nowhere. -/
def StackItem.Settled (item : StackItem) : Prop := item.isNew = false

theorem TypeDescriptor.stackItem_settled (pointerSize : Nat) (t : TypeDescriptor) :
    (t.stackItem pointerSize).Settled := by
  unfold TypeDescriptor.stackItem
  split
  · rfl
  · dsimp only
    split <;> rfl

def Operation.allocates : Operation → Bool
  | .newObject | .newArray => true
  | _ => false

namespace Sim

/-- Where the step succeeds, it has pushed settled items only, and its value is as asked. -/
def Settles {α : Type} (Q : α → Prop) (x : Sim α) : Prop :=
  ∀ ⦃s s' : SimState⦄ ⦃a : α⦄, x s = .ok a s' →
    Q a ∧ ∃ new, s'.effect.pushed = s.effect.pushed ++ new ∧ OperandStack.Only new StackItem.Settled

namespace Settles

variable {α β : Type} {Q : α → Prop} {R : β → Prop} {x : Sim α} {env : SimEnv} {i : Instruction}

theorem of_eq (h : ∀ ⦃s s' : SimState⦄ ⦃a : α⦄, x s = .ok a s' → Q a ∧ s'.effect.pushed = s.effect.pushed) :
    Settles Q x := fun _ _ _ hx =>
  ⟨(h hx).1, [], by rw [(h hx).2, List.append_nil], fun _ hitem => absurd hitem List.not_mem_nil⟩

theorem pure {a : α} (h : Q a) : Settles Q (pure a : Sim α) := .of_eq fun s s' b hx => by
  obtain ⟨rfl, rfl⟩ := EStateM.Result.ok.inj hx
  exact ⟨h, rfl⟩

theorem throw {e : CompileError} : Settles Q (throw e : Sim α) := fun _ _ _ hx => nomatch hx

theorem get : Settles (fun _ => True) (get : Sim SimState) := .of_eq fun s s' b hx => by
  obtain ⟨rfl, rfl⟩ := EStateM.Result.ok.inj hx
  exact ⟨trivial, rfl⟩

theorem lift {answer : Except CompileError α} (h : ∀ a, answer = .ok a → Q a) : Settles Q (lift answer) :=
  .of_eq fun s s' b hx => by
    obtain ⟨hanswer, rfl⟩ := lift_ok.mp hx
    exact ⟨h _ hanswer, rfl⟩

theorem bind {f : α → Sim β} (hx : Settles Q x) (hf : ∀ a, Q a → Settles R (f a)) : Settles R (x >>= f) := by
  intro s s' b h
  obtain ⟨a, t, ha, h⟩ := bind_eq_ok.mp h
  obtain ⟨hQ, new, ht, hnew⟩ := hx ha
  obtain ⟨hR, new', hs', hnew'⟩ := hf a hQ h
  refine ⟨hR, new ++ new', by rw [hs', ht, List.append_assoc], fun item hitem => ?_⟩
  exact (List.mem_append.mp hitem).elim (hnew item) (hnew' item)

theorem discard (h : Settles Q x) : Settles (fun _ => True) (Functor.discard x) :=
  h.bind fun _ _ => .pure trivial

theorem ite {p : Prop} [Decidable p] {y : Sim α} (hx : Settles Q x) (hy : Settles Q y) :
    Settles Q (if p then x else y) := by
  split
  · exact hx
  · exact hy

theorem forM {f : β → Sim PUnit} (h : ∀ b, Settles (fun _ => True) (f b)) (bs : List β) :
    Settles (fun _ => True) (bs.forM f) := by
  induction bs with
  | nil => exact .pure trivial
  | cons b bs ih => exact .bind (h b) fun _ _ => ih

theorem push {item : StackItem} (h : item.Settled) : Settles (fun _ => True) (push i item) := fun _ _ _ hx =>
  ⟨trivial, [item], (push_ok hx).pushed, fun _ hitem => List.mem_singleton.mp hitem ▸ h⟩

theorem pop : Settles (fun _ => True) (pop i) := .of_eq fun _ _ _ hx =>
  ⟨trivial, (pop_ok hx).pushed.trans (List.append_nil _)⟩

theorem popInt : Settles (fun _ => True) (popInt i) :=
  .bind .pop fun _ _ => .ite (.bind .throw fun _ (_ : True) => .pure trivial) (.pure trivial)

theorem popPair : Settles (fun _ => True) (popPair i) :=
  .bind .popInt fun _ _ => .bind .popInt fun _ _ =>
    .ite (.bind .throw fun _ (_ : True) => .pure trivial) (.pure trivial)

theorem popSized (size : Nat) : Settles (fun _ => True) (popSized i size) :=
  .bind .pop fun _ _ => .ite .throw (.pure trivial)

theorem popObject : Settles (fun _ => True) (popObject env i) := .popSized _

theorem popAll : Settles (fun _ => True) (popAll i) :=
  .bind .get fun s _ => .forM (fun _ => .discard .pop) s.stack

theorem typeItem (id : TypeId) : Settles StackItem.Settled (typeItem env i id) := .lift fun item hitem => by
  cases htype : env.tables.typeFor i id with
  | error e =>
    rw [htype] at hitem
    cases hitem
  | ok t =>
    rw [htype] at hitem
    cases hitem
    exact t.stackItem_settled _

theorem valueItem (kind : ValueKind) : Settles StackItem.Settled (valueItem env i kind) := by
  cases kind with
  | typed =>
    refine .lift fun item hitem => ?_
    cases htype : env.tables.resolveType i with
    | error e =>
      rw [htype] at hitem
      cases hitem
    | ok t =>
      rw [htype] at hitem
      cases hitem
      exact t.stackItem_settled _
  | _ => exact .pure rfl

theorem argument : Settles (fun _ => True) (argument env i) :=
  .bind (.lift fun _ _ => trivial) fun index _ => by
    split
    · exact .pure trivial
    · exact .throw

theorem localSlot : Settles (fun _ => True) (localSlot env i) :=
  .bind (.lift fun _ _ => trivial) fun index _ => by
    split
    · exact .pure trivial
    · exact .throw

theorem instanceField : Settles StackItem.Settled (instanceField env i) :=
  .bind (.lift fun _ _ => trivial) fun _ _ => .ite (.bind .throw fun _ (_ : True) => .typeItem _) (.typeItem _)

theorem staticField : Settles StackItem.Settled (staticField env i) :=
  .bind (.lift fun _ _ => trivial) fun _ _ => .ite (.bind .throw fun _ (_ : True) => .typeItem _) (.typeItem _)

theorem token : Settles (fun _ => True) (token env i) :=
  .ite (.discard (.lift fun _ _ => trivial))
    (.ite (.discard (.lift fun _ _ => trivial)) (.discard (.lift fun _ _ => trivial)))

theorem popArguments (params : List TypeId) : Settles (fun _ => True) (popArguments env i params) :=
  .forM (fun id => .bind (.typeItem id) fun _ _ => .popSized _) _

theorem call (m : MethodDescriptor) (onReceiver : Bool) : Settles (fun _ => True) (call env i m onReceiver) := by
  refine .bind (.popArguments _) fun _ _ => .ite (.bind .popObject fun _ _ => ?_) ?_
  all_goals
    split
    · exact .bind (.typeItem _) fun _ hitem => .push hitem
    · exact .pure trivial

end Settles

/-- Operations that allocate nothing push settled items only. -/
theorem operate_settles {env : SimEnv} {i : Instruction} {op : Operation} (hop : op.allocates = false) :
    Settles (fun _ => True) (operate env i op) := by
  cases op with
  | nop | methodStart | methodEnd => exact .pure trivial
  | loadArg => exact .bind .argument fun _ _ => .push rfl
  | loadLocal => exact .bind .localSlot fun _ _ => .push rfl
  | loadArgAddress => exact .bind (.discard .argument) fun _ _ => .push rfl
  | loadLocalAddress => exact .bind (.discard .localSlot) fun _ _ => .push rfl
  | storeArg => exact .bind .argument fun _ _ => .popSized _
  | storeLocal => exact .bind .localSlot fun _ _ => .popSized _
  | loadConst =>
    exact .ite (.bind (.discard (.lift fun _ _ => trivial)) fun _ _ => .push rfl)
      (.bind (.discard (.lift fun _ _ => trivial)) fun _ _ => .push rfl)
  | loadNull => exact .push rfl
  | loadString | loadFunction | sizeOf =>
    exact .bind (.discard (.lift fun _ _ => trivial)) fun _ _ => .push rfl
  | loadToken => exact .bind .token fun _ _ => .push rfl
  | dup =>
    refine .bind .get fun s _ => ?_
    split
    · exact .throw
    · exact .push rfl
  | pop => exact .discard .pop
  | branch condition =>
    cases condition with
    | always => exact .pure trivial
    | isTrue | isFalse => exact .discard .popInt
    | _ => exact .discard .popPair
  | switch => exact .popSized _
  | leave => exact .popAll
  | ret =>
    have hcheck : Settles (fun _ => True) (do
        let stack := (← get).stack
        if !stack.isEmpty then
          throw (i.stackShape (.leftAtReturn stack.height)) : Sim Unit) :=
      .bind .get fun _ _ => .ite .throw (.pure trivial)
    simp only [operate]
    split
    · exact .bind (.popSized _) fun _ _ => hcheck
    · exact hcheck
  | binary op =>
    exact .bind .popPair fun _ _ => .ite (.bind .throw fun _ (_ : True) => .push rfl) (.push rfl)
  | unary op => exact .bind .popInt fun _ _ => .push rfl
  | shift op => exact .bind (.discard .popInt) fun _ _ => .bind .popInt fun _ _ => .push rfl
  | compare op => exact .bind (.discard .popPair) fun _ _ => .push rfl
  | convert target =>
    cases target with
    | none => exact .throw
    | some target =>
      refine .bind (.discard .popInt) fun _ _ => .push ?_
      split <;> rfl
  | loadIndirect kind => exact .bind (.valueItem _) fun _ hitem => .bind .popObject fun _ _ => .push hitem
  | storeIndirect kind => exact .bind (.valueItem _) fun _ _ => .bind (.popSized _) fun _ _ => .popObject
  | loadField => exact .bind .instanceField fun _ hitem => .bind .popObject fun _ _ => .push hitem
  | loadFieldAddress => exact .bind (.discard .instanceField) fun _ _ => .bind .popObject fun _ _ => .push rfl
  | storeField => exact .bind .instanceField fun _ _ => .bind (.popSized _) fun _ _ => .popObject
  | loadStatic => exact .bind .staticField fun _ hitem => .push hitem
  | loadStaticAddress => exact .bind (.discard .staticField) fun _ _ => .push rfl
  | storeStatic => exact .bind .staticField fun _ _ => .popSized _
  | loadLength => exact .bind .popObject fun _ _ => .push rfl
  | loadElement kind =>
    exact .bind (.valueItem _) fun _ hitem => .bind (.popSized _) fun _ _ => .bind .popObject fun _ _ => .push hitem
  | loadElementAddress =>
    exact .bind (.discard (.lift fun _ _ => trivial)) fun _ _ => .bind (.popSized _) fun _ _ =>
      .bind .popObject fun _ _ => .push rfl
  | storeElement kind =>
    exact .bind (.valueItem _) fun _ _ => .bind (.popSized _) fun _ _ => .bind (.popSized _) fun _ _ => .popObject
  | call => exact .bind (.lift fun _ _ => trivial) fun _ _ => .call _ _
  | callIndirect =>
    exact .bind (.lift fun _ _ => trivial) fun _ _ => .bind .popObject fun _ _ => .call _ _
  | callVirtual =>
    exact .bind (.lift fun _ _ => trivial) fun _ _ => .ite (.bind .throw fun _ (_ : True) => .call _ _) (.call _ _)
  | isInstance | castClass =>
    exact .bind (.discard (.lift fun _ _ => trivial)) fun _ _ => .bind .popObject fun _ _ => .push rfl
  | throw => exact .popObject
  | initObject => exact .bind (.discard (.lift fun _ _ => trivial)) fun _ _ => .popObject
  | newObject | newArray => cases hop

end Sim

/-- What an instruction pushes is settled unless it allocates. -/
theorem simulate_settled {env : SimEnv} {i : Instruction} {stack stack' : OperandStack} {e : Effect}
    (hop : i.op.operation.allocates = false) (h : simulate env i stack = .ok e stack') :
    OperandStack.Only e.pushed StackItem.Settled := by
  unfold simulate at h
  split at h
  · cases h
  · split at h
    · rename_i s hrun
      obtain ⟨rfl, -⟩ := EStateM.Result.ok.inj h
      obtain ⟨-, new, hnew, hsettled⟩ := Sim.operate_settles hop hrun
      rw [hnew]
      exact hsettled
    · cases h

end Stencil
