import Stencil.Proofs.Simulation.Fresh
import Stencil.Proofs.Stateful

/-!
# Items of the sizes that are allowed

The simulation refuses to push floats, and it pushes nothing else but words, double words, pointers, what the
frame holds and values of the table's types. So on a stack without floats it keeps any set of sizes that has all
these (`simulate_regular`), also where it fails. Multiples of four are such a set. The positive ones are if
no type is so large that rounding its size up wraps around to zero (`TypeDescriptor.stackItem_positive`).
-/

namespace Stencil

open Stateful

/-- The item has one of the sizes and is no float. -/
structure StackItem.Regular (sizes : Nat → Prop) (item : StackItem) : Prop where
  size : sizes item.size
  notFloat : item.isFloat = false

def PositiveWords (size : Nat) : Prop := 0 < size ∧ 4 ∣ size

instance (size : Nat) : Decidable (PositiveWords size) := inferInstanceAs (Decidable (_ ∧ _))

namespace OperandStack.Only

variable {kind : StackItem → Prop} {item : StackItem} {stack stack' : OperandStack}

theorem nil : OperandStack.Only [] kind := fun _ h => absurd h List.not_mem_nil

theorem cons_iff : OperandStack.Only (item :: stack) kind ↔ kind item ∧ stack.Only kind :=
  List.forall_mem_cons

theorem append_iff : OperandStack.Only (stack ++ stack') kind ↔ stack.Only kind ∧ stack'.Only kind :=
  List.forall_mem_append

end OperandStack.Only

/-! ## Shapes -/

theorem IntegerSize.positiveWords {size : Nat} (h : IntegerSize size) : PositiveWords size := by
  rcases h with rfl | rfl
  · exact ⟨by decide, by decide⟩
  · exact ⟨by decide, by decide⟩

/-- The size of the type can be rounded up to words within a word. -/
def TypeDescriptor.Rounds (t : TypeDescriptor) : Prop := t.isValueType = true → t.stackSize ≤ 0xFFFFFFFC

instance (t : TypeDescriptor) : Decidable t.Rounds := inferInstanceAs (Decidable (_ → _))

/-- Sizes are rounded up to whole words, and at least one. -/
theorem TypeDescriptor.stackItem_positive {t : TypeDescriptor} (h : t.Rounds) :
    PositiveWords (t.stackItem 4).size := by
  unfold stackItem
  split
  · exact ⟨by decide, by decide⟩
  · rename_i hvalue
    have hsize := h (by simpa using hvalue)
    have hround : PositiveWords ((max t.stackSize 1 + 3) / 4 * 4 % 2 ^ 32) := by
      unfold PositiveWords
      omega
    dsimp only
    split
    · exact hround
    · exact hround

/-- Pointers are words, and the sizes are those of integers, of what is in the frame and of the table's types,
and perhaps more. -/
structure SimEnv.Allows (env : SimEnv) (sizes : Nat → Prop) : Prop where
  pointerSize : env.pointerSize = 4
  integers : ∀ {size}, IntegerSize size → sizes size
  args : ∀ slot ∈ env.frame.args, sizes slot.item.size
  locals : ∀ slot ∈ env.frame.locals, sizes slot.item.size
  types : ∀ id t, env.tables.type? id = some t → sizes (t.stackItem 4).size

/-! ## Simulation steps -/

namespace Sim

variable {sizes : Nat → Prop}

variable (sizes) in
def RegularStack (s : SimState) : Prop := s.stack.Only (StackItem.Regular sizes)

section Steps

variable {i : Instruction}

theorem lift_preserves {Inv : SimState → Prop} {α : Type} {Q : α → Prop} {answer : Except CompileError α}
    (h : ∀ a, answer = .ok a → Q a) : Preserves Inv Q (lift answer) := by
  cases answer with
  | ok a => exact .pure (h a rfl)
  | error e => exact .throw e

theorem lift_regular {α : Type} (answer : Except CompileError α) : Maintains (RegularStack sizes) (lift answer) :=
  lift_preserves fun _ _ => trivial

theorem push_regular {item : StackItem} (h : sizes item.size) : Maintains (RegularStack sizes) (push i item) := by
  apply Preserves.ite
  · intro _
    exact .throw _
  · intro hfloat
    apply Preserves.modify
    intro s hs
    have hitem : item.Regular sizes := ⟨h, by simpa using hfloat⟩
    exact OperandStack.Only.cons_iff.mpr ⟨hitem, hs⟩

/-- What is popped was on the stack. -/
theorem pop_regular : Preserves (RegularStack sizes) (StackItem.Regular sizes) (pop i) := by
  refine .bind .get fun s hs => ?_
  have htop : ∀ top, s.stack.popFor i.op i.position = .ok top →
      top.1.Regular sizes ∧ OperandStack.Only top.2 (StackItem.Regular sizes) := by
    intro top hpop
    unfold RegularStack at hs
    cases hstack : s.stack with
    | nil =>
      rw [hstack] at hpop
      cases hpop
    | cons item rest =>
      rw [hstack] at hpop hs
      cases hpop
      exact OperandStack.Only.cons_iff.mp hs
  refine .bind (lift_preserves htop) ?_
  rintro ⟨item, rest⟩ ⟨hitem, hrest⟩
  refine .bind (.modify fun _ _ => hrest) fun _ _ => .check fun _ => ?_
  exact .bind (.modify fun _ ht => ht) fun _ _ => .pure hitem

theorem popInt_regular : Preserves (RegularStack sizes) (fun item => IntegerSize item.size) (popInt i) := by
  refine .bind pop_regular fun item _ => .check fun hsize => .pure ?_
  unfold IntegerSize
  omega

theorem popPair_regular : Preserves (RegularStack sizes) IntegerSize (popPair i) :=
  .bind popInt_regular fun _ _ => .bind popInt_regular fun _ ha => .check fun _ => .pure ha

theorem popSized_regular (size : Nat) : Maintains (RegularStack sizes) (popSized i size) :=
  .bind pop_regular fun _ _ => .ite (fun _ => .throw _) fun _ => .pure trivial

theorem popAll_regular : Maintains (RegularStack sizes) (popAll i) :=
  .bind .get fun s _ => .forM (fun _ => pop_regular.discard) s.stack

end Steps

section Environment

variable {env : SimEnv} {i : Instruction} (henv : env.Allows sizes)

theorem popObject_regular : Maintains (RegularStack sizes) (popObject env i) := popSized_regular _

include henv

theorem push_pointer {item : StackItem} (h : item.size = env.pointerSize) :
    Maintains (RegularStack sizes) (push i item) := by
  apply push_regular
  rw [h, henv.pointerSize]
  exact henv.integers (.inl rfl)

/-- The size of a value of a type that was looked up in the table is allowed. -/
theorem size_of_found {found : Option TypeDescriptor} (hfound : ∀ t, found = some t → ∃ id, env.tables.type? id = some t)
    {item : StackItem}
    (h : (Table.require i .type found).map (TypeDescriptor.stackItem env.pointerSize) = .ok item) :
    sizes item.size := by
  obtain ⟨t, ht, rfl⟩ := answer_map.mp h
  obtain ⟨id, hid⟩ := hfound t (Table.require_ok.mp ht)
  rw [henv.pointerSize]
  exact henv.types id t hid

theorem typeItem_regular (id : TypeId) :
    Preserves (RegularStack sizes) (fun item => sizes item.size) (typeItem env i id) :=
  lift_preserves fun _ hitem => size_of_found henv (fun _ ht => ⟨id, ht⟩) hitem

theorem valueItem_regular (kind : ValueKind) :
    Preserves (RegularStack sizes) (fun item => sizes item.size) (valueItem env i kind) := by
  cases kind with
  | typed =>
    refine lift_preserves fun _ hitem => size_of_found henv (fun t ht => ?_) hitem
    obtain ⟨id, -, hid⟩ := Option.bind_eq_some_iff.mp ht
    exact ⟨id, hid⟩
  | i8 | r8 => exact .pure (henv.integers (.inr rfl))
  | i1 | u1 | i2 | u2 | i4 | u4 | r4 => exact .pure (henv.integers (.inl rfl))
  | i | ref =>
    refine .pure ?_
    show sizes env.pointerSize
    rw [henv.pointerSize]
    exact henv.integers (.inl rfl)

theorem argument_regular : Preserves (RegularStack sizes) (fun slot => sizes slot.item.size) (argument env i) := by
  refine .bind (lift_regular _) fun index _ => ?_
  split
  · rename_i slot hslot
    exact .pure (henv.args slot (List.mem_of_getElem? hslot))
  · exact .throw _

theorem localSlot_regular : Preserves (RegularStack sizes) (fun slot => sizes slot.item.size) (localSlot env i) := by
  refine .bind (lift_regular _) fun index _ => ?_
  split
  · rename_i slot hslot
    exact .pure (henv.locals slot (List.mem_of_getElem? hslot))
  · exact .throw _

theorem instanceField_regular : Preserves (RegularStack sizes) (fun item => sizes item.size) (instanceField env i) :=
  .bind (lift_regular _) fun _ _ => .check fun _ => typeItem_regular henv _

theorem staticField_regular : Preserves (RegularStack sizes) (fun item => sizes item.size) (staticField env i) :=
  .bind (lift_regular _) fun _ _ => .check fun _ => typeItem_regular henv _

omit henv in
theorem token_regular : Maintains (RegularStack sizes) (token env i) :=
  .ite (fun _ => (lift_regular _).discard) fun _ =>
    .ite (fun _ => (lift_regular _).discard) fun _ => (lift_regular _).discard

theorem popArguments_regular (params : List TypeId) :
    Maintains (RegularStack sizes) (popArguments env i params) :=
  .forM (fun id => .bind (typeItem_regular henv id) fun _ _ => popSized_regular _) _

theorem call_regular (m : MethodDescriptor) (onReceiver : Bool) :
    Maintains (RegularStack sizes) (call env i m onReceiver) := by
  refine .bind (popArguments_regular henv _) fun _ _ =>
    .ite (fun _ => .bind popObject_regular fun _ _ => ?_) fun _ => ?_
  all_goals
    split
    · exact .bind (typeItem_regular henv _) fun _ hitem => push_regular hitem
    · exact .pure trivial

theorem newObject_regular : Maintains (RegularStack sizes) (newObject env i) := by
  refine .bind (lift_regular _) fun ctor _ => .bind (lift_regular _) fun declaring _ => ?_
  refine .check fun _ => .ite (fun _ => ?_) fun _ => ?_
  · exact .bind popObject_regular fun _ _ => .bind popObject_regular fun _ _ => push_pointer henv rfl
  · exact .bind (popArguments_regular henv _) fun _ _ => push_pointer henv rfl

/-- Whatever the operation, a stack of regular items becomes one. -/
theorem operate_regular (op : Operation) : Maintains (RegularStack sizes) (operate env i op) := by
  have hfound : ∀ {α : Type} (answer : Except CompileError α),
      Maintains (RegularStack sizes) (Functor.discard (lift answer)) := fun answer => (lift_regular answer).discard
  cases op with
  | nop | methodStart | methodEnd => exact .pure trivial
  | loadArg => exact .bind (argument_regular henv) fun _ hslot => push_regular hslot
  | loadLocal => exact .bind (localSlot_regular henv) fun _ hslot => push_regular hslot
  | loadArgAddress => exact .bind (argument_regular henv).discard fun _ _ => push_pointer henv rfl
  | loadLocalAddress => exact .bind (localSlot_regular henv).discard fun _ _ => push_pointer henv rfl
  | storeArg => exact .bind (argument_regular henv) fun _ _ => popSized_regular _
  | storeLocal => exact .bind (localSlot_regular henv) fun _ _ => popSized_regular _
  | loadConst =>
    apply Preserves.ite
    · intro _
      exact .bind (hfound _) fun _ _ => push_regular (henv.integers (.inr rfl))
    · intro _
      exact .bind (hfound _) fun _ _ => push_regular (henv.integers (.inl rfl))
  | loadNull => exact push_pointer henv rfl
  | loadString | loadFunction => exact .bind (hfound _) fun _ _ => push_pointer henv rfl
  | sizeOf => exact .bind (hfound _) fun _ _ => push_regular (henv.integers (.inl rfl))
  | loadToken => exact .bind token_regular fun _ _ => push_pointer henv rfl
  | dup =>
    refine .bind .get fun s hs => ?_
    unfold RegularStack at hs
    split
    · exact .throw _
    · rename_i top rest hstack
      rw [hstack, OperandStack.Only.cons_iff] at hs
      exact push_regular hs.1.size
  | pop => exact pop_regular.discard
  | branch condition =>
    simp only [operate]
    split
    · exact .pure trivial
    · exact popInt_regular.discard
    · exact popPair_regular.discard
  | switch => exact popSized_regular _
  | leave => exact popAll_regular
  | ret =>
    have hcheck : Maintains (RegularStack sizes) (do
        let stack := (← get).stack
        if !stack.isEmpty then
          throw (i.stackShape (.leftAtReturn stack.height)) : Sim Unit) :=
      .bind .get fun _ _ => .ite (fun _ => .throw _) fun _ => .pure trivial
    simp only [operate]
    split
    · exact .bind (popSized_regular _) fun _ _ => hcheck
    · exact hcheck
  | binary op =>
    exact .bind popPair_regular fun _ hsize => .check fun _ => push_regular (henv.integers hsize)
  | unary op => exact .bind popInt_regular fun _ hsize => push_regular (henv.integers hsize)
  | shift op =>
    exact .bind popInt_regular.discard fun _ _ => .bind popInt_regular fun _ hsize =>
      push_regular (henv.integers hsize)
  | compare op => exact .bind popPair_regular.discard fun _ _ => push_regular (henv.integers (.inl rfl))
  | convert target =>
    cases target with
    | none => exact .throw _
    | some target =>
      refine .bind popInt_regular.discard fun _ _ => push_regular ?_
      split
      · exact henv.integers (.inr rfl)
      · exact henv.integers (.inl rfl)
  | loadIndirect kind =>
    exact .bind (valueItem_regular henv _) fun _ hitem => .bind popObject_regular fun _ _ => push_regular hitem
  | storeIndirect kind =>
    exact .bind (valueItem_regular henv _) fun _ _ => .bind (popSized_regular _) fun _ _ => popObject_regular
  | loadField =>
    exact .bind (instanceField_regular henv) fun _ hitem => .bind popObject_regular fun _ _ => push_regular hitem
  | loadFieldAddress =>
    exact .bind (instanceField_regular henv).discard fun _ _ => .bind popObject_regular fun _ _ =>
      push_pointer henv rfl
  | storeField =>
    exact .bind (instanceField_regular henv) fun _ _ => .bind (popSized_regular _) fun _ _ => popObject_regular
  | loadStatic => exact .bind (staticField_regular henv) fun _ hitem => push_regular hitem
  | loadStaticAddress => exact .bind (staticField_regular henv).discard fun _ _ => push_pointer henv rfl
  | storeStatic => exact .bind (staticField_regular henv) fun _ _ => popSized_regular _
  | newArray =>
    exact .bind (hfound _) fun _ _ => .bind (popSized_regular _) fun _ _ => push_pointer henv rfl
  | loadLength => exact .bind popObject_regular fun _ _ => push_pointer henv rfl
  | loadElement kind =>
    exact .bind (valueItem_regular henv _) fun _ hitem => .bind (popSized_regular _) fun _ _ =>
      .bind popObject_regular fun _ _ => push_regular hitem
  | loadElementAddress =>
    exact .bind (hfound _) fun _ _ => .bind (popSized_regular _) fun _ _ =>
      .bind popObject_regular fun _ _ => push_pointer henv rfl
  | storeElement kind =>
    exact .bind (valueItem_regular henv _) fun _ _ => .bind (popSized_regular _) fun _ _ =>
      .bind (popSized_regular _) fun _ _ => popObject_regular
  | call => exact .bind (lift_regular _) fun _ _ => call_regular henv _ _
  | callIndirect =>
    exact .bind (lift_regular _) fun _ _ => .bind popObject_regular fun _ _ => call_regular henv _ _
  | callVirtual => exact .bind (lift_regular _) fun _ _ => .check fun _ => call_regular henv _ _
  | newObject => exact newObject_regular henv
  | isInstance | castClass =>
    exact .bind (hfound _) fun _ _ => .bind popObject_regular fun _ _ => push_pointer henv rfl
  | throw => exact popObject_regular
  | initObject => exact .bind (hfound _) fun _ _ => popObject_regular

end Environment

end Sim

/-- The simulation keeps a stack of regular items, also where it fails. -/
theorem simulate_regular {sizes : Nat → Prop} {env : SimEnv} (henv : env.Allows sizes) (i : Instruction) :
    Maintains (fun stack => stack.Only (StackItem.Regular sizes)) (simulate env i) := by
  intro stack hstack
  refine ⟨?_, fun _ _ _ => trivial⟩
  by_cases hfloat : i.op.isFloat
  · simpa [stateAfter, simulate, hfloat] using hstack
  · have hafter := (Sim.operate_regular henv i.op.operation (i := i)).inv (show Sim.RegularStack sizes { stack } from hstack)
    cases hrun : Sim.operate env i i.op.operation { stack } with
    | ok a s =>
      have hstate : stateAfter (simulate env i) stack = s.stack := by
        simp [stateAfter, simulate, hfloat, hrun]
      rw [hstate]
      rwa [stateAfter_of_ok hrun] at hafter
    | error e s =>
      have hstate : stateAfter (simulate env i) stack = s.stack := by
        simp [stateAfter, simulate, hfloat, hrun]
      rw [hstate]
      rwa [stateAfter_of_error hrun] at hafter

end Stencil
