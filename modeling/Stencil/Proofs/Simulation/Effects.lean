import Stencil.Proofs.Simulation.Shape
import Stencil.Proofs.Stateful
import Stencil.Simulation
import Mathlib.Data.UInt

/-!
# What each operation pops and pushes

`simulate_exchange`: when a simulation succeeds, it has replaced the popped items by the pushed ones
on top of the stack, and `Exchanges` says for each operation which sizes these items have.
-/

namespace Stencil

open Stateful

theorem Table.require_ok {α : Type} {i : Instruction} {kind : DescriptorKind} {found : Option α} {a : α} :
    Table.require i kind found = .ok a ↔ found = some a := by
  cases found <;> simp [Table.require]

/-- The items popped and pushed have these sizes. -/
structure Effect.Sizes (e : Effect) (popped pushed : List Nat) : Prop where
  popped : e.popped.map StackItem.size = popped
  pushed : e.pushed.map StackItem.size = pushed

theorem totalBytes_eq_sum (items : List StackItem) :
    totalBytes items = (items.map StackItem.size).sum := by
  induction items with
  | nil => rfl
  | cons item items ih => rw [totalBytes, ih, List.map_cons, List.sum_cons]

theorem totalBytes_append (items items' : List StackItem) :
    totalBytes (items ++ items') = totalBytes items + totalBytes items' := by
  simp only [totalBytes_eq_sum, List.map_append, List.sum_append]

theorem totalBytes_reverse (items : List StackItem) : totalBytes items.reverse = totalBytes items := by
  rw [totalBytes_eq_sum, totalBytes_eq_sum, List.map_reverse, List.sum_reverse]

theorem dvd_totalBytes {items : List StackItem} (h : ∀ item ∈ items, 4 ∣ item.size) : 4 ∣ totalBytes items := by
  induction items with
  | nil => exact Nat.dvd_zero 4
  | cons item items ih =>
    rw [List.forall_mem_cons] at h
    exact Nat.dvd_add h.1 (ih h.2)

/-! ### Counting in words -/

theorem countBytes_eq (items : List StackItem) : countBytes items = totalBytes items % 2 ^ 32 := rfl

theorem ofNat_countBytes (items : List StackItem) :
    UInt32.ofNat (countBytes items) = UInt32.ofNat (totalBytes items) := UInt32.ofNat_mod_size

theorem countBytes_of_lt {items : List StackItem} (h : totalBytes items < 2 ^ 32) :
    countBytes items = totalBytes items := Nat.mod_eq_of_lt h

theorem dvd_countBytes {items : List StackItem} : 4 ∣ countBytes items ↔ 4 ∣ totalBytes items := by
  rw [countBytes_eq]
  omega

namespace Effect.Sizes

variable {e : Effect} {popped pushed : List Nat}

theorem totalPopped (h : e.Sizes popped pushed) : totalBytes e.popped = popped.sum := by
  rw [totalBytes_eq_sum, h.popped]

theorem totalPushed (h : e.Sizes popped pushed) : totalBytes e.pushed = pushed.sum := by
  rw [totalBytes_eq_sum, h.pushed]

theorem ofNat_poppedBytes (h : e.Sizes popped pushed) :
    UInt32.ofNat e.poppedBytes = UInt32.ofNat popped.sum := by
  rw [Effect.poppedBytes, ofNat_countBytes, h.totalPopped]

theorem ofNat_pushedBytes (h : e.Sizes popped pushed) :
    UInt32.ofNat e.pushedBytes = UInt32.ofNat pushed.sum := by
  rw [Effect.pushedBytes, ofNat_countBytes, h.totalPushed]

theorem operand (h : e.Sizes popped pushed) (depth : Nat) {size : Nat}
    (hat : popped[depth]? = some size) :
    (e.operand depth).size = size := by
  rw [← h.popped, List.getElem?_map] at hat
  unfold Effect.operand
  cases hitem : e.popped[depth]? with
  | none => simp [hitem] at hat
  | some item => simpa [hitem] using hat

/-- The bytes below the former top are those of the other items. -/
theorem bytesBelow {top : Nat} {rest : List Nat} (h : e.Sizes (top :: rest) pushed) :
    e.bytesBelow = rest.sum % 2 ^ 32 := by
  rw [Effect.bytesBelow, h.ofNat_poppedBytes, h.operand 0 rfl, List.sum_cons, Nat.add_comm, UInt32.ofNat_add,
    UInt32.add_sub_cancel, UInt32.toNat_ofNat']

end Effect.Sizes

/-- What the effect adds to a stack pointer that falls when the stack grows. -/
def Effect.rise (e : Effect) : UInt32 := UInt32.ofNat e.poppedBytes - UInt32.ofNat e.pushedBytes

theorem Effect.rise_eq (e : Effect) :
    -UInt32.ofNat e.pushedBytes + UInt32.ofNat e.poppedBytes = e.rise := by
  rw [Effect.rise, UInt32.add_comm, UInt32.sub_eq_add_neg]

theorem Effect.Sizes.rise {e : Effect} {popped pushed : List Nat} (h : e.Sizes popped pushed) :
    e.rise = UInt32.ofNat popped.sum - UInt32.ofNat pushed.sum := by
  rw [Effect.rise, h.ofNat_poppedBytes, h.ofNat_pushedBytes]

theorem Effect.rise_of_pushed_nil {e : Effect} (h : e.pushed = []) :
    e.rise = UInt32.ofNat e.poppedBytes := by
  rw [Effect.rise, Effect.pushedBytes, h]
  exact UInt32.sub_zero _

/-! ## Shapes that an operation looks up -/

def SelectsSlot (slots : List FrameSlot) (i : Instruction) (slot : FrameSlot) : Prop :=
  ∃ index, i.index = .ok index ∧ slots[index]? = some slot

def TypeShapes (env : SimEnv) (i : Instruction) (ids : List TypeId) (items : List StackItem) : Prop :=
  List.Forall₂ (fun id item =>
    (env.tables.typeFor i id).map (TypeDescriptor.stackItem env.pointerSize) = .ok item) ids items

/-- Values of the field that `i` refers to have this shape. -/
def FieldShape (env : SimEnv) (i : Instruction) (item : StackItem) : Prop :=
  ∃ field t, env.tables.resolveField i = .ok field ∧ env.tables.typeFor i field.fieldType = .ok t ∧
    item = t.stackItem env.pointerSize

/-- Values that an access of this kind moves have this shape. -/
def KindShape (env : SimEnv) (i : Instruction) (kind : ValueKind) (item : StackItem) : Prop :=
  Sim.valueItem env i kind = pure item

def IntegerSize (size : Nat) : Prop := size = 4 ∨ size = 8

/-- The call of `m`, on a receiver or not, pops and pushes these sizes besides `extra`. -/
def CallSizes (env : SimEnv) (i : Instruction) (e : Effect) (extra : List Nat)
    (m : MethodDescriptor) (onReceiver : Bool) : Prop :=
  ∃ items result, TypeShapes env i m.params items ∧ TypeShapes env i m.returnType.toList result ∧
    e.Sizes
      (extra ++ (items.reverse.map StackItem.size ++ if onReceiver then [env.pointerSize] else []))
      (result.map StackItem.size)

/-- The sizes of what each operation pops and pushes. -/
def Exchanges (env : SimEnv) (i : Instruction) (stack : OperandStack) (e : Effect) :
    Operation → Prop
  | .nop | .methodStart | .methodEnd => e.Sizes [] []
  | .loadArg => ∃ slot, SelectsSlot env.frame.args i slot ∧ e.Sizes [] [slot.item.size]
  | .loadLocal => ∃ slot, SelectsSlot env.frame.locals i slot ∧ e.Sizes [] [slot.item.size]
  | .storeArg => ∃ slot, SelectsSlot env.frame.args i slot ∧ e.Sizes [slot.item.size] []
  | .storeLocal => ∃ slot, SelectsSlot env.frame.locals i slot ∧ e.Sizes [slot.item.size] []
  | .loadArgAddress | .loadLocalAddress | .loadNull | .loadString | .loadToken | .loadFunction
  | .loadStaticAddress => e.Sizes [] [env.pointerSize]
  | .loadConst => e.Sizes [] [if i.op = .ldcI8 then 8 else 4]
  | .sizeOf => e.Sizes [] [4]
  | .dup => ∃ top rest, stack = top :: rest ∧ e.popped = [] ∧ e.pushed = [top.stored]
  | .pop => ∃ top rest, stack = top :: rest ∧ e.popped = [top] ∧ e.pushed = []
  | .branch condition =>
    match condition.operandCount with
    | 0 => e.Sizes [] []
    | 1 => ∃ n, IntegerSize n ∧ e.Sizes [n] []
    | _ => ∃ n, IntegerSize n ∧ e.Sizes [n, n] []
  | .switch => e.Sizes [4] []
  | .leave => e.popped = stack ∧ e.pushed = []
  | .ret => e.Sizes (env.frame.returnItem.toList.map StackItem.size) []
  | .binary op => ∃ n, IntegerSize n ∧ (n = 8 → op.isDivision = false) ∧ e.Sizes [n, n] [n]
  | .unary _ => ∃ n, IntegerSize n ∧ e.Sizes [n] [n]
  | .shift _ => ∃ n count, IntegerSize n ∧ IntegerSize count ∧ e.Sizes [count, n] [n]
  | .compare _ => ∃ n, IntegerSize n ∧ e.Sizes [n, n] [4]
  | .convert none => False
  | .convert (some target) =>
    ∃ n, IntegerSize n ∧ e.Sizes [n] [if target.valueSize env.pointerSize = 8 then 8 else 4]
  | .loadIndirect kind => ∃ item, KindShape env i kind item ∧ e.Sizes [env.pointerSize] [item.size]
  | .storeIndirect kind => ∃ item, KindShape env i kind item ∧ e.Sizes [item.size, env.pointerSize] []
  | .loadField => ∃ item, FieldShape env i item ∧ e.Sizes [env.pointerSize] [item.size]
  | .loadFieldAddress | .loadLength | .isInstance | .castClass =>
    e.Sizes [env.pointerSize] [env.pointerSize]
  | .storeField => ∃ item, FieldShape env i item ∧ e.Sizes [item.size, env.pointerSize] []
  | .loadStatic => ∃ item, FieldShape env i item ∧ e.Sizes [] [item.size]
  | .storeStatic => ∃ item, FieldShape env i item ∧ e.Sizes [item.size] []
  | .newArray => e.Sizes [4] [env.pointerSize]
  | .loadElement kind =>
    ∃ item, KindShape env i kind item ∧ e.Sizes [4, env.pointerSize] [item.size]
  | .loadElementAddress => e.Sizes [4, env.pointerSize] [env.pointerSize]
  | .storeElement kind =>
    ∃ item, KindShape env i kind item ∧ e.Sizes [item.size, 4, env.pointerSize] []
  | .call => ∃ m, env.tables.resolveMethod i = .ok m ∧ CallSizes env i e [] m !m.isStatic
  | .callIndirect =>
    ∃ m, env.tables.resolveMethod i = .ok m ∧ CallSizes env i e [env.pointerSize] m !m.isStatic
  | .callVirtual => ∃ m, env.tables.resolveMethod i = .ok m ∧ CallSizes env i e [] m true
  | .newObject =>
    ∃ ctor declaring, env.tables.resolveMethod i = .ok ctor ∧
      env.tables.typeFor i ctor.declaringType = .ok declaring ∧
      if declaring.isDelegate then e.Sizes [env.pointerSize, env.pointerSize] [env.pointerSize]
      else
        ∃ items, TypeShapes env i ctor.params items ∧
          e.Sizes (items.reverse.map StackItem.size) [env.pointerSize]
  | .throw | .initObject => e.Sizes [env.pointerSize] []

/-- The stack with the popped items replaced by the pushed ones. -/
structure Exchange (env : SimEnv) (i : Instruction) (stack : OperandStack) (e : Effect)
    (stack' : OperandStack) : Prop where
  below : ∃ rest, stack = e.popped ++ rest ∧ stack' = e.pushed.reverse ++ rest
  sizes : Exchanges env i stack e i.op.operation

/-! ## Runs of simulation steps -/

namespace Sim

variable {env : SimEnv} {i : Instruction} {s s' : SimState}

theorem lift_ok {α : Type} {x : Except CompileError α} {a : α} :
    lift x s = .ok a s' ↔ x = .ok a ∧ s = s' := by
  cases x with
  | ok b =>
    show EStateM.Result.ok b s = .ok a s' ↔ _
    simp
  | error e =>
    show EStateM.Result.error e s = .ok a s' ↔ _
    simp

/-- The state once `popped` is popped and then `pushed` is pushed. -/
structure Trades (s : SimState) (popped pushed : List StackItem) (s' : SimState) : Prop where
  below : ∃ rest, s.stack = popped ++ rest ∧ s'.stack = pushed.reverse ++ rest
  popped : s'.effect.popped = s.effect.popped ++ popped
  pushed : s'.effect.pushed = s.effect.pushed ++ pushed

theorem Trades.refl (s : SimState) : Trades s [] [] s :=
  ⟨⟨s.stack, rfl, rfl⟩, (List.append_nil _).symm, (List.append_nil _).symm⟩

theorem Trades.pops {t : SimState} {xs ys zs : List StackItem} (h : Trades s xs [] t)
    (h' : Trades t ys zs s') : Trades s (xs ++ ys) zs s' := by
  obtain ⟨rest, hs, ht⟩ := h.below
  obtain ⟨rest', ht', hs'⟩ := h'.below
  have hrest : rest = ys ++ rest' := ht.symm.trans ht'
  refine ⟨⟨rest', ?_, hs'⟩, ?_, ?_⟩
  · rw [hs, hrest, List.append_assoc]
  · rw [h'.popped, h.popped, List.append_assoc]
  · rw [h'.pushed, h.pushed, List.append_nil]

theorem push_ok {item : StackItem} (h : push i item s = .ok () s') : Trades s [] [item] s' := by
  unfold push at h
  split at h
  · cases h
  · cases h
    exact ⟨⟨s.stack, rfl, rfl⟩, (List.append_nil _).symm, rfl⟩

theorem pop_ok {item : StackItem} (h : pop i s = .ok item s') : Trades s [item] [] s' := by
  obtain ⟨t, _, hget, h⟩ := bind_eq_ok.mp h
  cases hget
  obtain ⟨⟨top, rest⟩, _, hpop, h⟩ := bind_eq_ok.mp h
  obtain ⟨hpop, rfl⟩ := lift_ok.mp hpop
  cases hstack : s.stack with
  | nil =>
    rw [hstack] at hpop
    cases hpop
  | cons item' rest' =>
    rw [hstack] at hpop
    cases hpop
    obtain ⟨_, t, hmodify, h⟩ := bind_eq_ok.mp h
    cases hmodify
    dsimp only at h
    split at h
    · cases h
    · cases h
      exact ⟨⟨rest, hstack, rfl⟩, rfl, (List.append_nil _).symm⟩

/-- Items of these sizes are popped, and then others are pushed. -/
def Swaps (s : SimState) (popped pushed : List Nat) (s' : SimState) : Prop :=
  ∃ e : Effect, Trades s e.popped e.pushed s' ∧ e.Sizes popped pushed

namespace Swaps

variable {popped pushed xs ys zs : List Nat} {op : Operation}

theorem refl (s : SimState) : Swaps s [] [] s := ⟨{}, .refl s, rfl, rfl⟩

theorem pops {t : SimState} (h : Swaps s xs [] t) (h' : Swaps t ys zs s') : Swaps s (xs ++ ys) zs s' := by
  obtain ⟨⟨popped, pushed⟩, htrade, hsizes⟩ := h
  obtain ⟨⟨popped', pushed'⟩, htrade', hsizes'⟩ := h'
  obtain rfl : pushed = [] := List.map_eq_nil_iff.mp hsizes.pushed
  refine ⟨⟨popped ++ popped', pushed'⟩, htrade.pops htrade', ?_, hsizes'.pushed⟩
  rw [List.map_append, hsizes.popped, hsizes'.popped]

theorem push {t : SimState} (h : Swaps s xs [] t) (h' : Swaps t [] ys s') : Swaps s xs ys s' := by
  rw [← List.append_nil xs]
  exact h.pops h'

theorem seq {x y : Sim Unit} (hx : ∀ {s t}, x s = .ok () t → Swaps s xs [] t)
    (hy : ∀ {s t}, y s = .ok () t → Swaps s ys zs t) (h : (x >>= fun _ => y) s = .ok () s') :
    Swaps s (xs ++ ys) zs s' := by
  obtain ⟨_, t, hfirst, hsecond⟩ := bind_eq_ok.mp h
  exact (hx hfirst).pops (hy hsecond)

theorem exchanges (h : Swaps s popped pushed s')
    (hop : ∀ {e : Effect}, e.Sizes popped pushed → Exchanges env i s.stack e op) :
    ∃ e : Effect, Trades s e.popped e.pushed s' ∧ Exchanges env i s.stack e op := by
  obtain ⟨e, htrade, hsizes⟩ := h
  exact ⟨e, htrade, hop hsizes⟩

end Swaps

theorem push_swaps {item : StackItem} (h : push i item s = .ok () s') : Swaps s [] [item.size] s' :=
  ⟨⟨[], [item]⟩, push_ok h, rfl, rfl⟩

theorem pop_swaps {item : StackItem} (h : pop i s = .ok item s') : Swaps s [item.size] [] s' :=
  ⟨⟨[item], []⟩, pop_ok h, rfl, rfl⟩

theorem popSized_swaps {size : Nat} (h : popSized i size s = .ok () s') : Swaps s [size] [] s' := by
  obtain ⟨item, t, hpop, h⟩ := bind_eq_ok.mp h
  split at h
  · cases h
  · rename_i hsize
    cases h
    rw [← not_not.mp hsize]
    exact pop_swaps hpop

theorem popObject_swaps (h : popObject env i s = .ok () s') : Swaps s [env.pointerSize] [] s' :=
  popSized_swaps h

theorem popInt_ok {item : StackItem} (h : popInt i s = .ok item s') :
    IntegerSize item.size ∧ Swaps s [item.size] [] s' := by
  obtain ⟨top, t, hpop, h⟩ := bind_eq_ok.mp h
  dsimp only at h
  split at h
  · cases h
  · rename_i hsize
    cases h
    refine ⟨?_, pop_swaps hpop⟩
    unfold IntegerSize
    omega

theorem popPair_ok {size : Nat} (h : popPair i s = .ok size s') :
    IntegerSize size ∧ Swaps s [size, size] [] s' := by
  obtain ⟨b, t, hb, h⟩ := bind_eq_ok.mp h
  obtain ⟨a, u, ha, h⟩ := bind_eq_ok.mp h
  obtain ⟨-, hpopb⟩ := popInt_ok hb
  obtain ⟨hint, hpopa⟩ := popInt_ok ha
  dsimp only at h
  split at h
  · cases h
  · rename_i hsize
    cases h
    rw [← not_not.mp hsize] at hpopb
    exact ⟨hint, hpopb.pops hpopa⟩

theorem discard_ok {α : Type} {x : Sim α} (h : Functor.discard x s = .ok () s') :
    ∃ a, x s = .ok a s' := by
  obtain ⟨a, t, hx, hpure⟩ := bind_eq_ok.mp h
  cases hpure
  exact ⟨a, hx⟩

theorem lookup_swaps {α : Type} {answer : Except CompileError α}
    (h : Functor.discard (lift answer) s = .ok () s') : Swaps s [] [] s' := by
  obtain ⟨_, h⟩ := discard_ok h
  obtain ⟨-, rfl⟩ := lift_ok.mp h
  exact .refl s

theorem popAll_ok (h : popAll i s = .ok () s') : Trades s s.stack [] s' := by
  have hpops : ∀ (xs : List StackItem) (t : SimState),
      xs.forM (fun _ => Functor.discard (pop i)) t = .ok () s' → xs.length = t.stack.length →
      Trades t t.stack [] s' := by
    intro xs
    induction xs with
    | nil =>
      intro t hforM hlength
      obtain ⟨-, rfl⟩ := EStateM.Result.ok.inj hforM
      rw [List.eq_nil_of_length_eq_zero hlength.symm]
      exact .refl t
    | cons x xs ih =>
      intro t hforM hlength
      obtain ⟨u, hpop, hrest⟩ := forM_cons_eq_ok.mp hforM
      obtain ⟨item, hpop⟩ := discard_ok hpop
      have htrade := pop_ok hpop
      obtain ⟨rest, ht, hu⟩ := htrade.below
      rw [ht] at hlength ⊢
      have hstack : u.stack = rest := hu
      rw [← hstack] at hlength ⊢
      exact htrade.pops (ih u hrest (by simpa using hlength))
  exact hpops s.stack s h rfl

theorem typeItem_ok {id : TypeId} {item : StackItem} (h : typeItem env i id s = .ok item s') :
    (env.tables.typeFor i id).map (TypeDescriptor.stackItem env.pointerSize) = .ok item ∧ s = s' :=
  lift_ok.mp h

theorem valueItem_ok {kind : ValueKind} {item : StackItem} (h : valueItem env i kind s = .ok item s') :
    KindShape env i kind item ∧ s = s' := by
  unfold KindShape
  cases kind with
  | typed =>
    obtain ⟨htype, rfl⟩ := lift_ok.mp h
    rw [valueItem, htype]
    exact ⟨rfl, rfl⟩
  | i1 | u1 | i2 | u2 | i4 | u4 | i8 | i | r4 | r8 | ref =>
    obtain ⟨rfl, rfl⟩ := EStateM.Result.ok.inj h
    exact ⟨rfl, rfl⟩

theorem popArguments_ok {params : List TypeId} (h : popArguments env i params s = .ok () s') :
    ∃ items, TypeShapes env i params items ∧ Swaps s (items.reverse.map StackItem.size) [] s' := by
  have hpops : ∀ (ids : List TypeId) (t : SimState),
      ids.forM (fun id => typeItem env i id >>= fun item => popSized i item.size) t = .ok () s' →
      ∃ items, TypeShapes env i ids items ∧ Swaps t (items.map StackItem.size) [] s' := by
    intro ids
    induction ids with
    | nil =>
      intro t hforM
      obtain ⟨-, rfl⟩ := EStateM.Result.ok.inj hforM
      exact ⟨[], .nil, .refl t⟩
    | cons id ids ih =>
      intro t hforM
      obtain ⟨u, hfirst, hrest⟩ := forM_cons_eq_ok.mp hforM
      obtain ⟨item, _, htype, hpop⟩ := bind_eq_ok.mp hfirst
      obtain ⟨hitem, rfl⟩ := typeItem_ok htype
      obtain ⟨items, hshapes, hswaps⟩ := ih u hrest
      exact ⟨item :: items, .cons hitem hshapes, (popSized_swaps hpop).pops hswaps⟩
  obtain ⟨items, hshapes, hswaps⟩ := hpops params.reverse s h
  refine ⟨items.reverse, ?_, by rwa [List.reverse_reverse]⟩
  have hreverse := List.forall₂_reverse_iff.mpr hshapes
  rwa [List.reverse_reverse] at hreverse

theorem argument_ok {slot : FrameSlot} (h : argument env i s = .ok slot s') :
    SelectsSlot env.frame.args i slot ∧ s = s' := by
  obtain ⟨index, _, hlift, h⟩ := bind_eq_ok.mp h
  obtain ⟨hindex, rfl⟩ := lift_ok.mp hlift
  cases hslot : env.frame.args[index]? with
  | none =>
    rw [hslot] at h
    cases h
  | some slot' =>
    rw [hslot] at h
    obtain ⟨rfl, rfl⟩ := EStateM.Result.ok.inj h
    exact ⟨⟨index, hindex, hslot⟩, rfl⟩

theorem localSlot_ok {slot : FrameSlot} (h : localSlot env i s = .ok slot s') :
    SelectsSlot env.frame.locals i slot ∧ s = s' := by
  obtain ⟨index, _, hlift, h⟩ := bind_eq_ok.mp h
  obtain ⟨hindex, rfl⟩ := lift_ok.mp hlift
  cases hslot : env.frame.locals[index]? with
  | none =>
    rw [hslot] at h
    cases h
  | some slot' =>
    rw [hslot] at h
    obtain ⟨rfl, rfl⟩ := EStateM.Result.ok.inj h
    exact ⟨⟨index, hindex, hslot⟩, rfl⟩

theorem argument_swaps (h : Functor.discard (argument env i) s = .ok () s') : Swaps s [] [] s' := by
  obtain ⟨_, h⟩ := discard_ok h
  obtain ⟨-, rfl⟩ := argument_ok h
  exact .refl s

theorem localSlot_swaps (h : Functor.discard (localSlot env i) s = .ok () s') : Swaps s [] [] s' := by
  obtain ⟨_, h⟩ := discard_ok h
  obtain ⟨-, rfl⟩ := localSlot_ok h
  exact .refl s

theorem fieldItem_ok {field : FieldDescriptor} {item : StackItem}
    (hfield : env.tables.resolveField i = .ok field)
    (h : typeItem env i field.fieldType s = .ok item s') : FieldShape env i item ∧ s = s' := by
  obtain ⟨hitem, rfl⟩ := typeItem_ok h
  obtain ⟨t, ht, rfl⟩ := answer_map.mp hitem
  exact ⟨⟨field, t, hfield, ht, rfl⟩, rfl⟩

theorem instanceField_ok {item : StackItem} (h : instanceField env i s = .ok item s') :
    FieldShape env i item ∧ s = s' := by
  obtain ⟨field, _, hlift, h⟩ := bind_eq_ok.mp h
  obtain ⟨hfield, rfl⟩ := lift_ok.mp hlift
  dsimp only at h
  split at h
  · cases h
  · exact fieldItem_ok hfield h

theorem staticField_ok {item : StackItem} (h : staticField env i s = .ok item s') :
    FieldShape env i item ∧ s = s' := by
  obtain ⟨field, _, hlift, h⟩ := bind_eq_ok.mp h
  obtain ⟨hfield, rfl⟩ := lift_ok.mp hlift
  dsimp only at h
  split at h
  · cases h
  · exact fieldItem_ok hfield h

theorem instanceField_swaps (h : Functor.discard (instanceField env i) s = .ok () s') :
    Swaps s [] [] s' := by
  obtain ⟨_, h⟩ := discard_ok h
  obtain ⟨-, rfl⟩ := instanceField_ok h
  exact .refl s

theorem staticField_swaps (h : Functor.discard (staticField env i) s = .ok () s') : Swaps s [] [] s' := by
  obtain ⟨_, h⟩ := discard_ok h
  obtain ⟨-, rfl⟩ := staticField_ok h
  exact .refl s

theorem token_swaps (h : token env i s = .ok () s') : Swaps s [] [] s' := by
  unfold token at h
  split at h
  · exact lookup_swaps h
  · split at h
    · exact lookup_swaps h
    · exact lookup_swaps h

/-! ### Calls -/

theorem pushReturned_ok {m : MethodDescriptor} (h : pushReturned env i m s = .ok () s') :
    ∃ result, TypeShapes env i m.returnType.toList result ∧ Swaps s [] (result.map StackItem.size) s' := by
  unfold pushReturned at h
  cases hreturn : m.returnType with
  | none =>
    rw [hreturn] at h
    obtain ⟨-, rfl⟩ := EStateM.Result.ok.inj h
    exact ⟨[], .nil, .refl s⟩
  | some id =>
    rw [hreturn] at h
    obtain ⟨item, _, htype, hpush⟩ := bind_eq_ok.mp h
    obtain ⟨hitem, rfl⟩ := typeItem_ok htype
    exact ⟨[item], .cons hitem .nil, push_swaps hpush⟩

/-- The arguments and the receiver of a call are popped, and its result is pushed. -/
theorem call_ok {m : MethodDescriptor} {onReceiver : Bool} (h : call env i m onReceiver s = .ok () s') :
    ∃ items result, TypeShapes env i m.params items ∧ TypeShapes env i m.returnType.toList result ∧
      Swaps s (items.reverse.map StackItem.size ++ if onReceiver then [env.pointerSize] else [])
        (result.map StackItem.size) s' := by
  rw [call_eq] at h
  obtain ⟨_, t, hargs, h⟩ := bind_eq_ok.mp h
  obtain ⟨items, hitems, hpops⟩ := popArguments_ok hargs
  cases onReceiver with
  | false =>
    obtain ⟨result, hresult, hpush⟩ := pushReturned_ok h
    exact ⟨items, result, hitems, hresult, hpops.pops hpush⟩
  | true =>
    obtain ⟨_, u, hreceiver, h⟩ := bind_eq_ok.mp h
    obtain ⟨result, hresult, hpush⟩ := pushReturned_ok h
    exact ⟨items, result, hitems, hresult, hpops.pops ((popObject_swaps hreceiver).push hpush)⟩

theorem newObject_ok (h : newObject env i s = .ok () s') :
    ∃ e : Effect, Trades s e.popped e.pushed s' ∧ Exchanges env i s.stack e .newObject := by
  obtain ⟨ctor, _, hlift, h⟩ := bind_eq_ok.mp h
  obtain ⟨hctor, rfl⟩ := lift_ok.mp hlift
  obtain ⟨declaring, _, hlift', h⟩ := bind_eq_ok.mp h
  obtain ⟨hdeclaring, rfl⟩ := lift_ok.mp hlift'
  dsimp only at h
  split at h
  · cases h
  · split at h
    · rename_i hdelegate
      refine (Swaps.seq popObject_swaps (.seq popObject_swaps push_swaps) h).exchanges fun hsizes =>
        ⟨ctor, declaring, hctor, hdeclaring, ?_⟩
      rwa [if_pos hdelegate]
    · rename_i hdelegate
      obtain ⟨_, t, hargs, hpush⟩ := bind_eq_ok.mp h
      obtain ⟨items, hitems, hpops⟩ := popArguments_ok hargs
      refine (hpops.push (push_swaps hpush)).exchanges fun hsizes => ⟨ctor, declaring, hctor, hdeclaring, ?_⟩
      rw [if_neg hdelegate]
      exact ⟨items, hitems, hsizes⟩

/-! ### Operations -/

theorem loadConst_ok (h : operate env i .loadConst s = .ok () s') :
    Swaps s [] [if i.op = .ldcI8 then 8 else 4] s' := by
  simp only [operate] at h
  split at h
  · rename_i hop
    rw [if_pos hop]
    exact .seq lookup_swaps push_swaps h
  · rename_i hop
    rw [if_neg hop]
    exact .seq lookup_swaps push_swaps h

theorem ret_ok (h : operate env i .ret s = .ok () s') :
    Swaps s (env.frame.returnItem.toList.map StackItem.size) [] s' := by
  simp only [operate] at h
  -- the check of what is left changes nothing
  have hcheck : ∀ {t : SimState}, (do
      let stack := (← get).stack
      if !stack.isEmpty then
        throw (i.stackShape (.leftAtReturn stack.height)) : Sim Unit) t = .ok () s' → t = s' := by
    intro t hcheck
    obtain ⟨_, _, hget, hcheck⟩ := bind_eq_ok.mp hcheck
    cases hget
    split at hcheck
    · cases hcheck
    · exact (EStateM.Result.ok.inj hcheck).2
  cases hreturn : env.frame.returnItem with
  | none =>
    rw [hreturn] at h
    obtain rfl := hcheck h
    exact .refl s
  | some item =>
    rw [hreturn] at h
    obtain ⟨_, t, hpop, h⟩ := bind_eq_ok.mp h
    obtain rfl := hcheck h
    exact popSized_swaps hpop

/-- Everything that a successful operation can have done to the stack. -/
theorem operate_ok {op : Operation} (h : operate env i op s = .ok () s') :
    ∃ e : Effect, Trades s e.popped e.pushed s' ∧ Exchanges env i s.stack e op := by
  cases op with
  | nop | methodStart | methodEnd =>
    obtain ⟨-, rfl⟩ := EStateM.Result.ok.inj h
    exact (Swaps.refl s).exchanges id
  | loadArg =>
    obtain ⟨slot, _, hslot, h⟩ := bind_eq_ok.mp h
    obtain ⟨hselects, rfl⟩ := argument_ok hslot
    exact (push_swaps h).exchanges fun hsizes => ⟨slot, hselects, hsizes⟩
  | loadLocal =>
    obtain ⟨slot, _, hslot, h⟩ := bind_eq_ok.mp h
    obtain ⟨hselects, rfl⟩ := localSlot_ok hslot
    exact (push_swaps h).exchanges fun hsizes => ⟨slot, hselects, hsizes⟩
  | loadArgAddress => exact (Swaps.seq argument_swaps push_swaps h).exchanges id
  | loadLocalAddress => exact (Swaps.seq localSlot_swaps push_swaps h).exchanges id
  | storeArg =>
    obtain ⟨slot, _, hslot, h⟩ := bind_eq_ok.mp h
    obtain ⟨hselects, rfl⟩ := argument_ok hslot
    exact (popSized_swaps h).exchanges fun hsizes => ⟨slot, hselects, hsizes⟩
  | storeLocal =>
    obtain ⟨slot, _, hslot, h⟩ := bind_eq_ok.mp h
    obtain ⟨hselects, rfl⟩ := localSlot_ok hslot
    exact (popSized_swaps h).exchanges fun hsizes => ⟨slot, hselects, hsizes⟩
  | loadConst => exact (loadConst_ok h).exchanges id
  | loadNull => exact (push_swaps h).exchanges id
  | loadString | loadFunction | sizeOf => exact (Swaps.seq lookup_swaps push_swaps h).exchanges id
  | loadToken => exact (Swaps.seq token_swaps push_swaps h).exchanges id
  | dup =>
    obtain ⟨_, _, hget, h⟩ := bind_eq_ok.mp h
    cases hget
    unfold Exchanges
    cases hstack : s.stack with
    | nil =>
      rw [hstack] at h
      cases h
    | cons top rest =>
      rw [hstack] at h
      exact ⟨⟨[], [top.stored]⟩, push_ok h, top, rest, rfl, rfl, rfl⟩
  | pop =>
    obtain ⟨top, hpop⟩ := discard_ok h
    have htrade := pop_ok hpop
    obtain ⟨rest, hstack, -⟩ := htrade.below
    exact ⟨⟨[top], []⟩, htrade, top, rest, hstack, rfl, rfl⟩
  | branch condition =>
    cases condition with
    | always =>
      obtain ⟨-, rfl⟩ := EStateM.Result.ok.inj h
      exact (Swaps.refl s).exchanges id
    | isTrue | isFalse =>
      obtain ⟨item, hpop⟩ := discard_ok h
      obtain ⟨hint, hpops⟩ := popInt_ok hpop
      exact hpops.exchanges fun hsizes => ⟨item.size, hint, hsizes⟩
    | eq | neUn | ge | gt | le | lt | geUn | gtUn | leUn | ltUn =>
      obtain ⟨n, hpop⟩ := discard_ok h
      obtain ⟨hint, hpops⟩ := popPair_ok hpop
      exact hpops.exchanges fun hsizes => ⟨n, hint, hsizes⟩
  | switch => exact (popSized_swaps h).exchanges id
  | leave => exact ⟨⟨s.stack, []⟩, popAll_ok h, rfl, rfl⟩
  | ret => exact (ret_ok h).exchanges id
  | binary op =>
    obtain ⟨n, t, hpop, h⟩ := bind_eq_ok.mp h
    obtain ⟨hint, hpops⟩ := popPair_ok hpop
    dsimp only at h
    split at h
    · cases h
    · rename_i hdivision
      refine (hpops.push (push_swaps h)).exchanges fun hsizes => ⟨n, hint, fun hn => ?_, hsizes⟩
      simpa [hn] using hdivision
  | unary op =>
    obtain ⟨item, t, hpop, h⟩ := bind_eq_ok.mp h
    obtain ⟨hint, hpops⟩ := popInt_ok hpop
    exact (hpops.push (push_swaps h)).exchanges fun hsizes => ⟨item.size, hint, hsizes⟩
  | shift op =>
    obtain ⟨_, t, hcount, h⟩ := bind_eq_ok.mp h
    obtain ⟨count, hcount⟩ := discard_ok hcount
    obtain ⟨item, u, hpop, h⟩ := bind_eq_ok.mp h
    obtain ⟨hcountInt, hcountPops⟩ := popInt_ok hcount
    obtain ⟨hint, hpops⟩ := popInt_ok hpop
    exact (hcountPops.pops (hpops.push (push_swaps h))).exchanges fun hsizes =>
      ⟨item.size, count.size, hint, hcountInt, hsizes⟩
  | compare op =>
    obtain ⟨_, t, hpop, h⟩ := bind_eq_ok.mp h
    obtain ⟨n, hpop⟩ := discard_ok hpop
    obtain ⟨hint, hpops⟩ := popPair_ok hpop
    exact (hpops.push (push_swaps h)).exchanges fun hsizes => ⟨n, hint, hsizes⟩
  | convert target =>
    cases target with
    | none => cases h
    | some target =>
      obtain ⟨_, t, hpop, h⟩ := bind_eq_ok.mp h
      obtain ⟨item, hpop⟩ := discard_ok hpop
      obtain ⟨hint, hpops⟩ := popInt_ok hpop
      refine (hpops.push (push_swaps h)).exchanges fun hsizes => ⟨item.size, hint, ?_⟩
      rwa [apply_ite StackItem.size] at hsizes
  | loadIndirect kind =>
    obtain ⟨item, _, hitem, h⟩ := bind_eq_ok.mp h
    obtain ⟨hshape, rfl⟩ := valueItem_ok hitem
    exact (Swaps.seq popObject_swaps push_swaps h).exchanges fun hsizes => ⟨item, hshape, hsizes⟩
  | storeIndirect kind =>
    obtain ⟨item, _, hitem, h⟩ := bind_eq_ok.mp h
    obtain ⟨hshape, rfl⟩ := valueItem_ok hitem
    exact (Swaps.seq popSized_swaps popObject_swaps h).exchanges fun hsizes => ⟨item, hshape, hsizes⟩
  | loadField =>
    obtain ⟨item, _, hitem, h⟩ := bind_eq_ok.mp h
    obtain ⟨hshape, rfl⟩ := instanceField_ok hitem
    exact (Swaps.seq popObject_swaps push_swaps h).exchanges fun hsizes => ⟨item, hshape, hsizes⟩
  | loadFieldAddress =>
    exact (Swaps.seq instanceField_swaps (.seq popObject_swaps push_swaps) h).exchanges id
  | storeField =>
    obtain ⟨item, _, hitem, h⟩ := bind_eq_ok.mp h
    obtain ⟨hshape, rfl⟩ := instanceField_ok hitem
    exact (Swaps.seq popSized_swaps popObject_swaps h).exchanges fun hsizes => ⟨item, hshape, hsizes⟩
  | loadStatic =>
    obtain ⟨item, _, hitem, h⟩ := bind_eq_ok.mp h
    obtain ⟨hshape, rfl⟩ := staticField_ok hitem
    exact (push_swaps h).exchanges fun hsizes => ⟨item, hshape, hsizes⟩
  | loadStaticAddress => exact (Swaps.seq staticField_swaps push_swaps h).exchanges id
  | storeStatic =>
    obtain ⟨item, _, hitem, h⟩ := bind_eq_ok.mp h
    obtain ⟨hshape, rfl⟩ := staticField_ok hitem
    exact (popSized_swaps h).exchanges fun hsizes => ⟨item, hshape, hsizes⟩
  | newArray => exact (Swaps.seq lookup_swaps (.seq popSized_swaps push_swaps) h).exchanges id
  | loadLength => exact (Swaps.seq popObject_swaps push_swaps h).exchanges id
  | loadElement kind =>
    obtain ⟨item, _, hitem, h⟩ := bind_eq_ok.mp h
    obtain ⟨hshape, rfl⟩ := valueItem_ok hitem
    exact (Swaps.seq popSized_swaps (.seq popObject_swaps push_swaps) h).exchanges fun hsizes =>
      ⟨item, hshape, hsizes⟩
  | loadElementAddress =>
    exact (Swaps.seq lookup_swaps (.seq popSized_swaps (.seq popObject_swaps push_swaps)) h).exchanges id
  | storeElement kind =>
    obtain ⟨item, _, hitem, h⟩ := bind_eq_ok.mp h
    obtain ⟨hshape, rfl⟩ := valueItem_ok hitem
    exact (Swaps.seq popSized_swaps (.seq popSized_swaps popObject_swaps) h).exchanges fun hsizes =>
      ⟨item, hshape, hsizes⟩
  | call =>
    obtain ⟨m, _, hlift, h⟩ := bind_eq_ok.mp h
    obtain ⟨hm, rfl⟩ := lift_ok.mp hlift
    obtain ⟨items, result, hitems, hresult, hswaps⟩ := call_ok h
    exact hswaps.exchanges fun hsizes => ⟨m, hm, items, result, hitems, hresult, hsizes⟩
  | callIndirect =>
    obtain ⟨m, _, hlift, h⟩ := bind_eq_ok.mp h
    obtain ⟨hm, rfl⟩ := lift_ok.mp hlift
    obtain ⟨_, t, hpop, h⟩ := bind_eq_ok.mp h
    obtain ⟨items, result, hitems, hresult, hswaps⟩ := call_ok h
    exact ((popObject_swaps hpop).pops hswaps).exchanges fun hsizes =>
      ⟨m, hm, items, result, hitems, hresult, hsizes⟩
  | callVirtual =>
    obtain ⟨m, _, hlift, h⟩ := bind_eq_ok.mp h
    obtain ⟨hm, rfl⟩ := lift_ok.mp hlift
    dsimp only at h
    split at h
    · cases h
    · obtain ⟨items, result, hitems, hresult, hswaps⟩ := call_ok h
      exact hswaps.exchanges fun hsizes => ⟨m, hm, items, result, hitems, hresult, hsizes⟩
  | newObject => exact newObject_ok h
  | isInstance | castClass =>
    exact (Swaps.seq lookup_swaps (.seq popObject_swaps push_swaps) h).exchanges id
  | throw => exact (popObject_swaps h).exchanges id
  | initObject => exact (Swaps.seq lookup_swaps popObject_swaps h).exchanges id

end Sim

/-- What a successful simulation has done to the stack. -/
theorem simulate_exchange {env : SimEnv} {i : Instruction} {stack stack' : OperandStack} {e : Effect}
    (h : simulate env i stack = .ok e stack') : Exchange env i stack e stack' := by
  unfold simulate at h
  split at h
  · cases h
  · split at h
    · rename_i s hrun
      obtain ⟨rfl, rfl⟩ := EStateM.Result.ok.inj h
      obtain ⟨e, htrade, hexchanges⟩ := Sim.operate_ok hrun
      have heffect : s.effect = e := by
        have hpopped := htrade.popped
        have hpushed := htrade.pushed
        cases heffect : s.effect with
        | mk popped' pushed' =>
          rw [heffect] at hpopped hpushed
          simp_all
      rw [heffect]
      exact ⟨htrade.below, hexchanges⟩
    · cases h

end Stencil
