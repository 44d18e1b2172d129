import Stencil.Proofs.Simulation.Effects
import Stencil.Target.Basic

/-!
# Simulation and emission see the same sizes

Templates look up descriptors and frame slots again that the simulation has looked up. Under
`Matches` both find the same sizes: a value takes as many words on the stack as in memory.
-/

namespace Stencil

open Stateful

/-- An instruction that is neither a bracket of the method nor a throw. -/
theorem operation_of_returning {op : Opcode} (hpseudo : op.isPseudo = false) (hthrow : op ≠ .throw) :
    op.operation ≠ .methodStart ∧ op.operation ≠ .methodEnd ∧ op.operation ≠ .throw := by
  refine ⟨fun h => ?_, fun h => ?_, fun h => ?_⟩
  all_goals
    cases op <;> first
      | exact absurd rfl hthrow
      | (cases h; done)
      | cases hpseudo

/-- The type that the instruction refers to, or that of the field it refers to. -/
inductive Touches (env : SimEnv) (i : Instruction) (t : TypeDescriptor) : Prop
  | type (htype : env.tables.resolveType i = .ok t)
  | field {field : FieldDescriptor} (hfield : env.tables.resolveField i = .ok field)
      (htype : env.tables.typeFor i field.fieldType = .ok t)

/-- The items that the template copies word by word: the slot it loads or stores, the value it
returns, and the value it duplicates. -/
inductive Copies (env : SimEnv) (i : Instruction) (stack : OperandStack) : StackItem → Prop
  | arg {slot : FrameSlot} (hop : i.op.operation = .loadArg ∨ i.op.operation = .storeArg)
      (hslot : SelectsSlot env.frame.args i slot) : Copies env i stack slot.item
  | local {slot : FrameSlot} (hop : i.op.operation = .loadLocal ∨ i.op.operation = .storeLocal)
      (hslot : SelectsSlot env.frame.locals i slot) : Copies env i stack slot.item
  | result {item : StackItem} (hop : i.op.operation = .ret)
      (hreturn : env.frame.returnItem = some item) : Copies env i stack item
  | top {item : StackItem} {rest : OperandStack} (hop : i.op.operation = .dup)
      (hstack : stack = item :: rest) : Copies env i stack item

/-- What a template is made for is what the simulation ran on: pointers of one word, copied items of
whole words, and value types that take as many words in memory as on the stack. -/
structure Matches (ctx : EmitContext) (env : SimEnv) (i : Instruction) (stack : OperandStack) :
    Prop where
  tables : ctx.tables = env.tables
  frame : ctx.frame = env.frame
  options : ctx.options.pointerSize = 4
  pointerSize : env.pointerSize = 4
  items : ∀ item, Copies env i stack item → 4 ∣ item.size
  types : ∀ t, Touches env i t → t.isValueType = true →
    4 * ((t.heapSize + 3) / 4) = (t.stackItem env.pointerSize).size

namespace Matches

variable {ctx : EmitContext} {env : SimEnv} {i : Instruction} {stack : OperandStack}
  (h : Matches ctx env i stack)

include h

/-- A value takes as many words in memory as on the stack. -/
theorem words_of_type {t : TypeDescriptor} (htouches : Touches env i t) :
    4 * (((Access.ofType ctx.options.pointerSize t).storage + 3) / 4) =
      (t.stackItem env.pointerSize).size := by
  simp only [Access.ofType, TypeDescriptor.storageSize]
  split
  · rename_i hvalue
    exact h.types t htouches hvalue
  · rename_i hvalue
    rw [TypeDescriptor.stackItem, if_pos (by simp [hvalue]), h.options, h.pointerSize]
    rfl

theorem words_of_field {field : FieldDescriptor} {access : Access} {item : StackItem}
    (hshape : FieldShape env i item) (haccess : ctx.fieldAccess i = .ok (field, access)) :
    4 * ((access.storage + 3) / 4) = item.size := by
  obtain ⟨field', t, hfield, htype, rfl⟩ := hshape
  obtain ⟨field'', hfield', haccess⟩ := answer_bind.mp haccess
  obtain ⟨t', htype', haccess⟩ := answer_bind.mp haccess
  rw [h.tables, hfield] at hfield'
  obtain rfl := Except.ok.inj hfield'
  rw [h.tables, htype] at htype'
  obtain rfl := Except.ok.inj htype'
  obtain ⟨rfl, rfl⟩ := Prod.mk.inj (Except.ok.inj haccess)
  exact h.words_of_type (.field hfield htype)

theorem words_of_kind {kind : ValueKind} {access : Access} {item : StackItem}
    (hshape : KindShape env i kind item) (haccess : ctx.kindAccess i kind = .ok access) :
    4 * ((access.storage + 3) / 4) = item.size := by
  unfold EmitContext.kindAccess Access.ofKind at haccess
  -- a step that returns an item returns no other
  have hitem : ∀ {item' : StackItem}, Sim.valueItem env i kind = pure item' → item' = item := by
    intro item' hvalue
    have hpure : (pure item' : Sim StackItem) = pure item := hvalue.symm.trans hshape
    exact (EStateM.Result.ok.inj (congrFun hpure { stack })).1
  cases kind with
  | typed =>
    obtain ⟨t, htype, rfl⟩ := answer_map.mp haccess
    rw [h.tables] at htype
    have hvalue : Sim.valueItem env i .typed = pure (t.stackItem env.pointerSize) := by
      simp only [Sim.valueItem, htype]
      rfl
    rw [← hitem hvalue]
    exact h.words_of_type (.type htype)
  | i | ref =>
    obtain rfl := Except.ok.inj haccess
    rw [← hitem rfl]
    simp [h.options, StackItem.nativeInt, StackItem.value, StackItem.reference, h.pointerSize]
  | i1 | u1 | i2 | u2 | i4 | u4 | i8 | r4 | r8 =>
    obtain rfl := Except.ok.inj haccess
    rw [← hitem rfl]
    rfl

theorem slot_arg {slot slot' : FrameSlot}
    (hop : i.op.operation = .loadArg ∨ i.op.operation = .storeArg)
    (hselects : SelectsSlot env.frame.args i slot) (hslot : ctx.slot i true = .ok slot') :
    slot' = slot ∧ 4 * slot.item.words = slot.item.size := by
  have hwords := Nat.mul_div_cancel' (h.items slot.item (.arg hop hselects))
  obtain ⟨index, hindex, hat⟩ := hselects
  obtain ⟨index', hindex', hslot⟩ := answer_bind.mp hslot
  obtain rfl := Except.ok.inj (hindex.symm.trans hindex')
  rw [if_pos rfl, h.frame, hat] at hslot
  refine ⟨(Except.ok.inj hslot).symm, ?_⟩
  unfold StackItem.words
  omega

theorem slot_local {slot slot' : FrameSlot}
    (hop : i.op.operation = .loadLocal ∨ i.op.operation = .storeLocal)
    (hselects : SelectsSlot env.frame.locals i slot) (hslot : ctx.slot i false = .ok slot') :
    slot' = slot ∧ 4 * slot.item.words = slot.item.size := by
  have hwords := Nat.mul_div_cancel' (h.items slot.item (.local hop hselects))
  obtain ⟨index, hindex, hat⟩ := hselects
  obtain ⟨index', hindex', hslot⟩ := answer_bind.mp hslot
  obtain rfl := Except.ok.inj (hindex.symm.trans hindex')
  rw [if_neg (by decide), h.frame, hat] at hslot
  refine ⟨(Except.ok.inj hslot).symm, ?_⟩
  unfold StackItem.words
  omega

theorem paramBytes_eq {params : List TypeId} {items : List StackItem} {bytes : Nat}
    (hshapes : TypeShapes env i params items) (hbytes : ctx.paramBytes i params = .ok bytes) :
    bytes = countBytes items := by
  obtain ⟨items', hitems', hbytes⟩ := answer_bind.mp hbytes
  have hitems := answer_mapM.mpr hshapes
  rw [h.tables, h.options, ← h.pointerSize, hitems] at hitems'
  obtain rfl := Except.ok.inj hitems'
  exact (Except.ok.inj hbytes).symm

end Matches

end Stencil
