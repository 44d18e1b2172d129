import Stencil.Proofs.Labels.Basic
import Stencil.Proofs.Simulation.Effects
import Stencil.Target.Basic

/-!
# Look-ups of templates

A template looks up slots, constants, descriptors and labels. Once an instruction is simulated and
its targets are positions of the body, every such look-up has an answer (`answered_of_simulate`),
except for one: no simulation asks for the type that declares the method of a virtual call.
-/

namespace Stencil

open Stateful

/-- What the simulation of a method reads of a context. -/
def EmitContext.simEnv (ctx : EmitContext) : SimEnv :=
  { tables := ctx.tables, frame := ctx.frame, pointerSize := ctx.options.pointerSize }

/-- The look-ups that templates of an operation make have answers. The type that declares the method
of a virtual call is not among them. -/
def Answered (ctx : EmitContext) (i : Instruction) (e : Effect) : Operation → Prop
  | .loadArg | .loadArgAddress | .storeArg => ∃ slot, ctx.slot i true = .ok slot
  | .loadLocal | .loadLocalAddress | .storeLocal => ∃ slot, ctx.slot i false = .ok slot
  | .loadConst =>
    if i.op = .ldcI8 then ∃ value, i.longConstant = .ok value else ∃ value, i.constant = .ok value
  | .loadString => ∃ literal, ctx.tables.resolveString i = .ok literal
  | .loadToken => ∃ symbol, ctx.tokenSymbol i = .ok symbol
  | .loadFunction | .call | .callVirtual => ∃ m, ctx.tables.resolveMethod i = .ok m
  | .sizeOf | .newArray | .loadElementAddress | .isInstance | .castClass | .initObject =>
    ∃ t, ctx.tables.resolveType i = .ok t
  | .loadField | .loadFieldAddress | .storeField | .loadStatic | .loadStaticAddress | .storeStatic =>
    ∃ access, ctx.fieldAccess i = .ok access
  | .loadIndirect kind | .storeIndirect kind | .loadElement kind | .storeElement kind =>
    ∃ access, ctx.kindAccess i kind = .ok access
  | .newObject =>
    ∃ ctor declaring, ctx.methodAndType i = .ok (ctor, declaring) ∧
      (declaring.isDelegate = false → ∃ bytes, ctx.paramBytes i ctor.params = .ok bytes)
  | .branch _ | .leave => ∃ t l, i.branchTarget = .ok t ∧ ctx.targetLabel i t = .ok l
  | .switch =>
    ∃ targets, i.switchTargets = .ok targets ∧ ∀ t ∈ targets, ∃ l, ctx.targetLabel i t = .ok l
  | .binary op => (e.operand 0).size = 8 → op.isDivision = false
  | .convert target => target.isSome = true
  | _ => True

section Simulated

variable {ctx : EmitContext} {i : Instruction} {s s' : SimState}

theorem slot_of_selects {slots : List FrameSlot} {isArg : Bool} {slot : FrameSlot}
    (hslots : (if isArg then ctx.frame.args else ctx.frame.locals) = slots)
    (h : SelectsSlot slots i slot) : ctx.slot i isArg = .ok slot := by
  obtain ⟨index, hindex, hslot⟩ := h
  refine answer_bind.mpr ⟨index, hindex, ?_⟩
  simp only [hslots, hslot]

theorem fieldAccess_of_shape {item : StackItem} (h : FieldShape ctx.simEnv i item) :
    ∃ access, ctx.fieldAccess i = .ok access := by
  obtain ⟨field, t, hfield, ht, -⟩ := h
  exact ⟨_, answer_bind.mpr ⟨field, hfield, answer_bind.mpr ⟨t, ht, rfl⟩⟩⟩

theorem kindAccess_of_shape {kind : ValueKind} {item : StackItem}
    (h : Sim.valueItem ctx.simEnv i kind s = .ok item s') :
    ∃ access, ctx.kindAccess i kind = .ok access := by
  cases kind with
  | typed =>
    obtain ⟨t, ht, -⟩ := answer_map.mp (Sim.lift_ok.mp h).1
    exact ⟨_, answer_map.mpr ⟨t, ht, rfl⟩⟩
  | i1 | u1 | i2 | u2 | i4 | u4 | i8 | i | r4 | r8 | ref => exact ⟨_, rfl⟩

theorem paramBytes_of_shapes {params : List TypeId} {items : List StackItem}
    (h : TypeShapes ctx.simEnv i params items) : ctx.paramBytes i params = .ok (countBytes items) :=
  answer_bind.mpr ⟨items, answer_mapM.mpr h, rfl⟩

theorem tokenSymbol_of_token (h : Sim.token ctx.simEnv i s = .ok () s') :
    ∃ symbol, ctx.tokenSymbol i = .ok symbol := by
  unfold Sim.token at h
  unfold EmitContext.tokenSymbol
  cases htype : i.typeRef with
  | some id =>
    rw [if_pos (by simp [htype])] at h
    obtain ⟨t, h⟩ := Sim.discard_ok h
    obtain ⟨ht, -⟩ := Sim.lift_ok.mp h
    rw [Table.resolveType, htype] at ht
    exact ⟨_, answer_map.mpr ⟨t, ht, rfl⟩⟩
  | none =>
    rw [if_neg (by simp [htype])] at h
    dsimp only
    split at h
    · rename_i hfield
      obtain ⟨field, h⟩ := Sim.discard_ok h
      rw [if_pos hfield]
      exact ⟨_, answer_map.mpr ⟨field, (Sim.lift_ok.mp h).1, rfl⟩⟩
    · rename_i hfield
      obtain ⟨m, h⟩ := Sim.discard_ok h
      rw [if_neg hfield]
      exact ⟨_, answer_map.mpr ⟨m, (Sim.lift_ok.mp h).1, rfl⟩⟩

theorem newObject_answered (h : Sim.newObject ctx.simEnv i s = .ok () s') :
    ∃ ctor declaring, ctx.methodAndType i = .ok (ctor, declaring) ∧
      (declaring.isDelegate = false → ∃ bytes, ctx.paramBytes i ctor.params = .ok bytes) := by
  obtain ⟨_, -, ctor, declaring, hctor, hdeclaring, hsizes⟩ := Sim.newObject_ok h
  refine ⟨ctor, declaring, answer_bind.mpr ⟨ctor, hctor, answer_bind.mpr ⟨declaring, hdeclaring, rfl⟩⟩,
    fun hdelegate => ?_⟩
  rw [if_neg (by simp [hdelegate])] at hsizes
  obtain ⟨items, hshapes, -⟩ := hsizes
  exact ⟨_, paramBytes_of_shapes hshapes⟩

theorem lift_of_discard {α β : Type} {x : Except CompileError α} {f : Unit → Sim β} {b : β}
    (h : (Functor.discard (Sim.lift x) >>= f) s = .ok b s') : ∃ a, x = .ok a := by
  obtain ⟨_, _, hlift, -⟩ := bind_eq_ok.mp h
  obtain ⟨a, hlift⟩ := Sim.discard_ok hlift
  exact ⟨a, (Sim.lift_ok.mp hlift).1⟩

theorem lift_of_bind {α β : Type} {x : Except CompileError α} {f : α → Sim β} {b : β}
    (h : (Sim.lift x >>= f) s = .ok b s') : ∃ a, x = .ok a := by
  obtain ⟨a, _, hlift, -⟩ := bind_eq_ok.mp h
  exact ⟨a, (Sim.lift_ok.mp hlift).1⟩

/-- The targets of `i` are positions that a label can name. -/
def TargetsFit (i : Instruction) : Prop :=
  ∃ targets, i.targets = .ok targets ∧ ∀ t ∈ targets, 0 ≤ t ∧ t < 0x100000000

theorem targetLabel_of_fits {t : Int} (h : 0 ≤ t ∧ t < 0x100000000) :
    ctx.targetLabel i t = .ok (ctx.labelAt t.toNat) := if_pos h

theorem branch_answered (hkind : i.op.operandKind = .shortBranch ∨ i.op.operandKind = .branch)
    (h : TargetsFit i) : ∃ t l, i.branchTarget = .ok t ∧ ctx.targetLabel i t = .ok l := by
  obtain ⟨targets, htargets, hfit⟩ := h
  have hmap : i.branchTarget.map ([·]) = .ok targets := by
    rw [← htargets, Instruction.targets]
    rcases hkind with hkind | hkind <;> rw [hkind]
  obtain ⟨t, ht, rfl⟩ := answer_map.mp hmap
  exact ⟨t, _, ht, targetLabel_of_fits (hfit t List.mem_cons_self)⟩

theorem switch_answered (hkind : i.op.operandKind = .switch) (h : TargetsFit i) :
    ∃ targets, i.switchTargets = .ok targets ∧ ∀ t ∈ targets, ∃ l, ctx.targetLabel i t = .ok l := by
  obtain ⟨targets, htargets, hfit⟩ := h
  rw [Instruction.targets, hkind] at htargets
  exact ⟨targets, htargets, fun t ht => ⟨_, targetLabel_of_fits (hfit t ht)⟩⟩

theorem operandKind_of_branch {op : Opcode}
    (h : op.operation = .leave ∨ ∃ condition, op.operation = .branch condition) :
    op.operandKind = .shortBranch ∨ op.operandKind = .branch := by
  rcases h with h | ⟨condition, h⟩ <;> cases op <;> first | exact .inl rfl | exact .inr rfl | cases h

theorem operandKind_of_switch {op : Opcode} (h : op.operation = .switch) :
    op.operandKind = .switch := by
  cases op <;> first | rfl | cases h

/-- An operation that was simulated with the effect `e` has all its look-ups answered. -/
theorem answered_of_operate {e : Effect} (htargets : TargetsFit i)
    (hsizes : Exchanges ctx.simEnv i s.stack e i.op.operation)
    (h : Sim.operate ctx.simEnv i i.op.operation s = .ok () s') :
    Answered ctx i e i.op.operation := by
  generalize hop : i.op.operation = op at h hsizes ⊢
  cases op with
  | nop | methodStart | methodEnd | loadNull | dup | pop | ret | unary | shift | compare | loadLength
  | callIndirect | throw => trivial
  | loadArg | storeArg =>
    obtain ⟨slot, hselects, -⟩ := hsizes
    exact ⟨slot, slot_of_selects rfl hselects⟩
  | loadLocal | storeLocal =>
    obtain ⟨slot, hselects, -⟩ := hsizes
    exact ⟨slot, slot_of_selects rfl hselects⟩
  | loadArgAddress =>
    obtain ⟨_, _, hslot, -⟩ := bind_eq_ok.mp h
    obtain ⟨slot, hslot⟩ := Sim.discard_ok hslot
    exact ⟨slot, slot_of_selects rfl (Sim.argument_ok hslot).1⟩
  | loadLocalAddress =>
    obtain ⟨_, _, hslot, -⟩ := bind_eq_ok.mp h
    obtain ⟨slot, hslot⟩ := Sim.discard_ok hslot
    exact ⟨slot, slot_of_selects rfl (Sim.localSlot_ok hslot).1⟩
  | loadConst =>
    unfold Answered
    unfold Sim.operate at h
    dsimp only at h
    split at h
    · rename_i hlong
      rw [if_pos hlong]
      exact lift_of_discard h
    · rename_i hlong
      rw [if_neg hlong]
      exact lift_of_discard h
  | loadString | loadFunction | sizeOf | newArray | loadElementAddress | isInstance | castClass
  | initObject => exact lift_of_discard h
  | loadToken =>
    obtain ⟨_, _, htoken, -⟩ := bind_eq_ok.mp h
    exact tokenSymbol_of_token htoken
  | call | callVirtual => exact lift_of_bind h
  | loadField | storeField | loadStatic | storeStatic =>
    obtain ⟨item, hshape, -⟩ := hsizes
    exact fieldAccess_of_shape hshape
  | loadFieldAddress =>
    obtain ⟨_, _, hfield, -⟩ := bind_eq_ok.mp h
    obtain ⟨item, hfield⟩ := Sim.discard_ok hfield
    exact fieldAccess_of_shape (Sim.instanceField_ok hfield).1
  | loadStaticAddress =>
    obtain ⟨_, _, hfield, -⟩ := bind_eq_ok.mp h
    obtain ⟨item, hfield⟩ := Sim.discard_ok hfield
    exact fieldAccess_of_shape (Sim.staticField_ok hfield).1
  | loadIndirect kind | storeIndirect kind | loadElement kind | storeElement kind =>
    obtain ⟨item, _, hitem, -⟩ := bind_eq_ok.mp h
    exact kindAccess_of_shape hitem
  | newObject => exact newObject_answered h
  | branch condition => exact branch_answered (operandKind_of_branch (.inr ⟨condition, hop⟩)) htargets
  | leave => exact branch_answered (operandKind_of_branch (.inl hop)) htargets
  | switch => exact switch_answered (operandKind_of_switch hop) htargets
  | binary op =>
    obtain ⟨n, -, hdivision, heffect⟩ := hsizes
    intro hwide
    rw [heffect.operand 0 rfl] at hwide
    exact hdivision hwide
  | convert target =>
    cases target with
    | none => cases h
    | some target => rfl

theorem answered_of_simulate {stack stack' : OperandStack} {e : Effect} (htargets : TargetsFit i)
    (h : simulate ctx.simEnv i stack = .ok e stack') : Answered ctx i e i.op.operation := by
  have hsizes := (simulate_exchange h).sizes
  unfold simulate at h
  split at h
  · cases h
  · split at h
    · rename_i hrun
      exact answered_of_operate htargets hsizes hrun
    · cases h

end Simulated

end Stencil
