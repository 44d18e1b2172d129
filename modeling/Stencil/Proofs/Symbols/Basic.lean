import Stencil.Intrinsic
import Stencil.Proofs.Compile

/-!
# Symbols that templates mention

A template mentions helpers, and of the descriptors those that its instruction looks up (`Mentionable`). An
exception is raised in one way only: the template asks for the address of its call, pushes it, and calls the
intrinsic (`RaisedAt`). Which symbols a list of instructions mentions is put together from its parts
(`Mentions`).
-/

namespace Stencil

open Stateful

/-! ## Exceptions -/

/-- The intrinsic raises an exception for the address that it is given. -/
def Intrinsic.raises : Intrinsic → Bool
  | .throwNullReference | .throwIndexOutOfRange | .throwInvalidCast => true
  | _ => false

/-- How the code of a target raises exceptions. -/
class RaiseCode (I : Type) where
  /-- What pushes the address of its first instruction. -/
  lead : List I
  /-- A call by symbol. -/
  calls : Symbol → I

section Mentions

variable {I : Type} [TargetInstr I] [RaiseCode I] {S : Symbol → Prop} {R : Intrinsic → Prop} {code code' : List I}

/-- At this index the intrinsic is called with the address of the code in front. -/
def RaisedAt (code : List I) (k : Nat) (intrinsic : Intrinsic) : Prop :=
  code[k]? = some (RaiseCode.calls intrinsic.symbol) ∧ ∃ j, k = j + (RaiseCode.lead (I := I)).length ∧
    ∀ (n : Nat) instr, (RaiseCode.lead (I := I))[n]? = some instr → code[j + n]? = some instr

/-- All symbols of the code have the property `S`, but for those of exceptions with the property `R` where they
are raised. -/
def Mentions (S : Symbol → Prop) (R : Intrinsic → Prop) (code : List I) : Prop :=
  ∀ (k : Nat) instr, code[k]? = some instr → ∀ s ∈ TargetInstr.symbols instr,
    S s ∨ ∃ intrinsic, R intrinsic ∧ s = intrinsic.symbol ∧ RaisedAt code k intrinsic

omit [TargetInstr I] in
theorem RaisedAt.front {k : Nat} {intrinsic : Intrinsic} (h : RaisedAt code k intrinsic) :
    RaisedAt (code ++ code') k intrinsic := by
  have hfront : ∀ (n : Nat) instr, code[n]? = some instr → (code ++ code')[n]? = some instr := fun n instr hn => by
    rwa [List.getElem?_append_left (List.getElem?_eq_some_iff.mp hn).1]
  obtain ⟨hcall, j, hk, hlead⟩ := h
  exact ⟨hfront _ _ hcall, j, hk, fun n instr hn => hfront _ _ (hlead n instr hn)⟩

omit [TargetInstr I] in
theorem RaisedAt.back {k : Nat} {intrinsic : Intrinsic} (h : RaisedAt code' k intrinsic) :
    RaisedAt (code ++ code') (code.length + k) intrinsic := by
  have hback : ∀ (n : Nat), (code ++ code')[code.length + n]? = code'[n]? := fun n => by
    rw [List.getElem?_append_right (Nat.le_add_right _ _), Nat.add_sub_cancel_left]
  obtain ⟨hcall, j, rfl, hlead⟩ := h
  refine ⟨(hback _).trans hcall, code.length + j, (Nat.add_assoc _ _ _).symm, fun n instr hn => ?_⟩
  rw [Nat.add_assoc, hback]
  exact hlead n instr hn

namespace Mentions

theorem symbols (h : Mentions S R code) {s : Symbol} (hs : s ∈ code.flatMap TargetInstr.symbols) :
    S s ∨ ∃ intrinsic, R intrinsic ∧ s = intrinsic.symbol := by
  obtain ⟨instr, hinstr, hs⟩ := List.mem_flatMap.mp hs
  obtain ⟨k, hk⟩ := List.mem_iff_getElem?.mp hinstr
  exact (h k instr hk s hs).imp_right fun ⟨intrinsic, hraised, hsymbol, _⟩ => ⟨intrinsic, hraised, hsymbol⟩

theorem of_eq {symbols : List Symbol} (h : code.flatMap TargetInstr.symbols = symbols)
    (hs : ∀ s ∈ symbols, S s) : Mentions S R code := by
  subst h
  exact fun k instr hinstr s hmem =>
    .inl (hs s (List.mem_flatMap.mpr ⟨instr, List.mem_of_getElem? hinstr, hmem⟩))

theorem of_none (h : code.flatMap TargetInstr.symbols = []) : Mentions S R code :=
  .of_eq h fun _ hs => absurd hs List.not_mem_nil

theorem of_one {s : Symbol} (h : code.flatMap TargetInstr.symbols = [s]) (hs : S s) : Mentions S R code :=
  .of_eq h fun _ hmem => List.mem_singleton.mp hmem ▸ hs

theorem nil : Mentions S R ([] : List I) := .of_none rfl

theorem append (h : Mentions S R code) (h' : Mentions S R code') : Mentions S R (code ++ code') := by
  intro k instr hinstr s hs
  rcases Nat.lt_or_ge k code.length with hlt | hge
  · rw [List.getElem?_append_left hlt] at hinstr
    exact (h k instr hinstr s hs).imp_right fun ⟨intrinsic, hraised, hsymbol, hat⟩ =>
      ⟨intrinsic, hraised, hsymbol, hat.front⟩
  · rw [List.getElem?_append_right hge] at hinstr
    refine (h' _ instr hinstr s hs).imp_right fun ⟨intrinsic, hraised, hsymbol, hat⟩ =>
      ⟨intrinsic, hraised, hsymbol, ?_⟩
    have hback : RaisedAt (code ++ code') (code.length + (k - code.length)) intrinsic := hat.back
    rwa [Nat.add_sub_cancel' hge] at hback

theorem cons {instr : I} (h : Mentions S R [instr]) (h' : Mentions S R code) : Mentions S R (instr :: code) :=
  h.append h'

theorem raise {intrinsic : Intrinsic} (hlead : Mentions S R (RaiseCode.lead (I := I))) (hraised : R intrinsic)
    (hsymbol : TargetInstr.symbols (RaiseCode.calls (I := I) intrinsic.symbol) = [intrinsic.symbol]) :
    Mentions S R (RaiseCode.lead ++ [RaiseCode.calls (I := I) intrinsic.symbol]) := by
  intro k instr hinstr s hs
  rcases Nat.lt_or_ge k (RaiseCode.lead (I := I)).length with hlt | hge
  · rw [List.getElem?_append_left hlt] at hinstr
    exact (hlead k instr hinstr s hs).imp_right fun ⟨intrinsic, hraised, hsymbol, hat⟩ =>
      ⟨intrinsic, hraised, hsymbol, hat.front⟩
  · have hcall := hinstr
    rw [List.getElem?_append_right hge, List.getElem?_singleton] at hcall
    split at hcall
    · rename_i hk
      obtain rfl := Option.some.inj hcall
      have hlast : k = 0 + (RaiseCode.lead (I := I)).length := by omega
      refine .inr ⟨intrinsic, hraised, List.mem_singleton.mp (hsymbol ▸ hs), hinstr, 0, hlast, fun n instr hn => ?_⟩
      rw [Nat.zero_add, List.getElem?_append_left (List.getElem?_eq_some_iff.mp hn).1, hn]
    · cases hcall

theorem flatMap {α : Type} {f : α → List I} (xs : List α) (h : ∀ x ∈ xs, Mentions S R (f x)) :
    Mentions S R (xs.flatMap f) := by
  induction xs with
  | nil => exact .nil
  | cons x xs ih =>
    rw [List.flatMap_cons]
    rw [List.forall_mem_cons] at h
    exact h.1.append (ih h.2)

theorem map {α : Type} {f : α → I} (xs : List α) (h : ∀ x ∈ xs, Mentions S R [f x]) :
    Mentions S R (xs.map f) := by
  rw [List.map_eq_flatMap]
  exact flatMap xs h

theorem replicate (n : Nat) {instr : I} (h : Mentions S R [instr]) : Mentions S R (List.replicate n instr) := by
  rw [← List.map_id (List.replicate n instr)]
  exact map _ fun x hx => List.eq_of_mem_replicate hx ▸ h

theorem replicateFlat (n : Nat) (h : Mentions S R code) : Mentions S R (List.replicate n code).flatten := by
  rw [← List.flatMap_id]
  exact flatMap _ fun part hpart => List.eq_of_mem_replicate hpart ▸ h

theorem ite {p : Prop} [Decidable p] (h : Mentions S R code) (h' : Mentions S R code') :
    Mentions S R (if p then code else code') := by
  split
  · exact h
  · exact h'

theorem ofExcept {answer : Except CompileError (List I)} (h : ∀ code, answer = .ok code → Mentions S R code) :
    Mentions S R (Template.ofExcept answer).code := by
  cases answer with
  | error e => exact .nil
  | ok code => exact h code rfl

end Mentions

end Mentions

/-! ## Look-ups -/

section Lookups

variable {tables : Table} {i : Instruction}

theorem resolveType_ok {t : TypeDescriptor} (h : tables.resolveType i = .ok t) :
    ∃ id, tables.type? id = some t := by
  obtain ⟨id, -, hid⟩ := Option.bind_eq_some_iff.mp (Table.require_ok.mp h)
  exact ⟨id, hid⟩

theorem resolveMethod_ok {m : MethodDescriptor} (h : tables.resolveMethod i = .ok m) :
    ∃ id, tables.method? id = some m := by
  obtain ⟨id, -, hid⟩ := Option.bind_eq_some_iff.mp (Table.require_ok.mp h)
  exact ⟨id, hid⟩

theorem resolveString_ok {literal : StringLiteral} (h : tables.resolveString i = .ok literal) :
    ∃ id, tables.string? id = some literal := by
  obtain ⟨id, -, hid⟩ := Option.bind_eq_some_iff.mp (Table.require_ok.mp h)
  exact ⟨id, hid⟩

theorem resolveField_ok {field : FieldDescriptor} (h : tables.resolveField i = .ok field) :
    ∃ id, i.fieldRef = some id ∧ tables.field? id = some field :=
  Option.bind_eq_some_iff.mp (Table.require_ok.mp h)

end Lookups

/-! ## Templates -/

section Templates

variable {ctx : EmitContext} {i : Instruction} {e : Effect}

/-- The operation accesses the storage of a static field. -/
def Operation.accessesStatic : Operation → Bool
  | .loadStatic | .loadStaticAddress | .storeStatic => true
  | _ => false

def Operation.indexes : Operation → Bool
  | .loadElement _ | .loadElementAddress | .storeElement _ => true
  | _ => false

/-- The operation tests a pointer for null; where accesses through raw pointers are guarded, these do, too. -/
def Operation.testsNull (guard : Bool) : Operation → Bool
  | .loadField | .loadFieldAddress | .storeField | .loadLength | .callVirtual => true
  | .loadIndirect _ | .storeIndirect _ | .initObject => guard
  | op => op.indexes

/-- The exceptions that the code of an operation may raise. -/
def Operation.MayRaise (guard : Bool) (op : Operation) : Intrinsic → Prop
  | .throwNullReference => op.testsNull guard = true
  | .throwIndexOutOfRange => op.indexes = true
  | .throwInvalidCast => op = .castClass
  | _ => False

/-- The exceptions that the template of `i` may raise. -/
abbrev Raisable (ctx : EmitContext) (i : Instruction) : Intrinsic → Prop :=
  i.op.operation.MayRaise ctx.policy.guardIndirect

theorem Operation.testsNull_of_indexes {guard : Bool} {op : Operation} (h : op.indexes = true) :
    op.testsNull guard = true := by
  cases op <;> first | rfl | cases h

/-- The symbols that the template of `i` may mention, aside from raising exceptions. An object is released by
`pop` alone, and only where the simulation flags it as fresh. -/
inductive Mentionable (ctx : EmitContext) (i : Instruction) (e : Effect) : Symbol → Prop
  | intrinsic {k : Intrinsic} (hraises : k.raises = false)
      (h : k = .release → i.op.operation = .pop ∧ (e.operand 0).isNew = true) : Mentionable ctx i e k.symbol
  | type {id : TypeId} {t : TypeDescriptor} (h : ctx.tables.type? id = some t) : Mentionable ctx i e t.symbol
  | method {id : MethodId} {m : MethodDescriptor} (h : ctx.tables.method? id = some m) :
      Mentionable ctx i e m.symbol
  | string {id : StringId} {literal : StringLiteral} (h : ctx.tables.string? id = some literal) :
      Mentionable ctx i e literal.symbol
  | static {field : FieldDescriptor} (hop : i.op.operation.accessesStatic = true)
      (h : ctx.tables.resolveField i = .ok field) : Mentionable ctx i e field.symbol
  | token {field : FieldDescriptor} (hop : i.op.operation = .loadToken) (hplain : i.typeRef = none)
      (h : ctx.tables.resolveField i = .ok field) : Mentionable ctx i e field.symbol

theorem Mentionable.helper {k : Intrinsic} (hraises : k.raises = false) (h : k ≠ .release) :
    Mentionable ctx i e k.symbol :=
  .intrinsic hraises fun heq => absurd heq h

theorem resolveField_of_fieldAccess {field : FieldDescriptor} {access : Access}
    (h : ctx.fieldAccess i = .ok (field, access)) : ctx.tables.resolveField i = .ok field := by
  obtain ⟨_, hfield, h⟩ := answer_bind.mp h
  obtain ⟨_, -, h⟩ := answer_bind.mp h
  cases h
  exact hfield

theorem found_of_methodAndType {m : MethodDescriptor} {declaring : TypeDescriptor}
    (h : ctx.methodAndType i = .ok (m, declaring)) :
    (∃ id, ctx.tables.method? id = some m) ∧ ∃ id, ctx.tables.type? id = some declaring := by
  obtain ⟨_, hmethod, h⟩ := answer_bind.mp h
  obtain ⟨_, htype, h⟩ := answer_bind.mp h
  cases h
  exact ⟨resolveMethod_ok hmethod, _, Table.require_ok.mp htype⟩

theorem tokenSymbol_mentionable {s : Symbol} (hop : i.op.operation = .loadToken)
    (h : ctx.tokenSymbol i = .ok s) : Mentionable ctx i e s := by
  unfold EmitContext.tokenSymbol at h
  split at h
  · obtain ⟨t, ht, rfl⟩ := answer_map.mp h
    exact .type (Table.require_ok.mp ht)
  · rename_i hplain
    split at h
    · obtain ⟨field, hfield, rfl⟩ := answer_map.mp h
      exact .token hop hplain hfield
    · obtain ⟨m, hm, rfl⟩ := answer_map.mp h
      obtain ⟨id, hid⟩ := resolveMethod_ok hm
      exact .method hid

end Templates

end Stencil
