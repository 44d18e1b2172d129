import Stencil.Proofs.Machine.Symbols
import Mathlib.Data.Finset.Card
import Mathlib.Data.Set.Finite.Basic
import Mathlib.Logic.Relation
import Mathlib.Data.Finite.Defs
import Mathlib.Order.WellFounded
import Mathlib.Data.Fintype.Basic

/-!
# Implementations of virtual slots

A type implements a slot by the first pair for it in its own method table, or in that of its base, or
further up. In a table without cycles every type has a last base, so the search ends. In any table the search
for a supertype ends, and it finds what base links lead to.
-/

open Relation (TransGen)

namespace Stencil

namespace Table

/-- The tables that can be built. -/
inductive Built : Table → Prop
  | empty : Built {}
  | addType {t : Table} (h : Built t) (d : TypeDescriptor) : Built (t.addType d)
  | addField {t : Table} (h : Built t) (d : FieldDescriptor) : Built (t.addField d)
  | addMethod {t : Table} (h : Built t) (d : MethodDescriptor) : Built (t.addMethod d)
  | addString {t : Table} (h : Built t) (d : StringLiteral) : Built (t.addString d)

variable {t : Table}

theorem Built.type_id (h : t.Built) {id : TypeId} {d : TypeDescriptor} (hd : t.type? id = some d) :
    d.id = id := by
  induction h with
  | empty => simp [type?] at hd
  | addField | addMethod | addString => rename_i ih; exact ih hd
  | @addType t h d' ih =>
    have hat : (t.typeMap.insert d'.id d')[id]? = some d := hd
    rw [Std.TreeMap.getElem?_insert] at hat
    split at hat
    · rename_i hid
      rw [← Option.some.inj hat]
      exact compare_eq_iff_eq.mp hid
    · exact ih hat

theorem mem_types {d : TypeDescriptor} : d ∈ t.types ↔ ∃ id, t.type? id = some d := mem_values

theorem Built.type?_of_mem (h : t.Built) {d : TypeDescriptor} (hd : d ∈ t.types) :
    t.type? d.id = some d := by
  obtain ⟨id, hid⟩ := mem_types.mp hd
  rw [h.type_id hid, hid]

theorem Built.method_id (h : t.Built) {id : Nat} {d : MethodDescriptor} (hd : t.methodMap[id]? = some d) :
    d.id.val = id := by
  induction h with
  | empty => simp at hd
  | addType | addField | addString => rename_i ih; exact ih hd
  | @addMethod t h d' ih =>
    have hat : (t.methodMap.insert d'.id.val d')[id]? = some d := hd
    rw [Std.TreeMap.getElem?_insert] at hat
    split at hat
    · rename_i hid
      rw [← Option.some.inj hat]
      exact compare_eq_iff_eq.mp hid
    · exact ih hat

theorem Built.method?_of_mem (h : t.Built) {d : MethodDescriptor} (hd : d ∈ t.methods) :
    t.method? d.id = some d := by
  obtain ⟨id, hid⟩ := mem_values.mp hd
  rw [method?, h.method_id hid, hid]

theorem Built.nodup_ids (h : t.Built) : (t.types.map TypeDescriptor.id).Nodup := by
  have hkeys : t.types.map TypeDescriptor.id = t.typeMap.keys := by
    rw [types, values_eq_map_toList, ← Std.TreeMap.map_fst_toList_eq_keys, List.map_map]
    refine List.map_congr_left fun pair hpair => ?_
    exact h.type_id (Std.TreeMap.mem_toList_iff_getElem?_eq_some.mp hpair)
  rw [hkeys]
  exact Std.TreeMap.nodup_keys

/-! ## Bases -/

def base? (t : Table) (d : TypeDescriptor) : Option TypeDescriptor := d.baseType.bind t.type?

/-- No type is among its own bases. -/
def Acyclic (t : Table) : Prop := ∀ d, ¬TransGen (fun d b => t.base? d = some b) d d

/-- A type with its base, the base of that, and so on to the last one. -/
inductive Lineage (t : Table) : TypeDescriptor → List TypeDescriptor → Prop
  | root {d : TypeDescriptor} (hbase : t.base? d = none) : Lineage t d [d]
  | derived {d b : TypeDescriptor} {ds : List TypeDescriptor} (hbase : t.base? d = some b)
      (hrest : Lineage t b ds) : Lineage t d (d :: ds)

theorem mem_of_base? {d b : TypeDescriptor} (h : t.base? d = some b) : b ∈ t.types := by
  obtain ⟨id, -, hid⟩ := Option.bind_eq_some_iff.mp h
  exact mem_types.mpr ⟨id, hid⟩

theorem Lineage.mem_types {d d' : TypeDescriptor} {ds : List TypeDescriptor} (h : t.Lineage d ds)
    (hd : d ∈ t.types) (hd' : d' ∈ ds) : d' ∈ t.types := by
  induction h with
  | root =>
    rw [List.mem_singleton.mp hd']
    exact hd
  | derived hbase _ ih =>
    rcases List.mem_cons.mp hd' with rfl | hmem
    · exact hd
    · exact ih (mem_of_base? hbase) hmem

/-- Bases that have smaller numbers make no cycle. -/
theorem acyclic_of_lt (h : ∀ d ∈ t.types, ∀ b ∈ t.base? d, b.id < d.id) : t.Acyclic := by
  intro d hcycle
  have hlt : ∀ {b}, TransGen (fun d b => t.base? d = some b) d b → d ∈ t.types →
      b ∈ t.types ∧ b.id < d.id := by
    intro b hpath hd
    induction hpath with
    | single hstep => exact ⟨mem_of_base? hstep, h d hd _ hstep⟩
    | tail _ hstep ih => exact ⟨mem_of_base? hstep, Nat.lt_trans (h _ ih.1 _ hstep) ih.2⟩
  obtain ⟨b, -, hlast⟩ := TransGen.tail'_iff.mp hcycle
  exact Nat.lt_irrefl _ (hlt hcycle (mem_of_base? hlast)).2

/-- Without cycles every chain of bases ends. -/
theorem Acyclic.exists_lineage (h : t.Acyclic) {d : TypeDescriptor} (hd : d ∈ t.types) :
    ∃ ds, t.Lineage d ds := by
  -- on the finitely many types of the table the bases of a type are well-founded
  let r : { d // d ∈ t.types } → { d // d ∈ t.types } → Prop := fun b d => t.base? d.1 = some b.1
  have hlift : ∀ {b d : { d // d ∈ t.types }}, TransGen r b d →
      TransGen (fun d b => t.base? d = some b) d.1 b.1 := by
    intro b d hpath
    induction hpath with
    | single hstep => exact .single hstep
    | tail _ hstep ih => exact .head hstep ih
  have hwf : WellFounded (TransGen r) := by
    have hfinite : Finite { d // d ∈ t.types } := List.finite_toSet t.types
    have htrans : IsTrans _ (TransGen r) := ⟨fun _ _ _ => TransGen.trans⟩
    have hirrefl : Std.Irrefl (TransGen r) := ⟨fun d hcycle => h d.1 (hlift hcycle)⟩
    exact Finite.wellFounded_of_trans_of_irrefl _
  suffices hall : ∀ d : { d // d ∈ t.types }, ∃ ds, t.Lineage d.1 ds from hall ⟨d, hd⟩
  intro d
  induction d using hwf.induction with
  | _ d ih =>
    cases hbase : t.base? d.1 with
    | none => exact ⟨[d.1], .root hbase⟩
    | some b =>
      obtain ⟨ds, hds⟩ := ih ⟨b, mem_of_base? hbase⟩ (.single hbase)
      exact ⟨d.1 :: ds, .derived hbase hds⟩

/-! ## Subtypes

Base links may also run in a circle or leave the table, so the search for a supertype is cut off after as many
links as the table has types. No chain needs more: on the shortest one no type occurs twice, and all but the
last are in the table. -/

section Subtypes

variable {a b : TypeId}

/-- The type that the descriptor of `id` names as its base, in the table or not. -/
def link? (t : Table) (id : TypeId) : Option TypeId := (t.type? id).bind TypeDescriptor.baseType

/-- Base links, any number of them, lead from one type to the other. -/
def Derives (t : Table) : TypeId → TypeId → Prop :=
  Relation.ReflTransGen fun a b => t.link? a = some b

/-- The type that `n` base links lead to. -/
def climb (t : Table) : (n : Nat) → TypeId → Option TypeId
  | 0, id => some id
  | n + 1, id => (t.link? id).bind (t.climb n)

theorem climb_add (m n : Nat) (a : TypeId) : t.climb (m + n) a = (t.climb m a).bind (t.climb n) := by
  induction m generalizing a with
  | zero => simp [climb]
  | succ m ih =>
    rw [Nat.succ_add, climb, climb, Option.bind_assoc]
    congr 1
    funext b
    exact ih b

theorem climb_succ (n : Nat) (a : TypeId) : t.climb (n + 1) a = (t.climb n a).bind t.link? := by
  rw [climb_add]
  congr 1
  funext b
  simp [climb]

theorem derives_iff_climb : t.Derives a b ↔ ∃ n, t.climb n a = some b := by
  constructor
  · intro h
    induction h with
    | refl => exact ⟨0, rfl⟩
    | tail _ hlink ih =>
      obtain ⟨n, hn⟩ := ih
      exact ⟨n + 1, by simp [climb_succ, hn, hlink]⟩
  · rintro ⟨n, hn⟩
    induction n generalizing a with
    | zero =>
      obtain rfl := Option.some.inj hn
      exact .refl
    | succ n ih =>
      obtain ⟨c, hlink, hrest⟩ := Option.bind_eq_some_iff.mp hn
      exact .head hlink (ih hrest)

/-- The search sees the types that a bounded number of links leads to. -/
theorem isSubtypeWithin_iff {steps : Nat} :
    t.isSubtypeWithin b steps a = true ↔ ∃ n ≤ steps, t.climb n a = some b := by
  induction steps generalizing a with
  | zero => simp [isSubtypeWithin, climb]
  | succ steps ih =>
    have hnext : t.isSubtypeWithin b (steps + 1) a = true ↔ a = b ∨ ∃ n ≤ steps, t.climb (n + 1) a = some b := by
      cases hlink : t.link? a with
      | none =>
        rw [link?] at hlink
        simp [isSubtypeWithin, climb, link?, hlink]
      | some base =>
        rw [link?] at hlink
        simp [isSubtypeWithin, climb, link?, hlink, ih]
    rw [hnext]
    constructor
    · rintro (rfl | ⟨n, hle, hn⟩)
      · exact ⟨0, Nat.zero_le _, rfl⟩
      · exact ⟨n + 1, by omega, hn⟩
    · rintro ⟨n, hle, hn⟩
      cases n with
      | zero => exact .inl (Option.some.inj hn)
      | succ n => exact .inr ⟨n, by omega, hn⟩

theorem mem_keys_of_link? {c : TypeId} (h : t.link? a = some c) : a ∈ t.typeMap.keys := by
  obtain ⟨d, hd, -⟩ := Option.bind_eq_some_iff.mp h
  rw [Std.TreeMap.mem_keys, Std.TreeMap.mem_iff_isSome_getElem?]
  exact Option.isSome_iff_exists.mpr ⟨d, hd⟩

/-- Before its end a chain stays in the table. -/
theorem exists_mem_keys_of_climb {n k : Nat} (h : t.climb n a = some b) (hk : k < n) :
    ∃ c ∈ t.typeMap.keys, t.climb k a = some c := by
  obtain ⟨m, rfl⟩ : ∃ m, n = k + (m + 1) := ⟨n - k - 1, by omega⟩
  rw [climb_add] at h
  obtain ⟨c, hc, hrest⟩ := Option.bind_eq_some_iff.mp h
  obtain ⟨d, hlink, -⟩ := Option.bind_eq_some_iff.mp hrest
  exact ⟨c, mem_keys_of_link? hlink, hc⟩

/-- A chain that is longer than the table comes to one type twice and can be cut short there. -/
theorem exists_shorter_climb {n : Nat} (h : t.climb n a = some b) (hn : t.typeMap.size < n) :
    ∃ m < n, t.climb m a = some b := by
  let keys : Finset (Option TypeId) := (t.typeMap.keys.map some).toFinset
  have hcard : keys.card < (Finset.range n).card := by
    have hle : keys.card ≤ (t.typeMap.keys.map some).length := List.toFinset_card_le _
    rw [List.length_map, Std.TreeMap.length_keys] at hle
    rw [Finset.card_range]
    omega
  have hmaps : ∀ k ∈ Finset.range n, t.climb k a ∈ keys := by
    intro k hk
    obtain ⟨c, hmem, hc⟩ := exists_mem_keys_of_climb h (Finset.mem_range.mp hk)
    rw [hc, List.mem_toFinset]
    exact List.mem_map_of_mem hmem
  obtain ⟨i, hi, j, hj, hne, hsame⟩ := Finset.exists_ne_map_eq_of_card_lt_of_maps_to hcard hmaps
  rw [Finset.mem_range] at hi hj
  -- what follows the later visit follows the earlier one as well
  have hcut : ∀ i j, i < j → j < n → t.climb i a = t.climb j a → ∃ m < n, t.climb m a = some b := by
    intro i j hij hjn hsame
    refine ⟨i + (n - j), by omega, ?_⟩
    rw [climb_add, hsame, ← climb_add, Nat.add_sub_cancel' (by omega), h]
  rcases Nat.lt_or_gt_of_ne hne with hlt | hlt
  · exact hcut i j hlt hj hsame
  · exact hcut j i hlt hi hsame.symm

theorem exists_climb_le_size {n : Nat} (h : t.climb n a = some b) :
    ∃ m ≤ t.typeMap.size, t.climb m a = some b := by
  induction n using Nat.strong_induction_on with
  | _ n ih =>
    by_cases hn : n ≤ t.typeMap.size
    · exact ⟨n, hn, h⟩
    · obtain ⟨m, hlt, hm⟩ := exists_shorter_climb h (by omega)
      exact ih m hlt hm

/-- In every table the search ends, and it finds a type exactly when base links lead to it. -/
theorem isSubtype_iff_derives (t : Table) (a b : TypeId) : t.isSubtype a b = true ↔ t.Derives a b := by
  rw [isSubtype, isSubtypeWithin_iff, derives_iff_climb]
  constructor
  · rintro ⟨n, -, hn⟩
    exact ⟨n, hn⟩
  · rintro ⟨n, hn⟩
    exact exists_climb_le_size hn

/-- Two types that are each other's base, and one whose base is not in the table. -/
example :
    let t := ((Table.addType {} { TypeDescriptor.ofClass 1 "Hen" 8 with baseType := some 2 }).addType
      { TypeDescriptor.ofClass 2 "Egg" 8 with baseType := some 1 }).addType
      { TypeDescriptor.ofClass 3 "Stone" 8 with baseType := some 9 }
    t.isSubtype 1 2 = true ∧ t.isSubtype 1 3 = false ∧ t.isSubtype 3 9 = true := by
  decide

end Subtypes

end Table

/-! ## Slots -/

/-- The implementation in the first pair for a slot, along a lineage. -/
def implementation? (slot : MethodId) (lineage : List TypeDescriptor) : Option MethodId :=
  ((lineage.flatMap TypeDescriptor.methodTable).find? (·.1 == slot)).map Prod.snd

end Stencil
