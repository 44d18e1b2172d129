import Stencil.Proofs.Dispatch.Tables
import Mathlib.Data.List.Nodup

/-!
# Chains of bases in linked memory

A type test follows the descriptors of an object's type, of its base and so on, until it meets the type
that is asked for or null. The search in the table stops after as many links as the table has types.
Without cycles that is no earlier than the end of the lineage (`Lineage.isSubtype_eq`), and linked memory
chains the descriptors of a lineage one to the next (`LinkedTypes.bases`). So a machine that walks the
chain decides what the table says (`LinkedProgram.decides`).
-/

open Relation (ReflTransGen TransGen)

namespace Stencil

open AddressMap Link

/-! ## Subtypes along a lineage -/

namespace Table

variable {t : Table} {d d' : TypeDescriptor} {ds : List TypeDescriptor}

theorem Lineage.reaches (h : t.Lineage d ds) (hd' : d' ∈ ds) :
    ReflTransGen (fun d b => t.base? d = some b) d d' := by
  induction h with
  | root =>
    rw [List.mem_singleton.mp hd']
  | derived hbase _ ih =>
    rcases List.mem_cons.mp hd' with rfl | hmem
    · exact .refl
    · exact .head hbase (ih hmem)

theorem Lineage.nodup (h : t.Lineage d ds) (hacyclic : t.Acyclic) : ds.Nodup := by
  induction h with
  | root => exact List.nodup_singleton _
  | derived hbase hrest ih =>
    refine List.nodup_cons.mpr ⟨fun hmem => ?_, ih⟩
    exact hacyclic _ (TransGen.head' hbase (hrest.reaches hmem))

theorem Lineage.length_le (h : t.Lineage d ds) (hacyclic : t.Acyclic) (hd : d ∈ t.types) :
    ds.length ≤ t.typeMap.size := by
  have hsubset : ds ⊆ t.types := fun d' hd' => h.mem_types hd hd'
  have hle := ((h.nodup hacyclic).subperm hsubset).length_le
  rwa [types, values_eq_map_toList, List.length_map, Std.TreeMap.length_toList] at hle

/-- A base that the table lacks is no subtype of another type. -/
theorem isSubtypeWithin_of_missing {target id : TypeId} (h : t.type? id = none) (steps : Nat) :
    t.isSubtypeWithin target steps id = (id == target) := by
  cases steps with
  | zero => rfl
  | succ steps => rw [isSubtypeWithin, h, Option.bind_none, Bool.or_false]

/-- Enough links lead to every type of the lineage and to no other type of the table. -/
theorem Lineage.isSubtypeWithin_eq (h : t.Lineage d ds) (hbuilt : t.Built) (hd : d ∈ t.types)
    {target : TypeDescriptor} (htarget : target ∈ t.types) {steps : Nat} (hsteps : ds.length ≤ steps + 1) :
    t.isSubtypeWithin target.id steps d.id = ds.any (·.id == target.id) := by
  induction h generalizing steps with
  | @root d hbase =>
    rw [List.any_cons, List.any_nil, Bool.or_false]
    cases steps with
    | zero => rfl
    | succ steps =>
      rw [isSubtypeWithin, hbuilt.type?_of_mem hd, Option.bind_some]
      cases hid : d.baseType with
      | none => exact Bool.or_false _
      | some id =>
        have hmissing : t.type? id = none := by rwa [base?, hid] at hbase
        have hne : id ≠ target.id := by
          rintro rfl
          cases hmissing.symm.trans (hbuilt.type?_of_mem htarget)
        dsimp only
        rw [isSubtypeWithin_of_missing hmissing, beq_false_of_ne hne, Bool.or_false]
  | @derived d b ds hbase hrest ih =>
    have hb := mem_of_base? hbase
    obtain ⟨id, hid, hresolved⟩ := Option.bind_eq_some_iff.mp hbase
    obtain ⟨steps, rfl⟩ : ∃ n, steps = n + 1 := by
      have hpos : 0 < ds.length := by cases hrest <;> exact Nat.succ_pos _
      rw [List.length_cons] at hsteps
      exact ⟨steps - 1, by omega⟩
    have hlast := @ih hb steps (by rw [List.length_cons] at hsteps; omega)
    rw [hbuilt.type_id hresolved] at hlast
    rw [isSubtypeWithin, hbuilt.type?_of_mem hd, Option.bind_some, hid, List.any_cons]
    dsimp only
    rw [hlast]

theorem Lineage.isSubtype_eq (h : t.Lineage d ds) (hbuilt : t.Built) (hacyclic : t.Acyclic)
    (hd : d ∈ t.types) {target : TypeDescriptor} (htarget : target ∈ t.types) :
    t.isSubtype d.id target.id = true ↔ target ∈ ds := by
  have hle := h.length_le hacyclic hd
  rw [isSubtype, h.isSubtypeWithin_eq hbuilt hd htarget (by omega), List.any_eq_true]
  constructor
  · rintro ⟨d', hmem, hsame⟩
    have hd' := hbuilt.type?_of_mem (h.mem_types hd hmem)
    rw [eq_of_beq hsame, hbuilt.type?_of_mem htarget] at hd'
    rwa [Option.some.inj hd']
  · exact fun hmem => ⟨target, hmem, beq_self_eq_true _⟩

end Table

/-! ## Chains in memory -/

/-- From an address on, memory chains descriptors, each to that of its base, up to null. -/
inductive Bases (memory : Memory) : UInt32 → List UInt32 → Prop
  | stop : Bases memory 0 []
  | base {a b : UInt32} {as : List UInt32} (haligned : a.toNat % 4 = 0)
      (hread : memory.read (a + 12) 4 = .ok b) (hrest : Bases memory b as) : Bases memory a (a :: as)

section Walk

variable {M : Type} {cycle : EStateM Fault M Unit} {memory : Memory} {target : UInt32}
  {At : UInt32 → M → Prop} {Found Missing : M → Prop}

/-- What a machine does with the descriptor that it stands at. -/
structure Walks (cycle : EStateM Fault M Unit) (memory : Memory) (target : UInt32)
    (At : UInt32 → M → Prop) (Found Missing : M → Prop) : Prop where
  found : ∀ {m : M}, At target m → target ≠ 0 → Reaches cycle m Found
  next : ∀ {m : M} {a b : UInt32}, At a m → a ≠ 0 → a ≠ target → a.toNat % 4 = 0 →
    memory.read (a + 12) 4 = .ok b → Reaches cycle m (At b)
  missing : ∀ {m : M}, At 0 m → Reaches cycle m Missing

/-- Such a machine finds whether the descriptor is in the chain. -/
theorem Bases.walk {a : UInt32} {as : List UInt32} (h : Bases memory a as)
    (hwalks : Walks cycle memory target At Found Missing) {m : M} (hat : At a m) :
    (target ∈ as → Reaches cycle m Found) ∧ (target ∉ as → Reaches cycle m Missing) := by
  induction h generalizing m with
  | stop => exact ⟨fun hmem => absurd hmem List.not_mem_nil, fun _ => hwalks.missing hat⟩
  | @base a b as haligned hread hrest ih =>
    have hne : a ≠ 0 := by
      rintro rfl
      have hnull : memory.read (0 + 12) 4 = .error (.memory 12) := rfl
      cases hnull.symm.trans hread
    by_cases hsame : a = target
    · subst hsame
      exact ⟨fun _ => hwalks.found hat hne, fun hnot => absurd List.mem_cons_self hnot⟩
    · have hnext := hwalks.next hat hne hsame haligned hread
      constructor
      · intro hmem
        have hrest := (List.mem_cons.mp hmem).resolve_left (Ne.symm hsame)
        exact hnext.trans fun m' hat' => (ih hat').1 hrest
      · intro hnot
        exact hnext.trans fun m' hat' => (ih hat').2 fun hmem => hnot (List.mem_cons_of_mem _ hmem)

end Walk

/-! ## What linking chains -/

namespace LinkedTypes

variable {I : Type} {methods : List (CompiledMethod I)} {tables : Table} {p : Program I}
  {memory : Memory} {places : List TypePlace} {stop : UInt32}
  (h : LinkedTypes methods tables p memory places stop)

include h

/-- No two types share a descriptor. -/
theorem nodup_addresses : (places.map TypePlace.address).Nodup := by
  have hmapped : ∀ pair ∈ places.flatMap
      (typeWords tables {} (codeSymbols methods places) (placeMap places)),
      Memory.mapped pair.1 4 = true := by
    intro pair hpair
    by_contra hnot
    have hread := h.words pair hpair
    rw [Memory.read, if_neg hnot] at hread
    cases hread
  have hrising := (spread_typeWords h.placed (by decide) hmapped).2.2.rising
  rw [Rising, List.pairwise_flatMap] at hrising
  refine List.pairwise_map.mpr (hrising.2.imp fun {place place'} hbefore hsame => ?_)
  -- the words of a place start with one at its address
  have hfirst := hbefore _ List.mem_cons_self _ List.mem_cons_self
  dsimp only at hfirst
  rw [hsame] at hfirst
  omega

theorem address_eq_iff (hbuilt : tables.Built) {place place' : TypePlace} (hplace : place ∈ places)
    (hplace' : place' ∈ places) : place.address = place'.address ↔ place.type = place'.type := by
  constructor
  · intro hsame
    rw [List.inj_on_of_nodup_map h.nodup_addresses hplace hplace' hsame]
  · intro hsame
    rw [List.inj_on_of_nodup_map (h.nodup_ids hbuilt) hplace hplace' (by rw [hsame])]

theorem read_base {place : TypePlace} (hplace : place ∈ places) :
    memory.read (place.address + 12) 4 = .ok
      (((place.type.baseType.bind ((placeMap places)[·]?)).map TypePlace.address).getD 0) := by
  have hword : (place.address + 12,
      ((place.type.baseType.bind ((placeMap places)[·]?)).map TypePlace.address).getD 0) ∈
        typeWords tables {} (codeSymbols methods places) (placeMap places) place :=
    List.mem_append_left _ (List.mem_cons_of_mem _ (List.mem_cons_of_mem _ (List.mem_cons_of_mem _
      List.mem_cons_self)))
  have hread := h.word_of_place hplace hword
  exact hread

/-- From the descriptor of a type on, memory chains the descriptors of its lineage. -/
theorem bases (hbuilt : tables.Built) {d : TypeDescriptor} {ds : List TypeDescriptor}
    (hlineage : tables.Lineage d ds) (hd : d ∈ tables.types) {place : TypePlace}
    (hplace : place ∈ places) (htype : place.type = d) :
    ∃ as, Bases memory place.address as ∧
      ∀ place' ∈ places, place'.address ∈ as ↔ place'.type ∈ ds := by
  have haligned : ∀ place ∈ places, place.address.toNat % 4 = 0 := fun place hplace =>
    (aligned_of_placeTypes h.placed (by decide) place hplace).1
  induction hlineage generalizing place with
  | @root d hbase =>
    subst htype
    have hread := h.read_base hplace
    have hnone : (place.type.baseType.bind ((placeMap places)[·]?)) = none := by
      cases hid : place.type.baseType with
      | none => rfl
      | some id =>
        rw [Table.base?, hid] at hbase
        exact h.placeMap_none hbase hbuilt
    rw [hnone] at hread
    refine ⟨[place.address], .base (haligned place hplace) hread .stop, fun place' hplace' => ?_⟩
    rw [List.mem_singleton, List.mem_singleton]
    exact h.address_eq_iff hbuilt hplace' hplace
  | @derived d b ds hbase _ ih =>
    subst htype
    have hb := Table.mem_of_base? hbase
    obtain ⟨base, hplaceBase, htypeBase, hmap, -⟩ := h.exists_place hbuilt hb
    obtain ⟨as, hbases, hmem⟩ := ih hb hplaceBase htypeBase
    obtain ⟨id, hid, hresolved⟩ := Option.bind_eq_some_iff.mp hbase
    have hread := h.read_base hplace
    have hsome : (place.type.baseType.bind ((placeMap places)[·]?)) = some base := by
      rw [hid, ← hbuilt.type_id hresolved]
      exact hmap
    rw [hsome] at hread
    refine ⟨place.address :: as, .base (haligned place hplace) hread hbases, fun place' hplace' => ?_⟩
    rw [List.mem_cons, List.mem_cons, hmem place' hplace', h.address_eq_iff hbuilt hplace' hplace]

end LinkedTypes

/-! ## Decisions -/

/-- The instruction tests an object for a type, as a cast or not. -/
structure TestsType (ctx : EmitContext) (i : Instruction) (isCast : Bool) (u : TypeDescriptor) :
    Prop where
  operation : i.op.operation = if isCast then .castClass else .isInstance
  resolved : ctx.tables.resolveType i = .ok u

theorem TestsType.mem_types {ctx : EmitContext} {i : Instruction} {isCast : Bool} {u : TypeDescriptor}
    (h : TestsType ctx i isCast u) : u ∈ ctx.tables.types := by
  have hresolved := h.resolved
  unfold Table.resolveType at hresolved
  cases hid : i.typeRef.bind ctx.tables.type? with
  | none =>
    rw [hid] at hresolved
    cases hresolved
  | some t =>
    rw [hid] at hresolved
    obtain rfl := Except.ok.inj hresolved
    obtain ⟨id, -, ht⟩ := Option.bind_eq_some_iff.mp hid
    exact Table.mem_types.mpr ⟨id, ht⟩

/-- A failed test leaves null; a failed cast raises an exception for its site. -/
def TestFails {M : Type} (cycle : EStateM Fault M Unit) (isCast : Bool) (site : UInt32)
    (Leaves : UInt32 → M → Prop) : M → Prop :=
  if isCast then Ends cycle (.invalidCast site) else Leaves 0

/-- A type test decides subtyping: null passes, an object of a type that derives from the target is left,
and any other object fails the test. -/
structure Decides {I M : Type} (cycle : EStateM Fault M Unit) (p : Program I) (tables : Table)
    (target : TypeId) (memory : Memory) (object : UInt32) (Leaves : UInt32 → M → Prop)
    (Failed : M → Prop) (m : M) : Prop where
  null : object = 0 → Reaches cycle m (Leaves 0)
  derives : ∀ d ∈ tables.types, ∀ type, p.types[d.id]? = some type → memory.read object 4 = .ok type →
    tables.isSubtype d.id target = true → Reaches cycle m (Leaves object)
  fails : ∀ d ∈ tables.types, ∀ type, p.types[d.id]? = some type → memory.read object 4 = .ok type →
    tables.isSubtype d.id target = false → Reaches cycle m Failed

namespace LinkedProgram

variable {I M : Type} [TargetInstr I] {backend : Backend I} {tables : Table} {options : Options}
  {methods : List (CompiledMethod I)} {p : Program I} {linked : Store}

/-- The symbol of a type leads to the descriptor that the program knows. -/
theorem resolve_type (h : LinkedProgram backend tables options methods p linked) {d : TypeDescriptor}
    (hd : d ∈ tables.types) :
    ∃ address, p.resolve d.symbol = .ok address ∧ p.types[d.id]? = some address := by
  obtain ⟨config, hlink⟩ := h.link
  obtain ⟨places, next, memory, _, _, _, _, htypes, -⟩ := link_data hlink h.layout
  obtain ⟨place, hplace, rfl, -, haddress⟩ := htypes.exists_place h.built hd
  exact ⟨_, resolve_type_of_link hlink h.symbols h.layout htypes.placed hplace, haddress⟩

/-- A machine that walks the bases of an object's type decides subtyping. -/
theorem decides (h : LinkedProgram backend tables options methods p linked)
    (hstatics : StaticsFit tables options.pointerSize) {u : TypeDescriptor} (hu : u ∈ tables.types)
    {target : UInt32} (htarget : p.types[u.id]? = some target)
    {memory : Memory} (hkeeps : KeepsTypes tables linked.memory memory)
    {cycle : EStateM Fault M Unit} {object : UInt32} {At Leaves : UInt32 → M → Prop}
    {Failed : M → Prop} {m : M} (hnull : object = 0 → Reaches cycle m (Leaves 0))
    (htype : ∀ type, object ≠ 0 → memory.read object 4 = .ok type → Reaches cycle m (At type))
    (hwalks : Walks cycle memory target At (Leaves object) Failed) :
    Decides cycle p tables u.id memory object Leaves Failed m := by
  obtain ⟨config, hlink⟩ := h.link
  obtain ⟨places, stop, hlinked⟩ := link_types hlink h.layout hstatics
  have htypes := hlinked.keep (hkeeps places stop hlinked.placed)
  -- the walk from the descriptor of a type meets the target where the lineage does
  have hwalk : ∀ d ∈ tables.types, ∀ type, p.types[d.id]? = some type →
      memory.read object 4 = .ok type →
      (tables.isSubtype d.id u.id = true → Reaches cycle m (Leaves object)) ∧
      (¬tables.isSubtype d.id u.id = true → Reaches cycle m Failed) := by
    intro d hd type haddress hobject
    have hne : object ≠ 0 := by
      rintro rfl
      have hfault : memory.read 0 4 = .error (.memory 0) := rfl
      cases hfault.symm.trans hobject
    obtain ⟨place, hplace, hplaceType, -, hplaceAddress⟩ := htypes.exists_place h.built hd
    obtain ⟨placeU, hplaceU, hplaceTypeU, -, haddressU⟩ := htypes.exists_place h.built hu
    obtain rfl : place.address = type := Option.some.inj (hplaceAddress.symm.trans haddress)
    obtain rfl : placeU.address = target := Option.some.inj (haddressU.symm.trans htarget)
    obtain ⟨ds, hds⟩ := h.acyclic.exists_lineage hd
    obtain ⟨as, hbases, hmem⟩ := htypes.bases h.built hds hd hplace hplaceType
    rw [hds.isSubtype_eq h.built h.acyclic hd hu, ← hplaceTypeU, ← hmem placeU hplaceU]
    constructor
    · exact fun hin => (htype _ hne hobject).trans fun m' hat => (hbases.walk hwalks hat).1 hin
    · exact fun hout => (htype _ hne hobject).trans fun m' hat => (hbases.walk hwalks hat).2 hout
  exact ⟨hnull, fun d hd type haddress hobject hsub => (hwalk d hd type haddress hobject).1 hsub,
    fun d hd type haddress hobject hsub =>
      (hwalk d hd type haddress hobject).2 (by rw [hsub]; exact Bool.false_ne_true)⟩

end LinkedProgram

end Stencil
