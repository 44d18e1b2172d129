import Stencil.Proofs.Dispatch.Lineage
import Stencil.Proofs.Execution.Block
import Stencil.Proofs.Machine.Symbols

/-!
# Method tables in linked memory

In memory a method table is a run of pairs closed by zero and the table of the base. Following it lists
the pairs of a type, of its base and so on (`LinkedTypes.listed`), with the addresses of the
implementations. A machine that follows it step by step finds the first pair for a slot
(`Listed.search`).
-/

namespace Stencil

open AddressMap Link Stateful

/-! ## Pairs in memory -/

/-- From an address on, memory lists pairs: those of a table up to a zero, then those of the table that
it goes on with, if any. -/
inductive Listed (memory : Memory) : UInt32 → List (UInt32 × UInt32) → Prop
  | pair {a s target : UInt32} {pairs : List (UInt32 × UInt32)} (haligned : a.toNat % 4 = 0)
      (hslot : memory.read a 4 = .ok s) (hs : s ≠ 0) (htarget : memory.read (a + 4) 4 = .ok target)
      (hrest : Listed memory (a + 8) pairs) : Listed memory a ((s, target) :: pairs)
  | parent {a b : UInt32} {pairs : List (UInt32 × UInt32)} (haligned : a.toNat % 4 = 0)
      (hend : memory.read a 4 = .ok 0) (hparent : memory.read (a + 4) 4 = .ok b) (hb : b ≠ 0)
      (hrest : Listed memory b pairs) : Listed memory a pairs
  | last {a : UInt32} (haligned : a.toNat % 4 = 0) (hend : memory.read a 4 = .ok 0)
      (hparent : memory.read (a + 4) 4 = .ok 0) : Listed memory a []

theorem Listed.ne_zero {memory : Memory} {a : UInt32} {pairs : List (UInt32 × UInt32)}
    (h : Listed memory a pairs) : a ≠ 0 := by
  rintro rfl
  have hnull : memory.read 0 4 = .error (.memory 0) := rfl
  cases h with
  | pair _ hslot => cases hnull.symm.trans hslot
  | parent _ hend => cases hnull.symm.trans hend
  | last _ hend => cases hnull.symm.trans hend

section Search

variable {M : Type} {cycle : EStateM Fault M Unit} {memory : Memory} {slot : UInt32}
  {At Found : UInt32 → M → Prop} {Missing : M → Prop}

/-- What a machine does with the pair that it stands at. -/
structure Searches (cycle : EStateM Fault M Unit) (memory : Memory) (slot : UInt32)
    (At Found : UInt32 → M → Prop) (Missing : M → Prop) : Prop where
  found : ∀ {m : M} {a target : UInt32}, At a m → a.toNat % 4 = 0 → memory.read a 4 = .ok slot →
    memory.read (a + 4) 4 = .ok target → Reaches cycle m (Found target)
  next : ∀ {m : M} {a s : UInt32}, At a m → a.toNat % 4 = 0 → memory.read a 4 = .ok s → s ≠ slot →
    s ≠ 0 → Reaches cycle m (At (a + 8))
  parent : ∀ {m : M} {a b : UInt32}, At a m → a.toNat % 4 = 0 → memory.read a 4 = .ok 0 →
    memory.read (a + 4) 4 = .ok b → b ≠ 0 → Reaches cycle m (At b)
  missing : ∀ {m : M} {a : UInt32}, At a m → a.toNat % 4 = 0 → memory.read a 4 = .ok 0 →
    memory.read (a + 4) 4 = .ok 0 → Reaches cycle m Missing

/-- Such a machine finds the first pair for the slot, or that there is none. -/
theorem Listed.search {a : UInt32} {pairs : List (UInt32 × UInt32)} (h : Listed memory a pairs)
    (hsearches : Searches cycle memory slot At Found Missing) {m : M} (hat : At a m) :
    Reaches cycle m (((pairs.find? (·.1 == slot)).map Prod.snd).elim Missing Found) := by
  induction h generalizing m with
  | @pair a s target pairs haligned hslot hs htarget _ ih =>
    rw [List.find?_cons]
    cases hsame : s == slot with
    | true =>
      obtain rfl := eq_of_beq hsame
      exact hsearches.found hat haligned hslot htarget
    | false =>
      exact (hsearches.next hat haligned hslot (ne_of_beq_false hsame) hs).trans fun t ht => ih ht
  | parent haligned hend hparent hb _ ih =>
    exact (hsearches.parent hat haligned hend hparent hb).trans fun t ht => ih ht
  | last haligned hend hparent => exact hsearches.missing hat haligned hend hparent

end Search

/-! ## What linking lists -/

section Linked

variable {I : Type} {methods : List (CompiledMethod I)} {tables : Table} {p : Program I}
  {memory : Memory} {places : List TypePlace} {stop : UInt32}

def Table.SlotsFit (t : Table) : Prop :=
  ∀ d ∈ t.types, ∀ pair ∈ d.methodTable, pair.1.val < 2 ^ 32

def tablePair (tables : Table) (methods : List (CompiledMethod I)) (pair : MethodId × MethodId) :
    UInt32 × UInt32 :=
  (UInt32.ofNat pair.1.val, methodAddress tables methods pair.2)

theorem MethodId.ofNat_val_ne_zero {id : MethodId} (h : id.val < 2 ^ 32) : UInt32.ofNat id.val ≠ 0 := by
  intro hzero
  have hval := congrArg UInt32.toNat hzero
  rw [UInt32.toNat_ofNat_of_lt' h] at hval
  exact absurd hval (Nat.pos_iff_ne_zero.mp id.pos)

theorem aligned_add {a b : UInt32} (ha : a.toNat % 4 = 0) (hb : b.toNat % 4 = 0) :
    (a + b).toNat % 4 = 0 := by
  rw [UInt32.toNat_add]
  omega

theorem aligned_of_placeTypes {size next : UInt32} {types : List TypeDescriptor}
    (h : placeTypes size next types = .ok (places, stop)) (hnext : next.toNat % 4 = 0) :
    ∀ place ∈ places, place.address.toNat % 4 = 0 ∧ place.table.toNat % 4 = 0 := by
  have hround : ∀ size : UInt32, (roundUp size 8).toNat % 4 = 0 := fun size => by
    have := roundUp_mod size
    omega
  induction types generalizing next places with
  | nil =>
    obtain ⟨rfl, rfl⟩ := Prod.mk.inj (Except.ok.inj h)
    simp
  | cons type types ih =>
    obtain ⟨address, mid, table, mid', rest, haddress, htable, hrest, rfl⟩ := placeTypes_cons_ok h
    obtain ⟨rfl, hmid, -⟩ := takeData_ok haddress
    obtain ⟨rfl, hmid', -⟩ := takeData_ok htable
    have htable' : table.toNat % 4 = 0 := by
      rw [hmid]
      exact aligned_add hnext (hround _)
    have hmid'' : mid'.toNat % 4 = 0 := by
      rw [hmid']
      exact aligned_add htable' (hround _)
    intro place hplace
    rcases List.mem_cons.mp hplace with rfl | hmem
    · exact ⟨hnext, htable'⟩
    · exact ih hrest hmid'' place hmem

/-- The words of a run of pairs and of what closes it list the pairs. -/
theorem listed_of_words {a parent : UInt32} {pairs rest : List (UInt32 × UInt32)}
    (haligned : a.toNat % 4 = 0) (hpairs : ∀ pair ∈ pairs, pair.1 ≠ 0)
    (hwords : ∀ word ∈ pairWords a (pairs ++ [(0, parent)]), memory.read word.1 4 = .ok word.2)
    (hrest : parent = 0 ∧ rest = [] ∨ parent ≠ 0 ∧ Listed memory parent rest) :
    Listed memory a (pairs ++ rest) := by
  induction pairs generalizing a with
  | nil =>
    have hend := hwords (a, 0) List.mem_cons_self
    have hparent := hwords (a + 4, parent) (List.mem_cons_of_mem _ List.mem_cons_self)
    rcases hrest with ⟨rfl, rfl⟩ | ⟨hne, hlisted⟩
    · exact .last haligned hend hparent
    · exact .parent haligned hend hparent hne hlisted
  | cons pair pairs ih =>
    obtain ⟨s, target⟩ := pair
    refine .pair haligned (hwords (a, s) List.mem_cons_self) (hpairs _ List.mem_cons_self)
      (hwords (a + 4, target) (List.mem_cons_of_mem _ List.mem_cons_self))
      (ih (aligned_add haligned (by decide)) (fun pair hpair => hpairs pair (List.mem_cons_of_mem _ hpair))
        fun word hword => hwords word (List.mem_cons_of_mem _ (List.mem_cons_of_mem _ hword)))

theorem tableEntries_eq (hsymbols : tables.DistinctSymbols)
    (hplaces : places.map TypePlace.type = tables.types) (parent : UInt32)
    (pairs : List (MethodId × MethodId)) :
    tableEntries tables (codeSymbols methods places) parent pairs =
      pairs.map (tablePair tables methods) ++ [(0, parent)] := by
  induction pairs with
  | nil => rfl
  | cons pair pairs ih =>
    obtain ⟨slot, implementation⟩ := pair
    have htarget : ((tables.method? implementation).bind
        fun d => (codeSymbols methods places)[d.symbol]?) =
        (tables.method? implementation).bind fun d => bodyAddress? methods d.symbol := by
      refine Option.bind_congr fun d hd => ?_
      exact codeSymbols_of_method hsymbols hplaces (mem_values.mpr ⟨_, hd⟩)
    rw [tableEntries, ih, htarget]
    rfl

namespace LinkedTypes

variable (h : LinkedTypes methods tables p memory places stop)

include h

theorem nodup_ids (hbuilt : tables.Built) : (places.map fun place => place.type.id).Nodup := by
  have hids := hbuilt.nodup_ids
  rw [← types_of_placeTypes h.placed, List.map_map] at hids
  exact hids

/-- The program finds a descriptor by the number of its type. -/
theorem address_of_place (hbuilt : tables.Built) {place : TypePlace} (hplace : place ∈ places) :
    p.types[place.type.id]? = some place.address := by
  rw [h.types]
  refine Std.HashMap.getElem?_ofList_of_mem (by simp) ?_ (List.mem_map.mpr ⟨place, hplace, rfl⟩)
  rw [List.pairwise_map]
  exact (List.pairwise_map.mp (h.nodup_ids hbuilt)).imp fun hne => by simpa using hne

/-- Every type has a place, where the program finds its descriptor. -/
theorem exists_place (hbuilt : tables.Built) {d : TypeDescriptor} (hd : d ∈ tables.types) :
    ∃ place ∈ places, place.type = d ∧ (placeMap places)[d.id]? = some place ∧
      p.types[d.id]? = some place.address := by
  rw [← types_of_placeTypes h.placed] at hd
  obtain ⟨place, hplace, rfl⟩ := List.mem_map.mp hd
  refine ⟨place, hplace, rfl, ?_, h.address_of_place hbuilt hplace⟩
  refine Std.HashMap.getElem?_ofList_of_mem (by simp) ?_ (List.mem_map_of_mem hplace)
  rw [List.pairwise_map]
  exact (List.pairwise_map.mp (h.nodup_ids hbuilt)).imp fun hne => by simpa using hne

theorem placeMap_none {id : TypeId} (hid : tables.type? id = none) (hbuilt : tables.Built) :
    (placeMap places)[id]? = none := by
  rw [placeMap, Std.HashMap.getElem?_ofList_of_contains_eq_false]
  rw [← Bool.not_eq_true, List.contains_iff_mem]
  intro hmem
  rw [List.map_map] at hmem
  obtain ⟨place, hplace, hsame⟩ := List.mem_map.mp hmem
  have htype : place.type ∈ tables.types := by
    rw [← types_of_placeTypes h.placed]
    exact List.mem_map_of_mem hplace
  have hsome := hbuilt.type?_of_mem htype
  rw [show place.type.id = id from hsame, hid] at hsome
  cases hsome

/-- The base of a type has a place of its own, if there is one in the table. -/
theorem base_place (hbuilt : tables.Built) (d : TypeDescriptor) :
    (d.baseType.bind fun id => (placeMap places)[id]?) = none ∧ tables.base? d = none ∨
      ∃ place ∈ places, (d.baseType.bind fun id => (placeMap places)[id]?) = some place ∧
        tables.base? d = some place.type := by
  rw [Table.base?]
  cases d.baseType with
  | none => exact .inl ⟨rfl, rfl⟩
  | some id =>
    cases hbase : tables.type? id with
    | none => exact .inl ⟨h.placeMap_none hbase hbuilt, hbase⟩
    | some b =>
      obtain ⟨place, hplace, htype, hmap, -⟩ := h.exists_place hbuilt (Table.mem_types.mpr ⟨id, hbase⟩)
      rw [hbuilt.type_id hbase] at hmap
      exact .inr ⟨place, hplace, hmap, by rw [htype]; exact hbase⟩

theorem word_of_place {place : TypePlace} (hplace : place ∈ places) {word : UInt32 × UInt32}
    (hword : word ∈ typeWords tables {} (codeSymbols methods places) (placeMap places) place) :
    memory.read word.1 4 = .ok word.2 :=
  h.words word (List.mem_flatMap.mpr ⟨place, hplace, hword⟩)

theorem read_table {place : TypePlace} (hplace : place ∈ places) :
    memory.read (place.address + 8) 4 = .ok place.table := by
  have hword : (place.address + 8, place.table) ∈
      typeWords tables {} (codeSymbols methods places) (placeMap places) place :=
    List.mem_append_left _ (List.mem_cons_of_mem _ (List.mem_cons_of_mem _ List.mem_cons_self))
  exact h.word_of_place hplace hword

/-- The method table of a type lists the pairs along its lineage. -/
theorem listed (hbuilt : tables.Built) (hsymbols : tables.DistinctSymbols) (hslots : tables.SlotsFit)
    {d : TypeDescriptor} {ds : List TypeDescriptor} (hlineage : tables.Lineage d ds)
    (hd : d ∈ tables.types) {place : TypePlace} (hplace : place ∈ places) (htype : place.type = d) :
    Listed memory place.table
      ((ds.flatMap TypeDescriptor.methodTable).map (tablePair tables methods)) := by
  have hplaces := types_of_placeTypes h.placed
  have haligned : ∀ place ∈ places, place.table.toNat % 4 = 0 := fun place hplace =>
    (aligned_of_placeTypes h.placed (by decide) place hplace).2
  have hnonzero : ∀ d ∈ tables.types, ∀ pair ∈ d.methodTable.map (tablePair tables methods),
      pair.1 ≠ 0 := by
    intro d hd pair hpair
    obtain ⟨slot, hmem, rfl⟩ := List.mem_map.mp hpair
    exact MethodId.ofNat_val_ne_zero (hslots d hd _ hmem)
  -- the run of pairs that a place holds, with its parent
  have hrun : ∀ {place : TypePlace}, place ∈ places → ∀ {parent : UInt32} {rest : List (UInt32 × UInt32)},
      (((place.type.baseType.bind fun id => (placeMap places)[id]?).map TypePlace.table).getD 0 = parent) →
      (parent = 0 ∧ rest = [] ∨ parent ≠ 0 ∧ Listed memory parent rest) →
      Listed memory place.table (place.type.methodTable.map (tablePair tables methods) ++ rest) := by
    intro place hplace parent rest hparent hrest
    have hmem : place.type ∈ tables.types := by
      rw [← hplaces]
      exact List.mem_map_of_mem hplace
    refine listed_of_words (haligned place hplace) (hnonzero _ hmem) (fun word hword => ?_) hrest
    refine h.word_of_place hplace (List.mem_append_right _ ?_)
    rw [tableEntries_eq hsymbols hplaces]
    rw [hparent]
    exact hword
  induction hlineage generalizing place with
  | @root d hbase =>
    subst htype
    obtain ⟨hnone, -⟩ | ⟨_, _, -, hsome⟩ := h.base_place hbuilt place.type
    · have := hrun hplace (by rw [hnone]; rfl) (.inl ⟨rfl, rfl⟩)
      simpa using this
    · cases hbase.symm.trans hsome
  | @derived d b ds hbase _ ih =>
    subst htype
    obtain ⟨-, hnone⟩ | ⟨place', hplace', hmap, hsome⟩ := h.base_place hbuilt place.type
    · cases hbase.symm.trans hnone
    · obtain rfl := Option.some.inj (hbase.symm.trans hsome)
      have hrest := ih (Table.mem_of_base? hbase) hplace' rfl
      rw [List.flatMap_cons, List.map_append]
      exact hrun hplace (by rw [hmap]; rfl) (.inr ⟨hrest.ne_zero, hrest⟩)

/-- Memory that keeps the bytes of the types keeps their words. -/
theorem keep {memory' : Memory}
    (hkeep : ∀ c, 0x1000 ≤ c → c < stop.toNat → memory'.byte c = memory.byte c) :
    LinkedTypes methods tables p memory' places stop where
  placed := h.placed
  types := h.types
  within := h.within
  words word hword := by
    have hread := h.words word hword
    have hwithin := h.within word hword
    have hmapped := Memory.mapped_of_read hread
    have hlow := (Memory.mapped_iff.mp hmapped).1
    rw [← hread]
    exact Memory.read_congr fun c hle hlt => hkeep c (by omega) (by omega)

end LinkedTypes

/-! ## Searching a lineage -/

theorem find?_map_tablePair {slot : MethodId} (hslot : slot.val < 2 ^ 32)
    {pairs : List (MethodId × MethodId)} (hpairs : ∀ pair ∈ pairs, pair.1.val < 2 ^ 32) :
    ((pairs.map (tablePair tables methods)).find? (·.1 == UInt32.ofNat slot.val)).map Prod.snd =
      ((pairs.find? (·.1 == slot)).map Prod.snd).map (methodAddress tables methods) := by
  induction pairs with
  | nil => rfl
  | cons pair pairs ih =>
    have hsame : ((tablePair tables methods pair).1 == UInt32.ofNat slot.val) = (pair.1 == slot) := by
      have hval := hpairs pair List.mem_cons_self
      rw [Bool.eq_iff_iff, beq_iff_eq, beq_iff_eq, tablePair, ← UInt32.toNat_inj,
        UInt32.toNat_ofNat_of_lt' hval, UInt32.toNat_ofNat_of_lt' hslot]
      obtain ⟨⟨n, hn⟩, implementation⟩ := pair
      obtain ⟨n', hn'⟩ := slot
      exact MethodId.mk.injEq .. ▸ Iff.rfl
    rw [List.map_cons, List.find?_cons, List.find?_cons, hsame]
    split
    · rfl
    · exact ih fun pair hpair => hpairs pair (List.mem_cons_of_mem _ hpair)

/-- A machine that searches the method table of a type finds the implementation of the slot, or that
there is none. -/
theorem LinkedTypes.search (h : LinkedTypes methods tables p memory places stop)
    (hbuilt : tables.Built) (hsymbols : tables.DistinctSymbols) (hslots : tables.SlotsFit)
    {slot : MethodId} (hslot : slot.val < 2 ^ 32) {d : TypeDescriptor} {ds : List TypeDescriptor}
    (hlineage : tables.Lineage d ds) (hd : d ∈ tables.types) {place : TypePlace}
    (hplace : place ∈ places) (htype : place.type = d) {M : Type} {cycle : EStateM Fault M Unit}
    {At Found : UInt32 → M → Prop} {Missing : M → Prop}
    (hsearches : Searches cycle memory (UInt32.ofNat slot.val) At Found Missing) {m : M}
    (hat : At place.table m) :
    Reaches cycle m
      (((implementation? slot ds).map (methodAddress tables methods)).elim Missing Found) := by
  have hpairs : ∀ pair ∈ ds.flatMap TypeDescriptor.methodTable, pair.1.val < 2 ^ 32 := by
    intro pair hpair
    obtain ⟨d', hd', hpair⟩ := List.mem_flatMap.mp hpair
    exact hslots d' (hlineage.mem_types hd hd') pair hpair
  rw [implementation?, ← find?_map_tablePair hslot hpairs]
  exact (h.listed hbuilt hsymbols hslots hlineage hd hplace htype).search hsearches hat

/-- The code of a method starts in the program; no intrinsic is there. -/
theorem atAddress?_methodAddress (hfits : (methods.flatMap CompiledMethod.code).length < codeLimit)
    (id : MethodId) : Intrinsic.atAddress? (methodAddress tables methods id) = none := by
  have hbase : ∀ (methods : List (CompiledMethod I)) (base : Nat), ∀ placed ∈ placeMethods base methods,
      placed.1 ≤ base + (methods.flatMap CompiledMethod.code).length := by
    intro methods
    induction methods with
    | nil => simp [placeMethods]
    | cons m methods ih =>
      intro base placed hplaced
      rw [List.flatMap_cons, List.length_append]
      rcases List.mem_cons.mp hplaced with rfl | hmem
      · exact Nat.le_add_right _ _
      · have := ih _ placed hmem
        omega
  unfold methodAddress
  cases hbody : (tables.method? id).bind fun d => bodyAddress? methods d.symbol with
  | none => rfl
  | some address =>
    obtain ⟨d, -, hd⟩ := Option.bind_eq_some_iff.mp hbody
    obtain ⟨⟨base, m⟩, hfound, rfl⟩ := Option.map_eq_some_iff.mp hd
    have hmem := hbase methods 0 _ (List.mem_reverse.mp (List.mem_of_find?_eq_some hfound))
    refine atAddress?_codeAddress ?_
    dsimp only at hmem ⊢
    omega

end Linked

/-! ## Virtual calls -/

/-- The instruction calls a virtual method that no delegate declares. -/
structure CallsVirtual (ctx : EmitContext) (i : Instruction) (method : MethodDescriptor) : Prop where
  operation : i.op.operation = .callVirtual
  resolved : ∃ declaring, ctx.methodAndType i = .ok (method, declaring) ∧ declaring.isDelegate = false
  virtual : method.isVirtual = true
  fits : method.id.val < 2 ^ 32

/-- A program linked with the default layout from methods that were compiled for it. Symbols are
distinct, and no type is among its own bases. -/
structure LinkedProgram {I : Type} [TargetInstr I] (backend : Backend I) (tables : Table)
    (options : Options) (methods : List (CompiledMethod I)) (p : Program I) (linked : Store) : Prop where
  built : tables.Built
  symbols : tables.DistinctSymbols
  acyclic : tables.Acyclic
  slots : tables.SlotsFit
  layout : options.layout = {}
  compiled : ∀ m ∈ methods, ∃ body, compileMethod backend tables options body = .ok m
  link : ∃ config, link methods tables options config = .ok (p, linked)
  fits : p.code.size < codeLimit

/-- Memory still has the type descriptors and method tables that were linked. -/
def KeepsTypes (tables : Table) (linked memory : Memory) : Prop :=
  ∀ places stop, placeTypes 16 dataBase tables.types = .ok (places, stop) →
    ∀ c, 0x1000 ≤ c → c < stop.toNat → memory.byte c = linked.byte c

/-- A virtual call goes where the hierarchy says: a null receiver is reported; from an object of some
type control goes to the implementation of the slot along the lineage of the type, and if there is none
the program halts. -/
structure Resolves {I M : Type} (cycle : EStateM Fault M Unit) (p : Program I) (tables : Table)
    (methods : List (CompiledMethod I)) (slot : MethodId) (memory : Memory) (object site : UInt32)
    (Called : UInt32 → M → Prop) (m : M) : Prop where
  null : object = 0 → Ends cycle (.nullReference site) m
  found : ∀ d ∈ tables.types, ∀ type, p.types[d.id]? = some type → memory.read object 4 = .ok type →
    ∃ ds, tables.Lineage d ds ∧
      (∀ id, implementation? slot ds = some id →
        Reaches cycle m (Called (methodAddress tables methods id))) ∧
      (implementation? slot ds = none → Ends cycle (.halt HaltReason.missingVirtualMethod.code) m)

namespace LinkedProgram

variable {I M : Type} [TargetInstr I] {backend : Backend I} {tables : Table} {options : Options}
  {methods : List (CompiledMethod I)} {p : Program I} {linked : Store}

theorem wellFormed (h : LinkedProgram backend tables options methods p linked) : p.WellFormed := by
  obtain ⟨config, hlink⟩ := h.link
  exact wellFormed_of_link hlink h.compiled h.symbols (Nat.le_of_lt h.fits)

theorem atAddress?_methodAddress (h : LinkedProgram backend tables options methods p linked)
    (id : MethodId) : Intrinsic.atAddress? (methodAddress tables methods id) = none := by
  obtain ⟨config, hlink⟩ := h.link
  have hfits := h.fits
  rw [(link_ok hlink).code] at hfits
  exact Stencil.atAddress?_methodAddress (by simpa using hfits) id

theorem exists_type (h : LinkedProgram backend tables options methods p linked) {d : TypeDescriptor}
    (hd : d ∈ tables.types) : ∃ type, p.types[d.id]? = some type := by
  obtain ⟨config, hlink⟩ := h.link
  obtain ⟨places, next, memory, _, _, _, _, htypes, -⟩ := link_data hlink h.layout
  obtain ⟨place, -, -, -, haddress⟩ := htypes.exists_place h.built hd
  exact ⟨_, haddress⟩

/-- A machine that searches the method table of an object's type resolves virtual calls. -/
theorem resolves (h : LinkedProgram backend tables options methods p linked)
    (hstatics : StaticsFit tables options.pointerSize) {slot : MethodId} (hslot : slot.val < 2 ^ 32)
    {memory : Memory} (hkeeps : KeepsTypes tables linked.memory memory)
    {cycle : EStateM Fault M Unit} {object site : UInt32} {At Found Called : UInt32 → M → Prop} {m : M}
    (hnull : object = 0 → Ends cycle (.nullReference site) m)
    (htable : ∀ type table, object ≠ 0 → type.toNat % 4 = 0 → memory.read object 4 = .ok type →
      memory.read (type + 8) 4 = .ok table → Reaches cycle m (At table))
    (hsearches : Searches cycle memory (UInt32.ofNat slot.val) At Found
      (Ends cycle (.halt HaltReason.missingVirtualMethod.code)))
    (hcalled : ∀ target m', Intrinsic.atAddress? target = none → Found target m' →
      Reaches cycle m' (Called target)) :
    Resolves cycle p tables methods slot memory object site Called m where
  null := hnull
  found d hd type htype hobject := by
    obtain ⟨config, hlink⟩ := h.link
    obtain ⟨places, stop, hlinked⟩ := link_types hlink h.layout hstatics
    have htypes := hlinked.keep (hkeeps places stop hlinked.placed)
    obtain ⟨place, hplace, hplaceType, -, haddress⟩ := htypes.exists_place h.built hd
    obtain rfl : place.address = type := Option.some.inj (haddress.symm.trans htype)
    obtain ⟨ds, hds⟩ := h.acyclic.exists_lineage hd
    have hne : object ≠ 0 := by
      rintro rfl
      have hfault : memory.read 0 4 = .error (.memory 0) := rfl
      cases hfault.symm.trans hobject
    have haligned := (aligned_of_placeTypes hlinked.placed (by decide) place hplace).1
    have hsearch := (htable _ _ hne haligned hobject (htypes.read_table hplace)).trans fun t ht =>
      htypes.search h.built h.symbols h.slots hslot hds hd hplace hplaceType hsearches ht
    refine ⟨ds, hds, fun id hid => ?_, fun hid => ?_⟩
    · rw [hid] at hsearch
      exact hsearch.trans fun t ht => hcalled _ t (h.atAddress?_methodAddress id) ht
    · rw [hid] at hsearch
      exact hsearch.trans fun t ht => ht

end LinkedProgram

end Stencil
