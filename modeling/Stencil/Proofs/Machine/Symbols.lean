import Stencil.Proofs.Compile
import Stencil.Proofs.Machine.Code
import Stencil.Proofs.Machine.Data

/-!
# Symbols of a linked program

Linking binds the symbols of intrinsics, methods, types, static fields and strings one after another, and
a later binding hides an earlier one. Where the symbols of a table are distinct, nothing is hidden: a
program is well formed (`wellFormed_of_link`), and the symbol of a type leads to its descriptor
(`resolve_type_of_link`).
-/

namespace Stencil

open AddressMap Link Stateful

/-! ## Descriptors -/

theorem values_eq_map_toList {β : Type} (t : Std.TreeMap Nat β) : t.values = t.toList.map Prod.snd := by
  have hfold : t.values = t.foldr (fun _ v l => v :: l) [] := rfl
  rw [hfold, Std.TreeMap.foldr_eq_foldr_toList]
  induction t.toList with
  | nil => rfl
  | cons pair pairs ih => rw [List.foldr_cons, ih, List.map_cons]

theorem mem_values {β : Type} {t : Std.TreeMap Nat β} {b : β} :
    b ∈ t.values ↔ ∃ k : Nat, t[k]? = some b := by
  simp [values_eq_map_toList, List.mem_map, Std.TreeMap.mem_toList_iff_getElem?_eq_some]

def Table.symbols (t : Table) : List Symbol :=
  t.methods.map MethodDescriptor.symbol ++ t.types.map TypeDescriptor.symbol ++
    (t.fields.filter FieldDescriptor.isStatic).map FieldDescriptor.symbol ++
    t.strings.map StringLiteral.symbol

/-- No two descriptors share a symbol, and none has that of an intrinsic. -/
structure Table.DistinctSymbols (t : Table) : Prop where
  nodup : t.symbols.Nodup
  plain : ∀ intrinsic : Intrinsic, intrinsic.symbol ∉ t.symbols

/-- A symbol has the last address that it is bound to. -/
theorem getElem?_bindAll {symbols : Std.HashMap Symbol UInt32} (bindings : List (Symbol × UInt32))
    (s : Symbol) :
    (bindAll symbols bindings)[s]? =
      ((bindings.reverse.find? (·.1 == s)).map Prod.snd).or symbols[s]? := by
  induction bindings generalizing symbols with
  | nil => rfl
  | cons pair bindings ih =>
    unfold bindAll at ih ⊢
    rw [List.foldl_cons, ih, List.reverse_cons, List.find?_append, Option.map_or, Option.or_assoc,
      Std.HashMap.getElem?_insert, List.find?_singleton]
    split <;> rfl

section Link

variable {I : Type} {methods : List (CompiledMethod I)} {tables : Table}

/-- The address of the code that was compiled for a symbol; a later method replaces an earlier one. -/
def bodyAddress? (methods : List (CompiledMethod I)) (s : Symbol) : Option UInt32 :=
  ((placeMethods 0 methods).reverse.find? (·.2.symbol == s)).map (codeAddress ·.1)

/-- The address of a method's code, zero if it has none. -/
def methodAddress (tables : Table) (methods : List (CompiledMethod I)) (id : MethodId) : UInt32 :=
  ((tables.method? id).bind fun d => bodyAddress? methods d.symbol).getD 0

theorem map_snd_placeMethods (base : Nat) (methods : List (CompiledMethod I)) :
    (placeMethods base methods).map Prod.snd = methods := by
  induction methods generalizing base with
  | nil => rfl
  | cons m methods ih => rw [placeMethods, List.map_cons, ih]

theorem codeSymbols_of_method {places : List TypePlace} (hsymbols : tables.DistinctSymbols)
    (hplaces : places.map TypePlace.type = tables.types) {d : MethodDescriptor}
    (hd : d ∈ tables.methods) :
    (codeSymbols methods places)[d.symbol]? = bodyAddress? methods d.symbol := by
  have hmethod : d.symbol ∈ tables.methods.map MethodDescriptor.symbol := List.mem_map_of_mem hd
  -- neither a type nor an intrinsic hides the code
  have htypes : d.symbol ∉ (places.map fun place => (place.type.symbol, place.address)).map Prod.fst := by
    intro hmem
    have hsame : (places.map fun place => (place.type.symbol, place.address)).map Prod.fst =
        tables.types.map TypeDescriptor.symbol := by
      rw [← hplaces, List.map_map, List.map_map]
      rfl
    rw [hsame] at hmem
    have hnodup := hsymbols.nodup
    rw [Table.symbols, List.append_assoc, List.append_assoc] at hnodup
    exact (List.nodup_append.mp hnodup).2.2 _ hmethod _ (List.mem_append_left _ hmem) rfl
  have hintrinsic : (bindAll ∅ intrinsicSymbols)[d.symbol]? = none := by
    rw [getElem?_bindAll_of_notMem]
    · simp
    · intro hmem
      obtain ⟨⟨s, address⟩, hpair, hs⟩ := List.mem_map.mp hmem
      obtain ⟨k, hk, hpair⟩ := List.mem_mapIdx.mp hpair
      have heq : Intrinsic.all[k].symbol = d.symbol := by
        rw [← hs, ← hpair]
      refine hsymbols.plain Intrinsic.all[k] ?_
      rw [heq, Table.symbols, List.append_assoc, List.append_assoc]
      exact List.mem_append_left _ hmethod
  rw [codeSymbols, bindAll_append, getElem?_bindAll_of_notMem htypes, bindAll_append,
    getElem?_bindAll, hintrinsic, Option.or_none, bodyAddress?, ← List.map_reverse, List.find?_map,
    Option.map_map]
  rfl

end Link

section Program

variable {I : Type} [TargetInstr I] {backend : Backend I} {methods : List (CompiledMethod I)}
  {tables : Table} {options : Options} {config : RunConfig} {p : Program I} {store : Store}

theorem map_fst_placeStatics {pointerSize : Nat} {next stop : UInt32}
    {fields : List FieldDescriptor} {statics : List (Symbol × UInt32)}
    (h : placeStatics tables pointerSize next fields = .ok (statics, stop)) :
    statics.map Prod.fst = fields.map FieldDescriptor.symbol := by
  induction fields generalizing next statics with
  | nil =>
    obtain ⟨rfl, rfl⟩ := Prod.mk.inj (Except.ok.inj h)
    rfl
  | cons field fields ih =>
    unfold placeStatics at h
    obtain ⟨⟨address, mid⟩, -, h⟩ := answer_bind.mp h
    obtain ⟨⟨rest, last⟩, hrest, h⟩ := answer_bind.mp h
    obtain ⟨rfl, rfl⟩ := Prod.mk.inj (Except.ok.inj h)
    rw [List.map_cons, List.map_cons, ih hrest]

theorem map_fst_placeStrings {next stop : UInt32} {literals : List StringLiteral}
    {strings : List (StringLiteral × UInt32)} (h : placeStrings next literals = .ok (strings, stop)) :
    strings.map Prod.fst = literals := by
  induction literals generalizing next strings with
  | nil =>
    obtain ⟨rfl, rfl⟩ := Prod.mk.inj (Except.ok.inj h)
    rfl
  | cons literal literals ih =>
    unfold placeStrings at h
    obtain ⟨⟨address, mid⟩, -, h⟩ := answer_bind.mp h
    obtain ⟨⟨rest, last⟩, hrest, h⟩ := answer_bind.mp h
    obtain ⟨rfl, rfl⟩ := Prod.mk.inj (Except.ok.inj h)
    rw [List.map_cons, ih hrest]

/-- A linked program whose code fits below the intrinsics is well formed if nothing that linking binds has a
symbol of theirs. -/
theorem Linked.wellFormed (h : Linked methods tables options config p) (hfits : p.code.size ≤ codeLimit)
    (hplain : ∀ intrinsic : Intrinsic, intrinsic.symbol ∉
      methods.map CompiledMethod.symbol ++ (tables.types.map TypeDescriptor.symbol ++
        ((tables.fields.filter FieldDescriptor.isStatic).map FieldDescriptor.symbol ++
          tables.strings.map StringLiteral.symbol))) : p.WellFormed := by
  obtain ⟨places, next, statics, next', strings, next'', hplaces, hstatics, hstrings, hbound⟩ := h.symbols
  rw [List.append_assoc, List.append_assoc, List.append_assoc] at hbound
  refine Program.wellFormed_of_layout _ h.code h.labels (by simpa [h.code] using hfits) _ hbound
    fun intrinsic hmem => hplain intrinsic ?_
  rw [← types_of_placeTypes hplaces, ← map_fst_placeStatics hstatics, ← map_fst_placeStrings hstrings,
    ← map_snd_placeMethods 0 methods]
  simpa [Function.comp_def] using hmem

/-- So it is if the symbols of all descriptors are distinct from theirs. -/
theorem wellFormed_of_link (hlink : link methods tables options config = .ok (p, store))
    (hcompiled : ∀ m ∈ methods, ∃ body, compileMethod backend tables options body = .ok m)
    (hsymbols : tables.DistinctSymbols) (hfits : p.code.size ≤ codeLimit) : p.WellFormed := by
  refine (link_ok hlink).wellFormed hfits fun intrinsic hmem => hsymbols.plain intrinsic ?_
  rw [Table.symbols, List.append_assoc, List.append_assoc]
  rcases List.mem_append.mp hmem with hmethod | hdata
  · -- the code of a compiled method has the symbol of its descriptor
    obtain ⟨m, hm, hsymbol⟩ := List.mem_map.mp hmethod
    obtain ⟨body, hbody⟩ := hcompiled m hm
    obtain ⟨c⟩ := compileMethod_ok hbody
    rw [← hsymbol, c.symbol_eq]
    exact List.mem_append_left _ (List.mem_map_of_mem (mem_values.mpr ⟨_, c.resolved⟩))
  · exact List.mem_append_right _ hdata

/-- Neither a static field nor a string hides the symbol of a method or of a type. -/
theorem resolve_of_codeSymbols (hlink : link methods tables options config = .ok (p, store))
    (hsymbols : tables.DistinctSymbols) :
    ∃ places stop, placeTypes (descriptorSize options.layout) dataBase tables.types =
        .ok (places, stop) ∧
      ∀ s ∈ tables.methods.map MethodDescriptor.symbol ++ tables.types.map TypeDescriptor.symbol,
        ∀ a, (codeSymbols methods places)[s]? = some a → p.resolve s = .ok a := by
  obtain ⟨places, next, statics, next', strings, next'', hplaces, hstatics, hstrings, hbound⟩ :=
    (link_ok hlink).symbols
  refine ⟨places, next, hplaces, fun s hs a ha => ?_⟩
  have hnodup := hsymbols.nodup
  rw [Table.symbols, List.append_assoc] at hnodup
  have hother := fun s' hs' => (List.nodup_append.mp hnodup).2.2 s hs s' hs'
  have hstatic : s ∉ statics.map Prod.fst := by
    intro hmem
    refine hother s (List.mem_append_left _ ?_) rfl
    rw [← map_fst_placeStatics hstatics]
    exact hmem
  rw [codeSymbols] at ha
  rw [Program.resolve, hbound, bindAll_append, getElem?_bindAll_of_notMem, bindAll_append,
    getElem?_bindAll_of_notMem hstatic, ha]
  intro hmem
  rw [List.map_map] at hmem
  refine hother s (List.mem_append_right _ ?_) rfl
  rw [← map_fst_placeStrings hstrings, List.map_map]
  exact hmem

theorem resolve_type_of_link (hlink : link methods tables options config = .ok (p, store))
    (hsymbols : tables.DistinctSymbols) (hlayout : options.layout = {}) {places : List TypePlace}
    {stop : UInt32} (hplaces : placeTypes 16 dataBase tables.types = .ok (places, stop))
    {place : TypePlace} (hplace : place ∈ places) :
    p.resolve place.type.symbol = .ok place.address := by
  obtain ⟨places', stop', hplaces', hresolve⟩ := resolve_of_codeSymbols hlink hsymbols
  rw [hlayout] at hplaces'
  obtain ⟨rfl, rfl⟩ := Prod.mk.inj (Except.ok.inj (hplaces'.symm.trans hplaces))
  have htypes := types_of_placeTypes hplaces
  have hmem : place.type.symbol ∈ tables.types.map TypeDescriptor.symbol := by
    rw [← htypes]
    exact List.mem_map_of_mem (List.mem_map_of_mem hplace)
  refine hresolve _ (List.mem_append_right _ hmem) _ ?_
  have hnodup : (places'.map fun place => place.type.symbol).Nodup := by
    have hall := hsymbols.nodup
    rw [Table.symbols, List.append_assoc] at hall
    have htypesNodup := (List.nodup_append.mp (List.nodup_append.mp hall).1).2.1
    rw [← htypes, List.map_map] at htypesNodup
    exact htypesNodup
  rw [codeSymbols, bindAll_append]
  refine getElem?_bindAll_of_mem ?_ (List.mem_map.mpr ⟨place, hplace, rfl⟩)
  rw [List.map_map]
  exact hnodup

end Program

end Stencil
