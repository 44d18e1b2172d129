import Stencil.Machine.Program
import Stencil.Proofs.Labels.Basic

/-!
# What linking does

`link_ok` says what a linked program consists of: the code of the methods one after another, the
indices of their labels, the symbols, and the limits of its runs.
-/

namespace Stencil

open AddressMap Link Stateful

section Labels

variable {I : Type} [TargetInstr I]

theorem mem_labelsFrom {start k : Nat} {l : Label} {code : List I} :
    (l, k) ∈ labelsFrom start code ↔
      ∃ j instr, k = start + j ∧ code[j]? = some instr ∧ TargetInstr.asLabel? instr = some l := by
  induction code generalizing start with
  | nil => simp [labelsFrom]
  | cons head code ih =>
    have hrest : (l, k) ∈ labelsFrom (start + 1) code ↔ ∃ j instr, k = start + (j + 1) ∧
        (head :: code)[j + 1]? = some instr ∧ TargetInstr.asLabel? instr = some l := by
      rw [ih]
      simp [Nat.add_assoc, Nat.add_comm 1]
    rw [← Nat.or_exists_add_one, ← hrest, labelsFrom]
    cases hlabel : TargetInstr.asLabel? head with
    | none => simp [hlabel]
    | some l' => simp [hlabel, eq_comm, and_comm]

theorem map_fst_labelsFrom (start : Nat) (code : List I) :
    (labelsFrom start code).map Prod.fst = boundLabels code := by
  induction code generalizing start with
  | nil => rfl
  | cons head code ih =>
    unfold labelsFrom boundLabels
    cases hlabel : TargetInstr.asLabel? head with
    | none =>
      rw [List.filterMap_cons_none hlabel]
      exact ih (start + 1)
    | some l =>
      rw [List.filterMap_cons_some hlabel, List.map_cons, ih]
      rfl

theorem mem_of_getElem?_ofList {α β : Type} [BEq α] [LawfulBEq α] [Hashable α]
    {pairs : List (α × β)} {a : α} {b : β} (h : (Std.HashMap.ofList pairs)[a]? = some b) :
    (a, b) ∈ pairs := by
  have hmany : ∀ (pairs : List (α × β)) (table : Std.HashMap α β),
      (table.insertMany pairs)[a]? = some b → (a, b) ∈ pairs ∨ table[a]? = some b := by
    intro pairs
    induction pairs with
    | nil => exact fun _ h => .inr h
    | cons pair pairs ih =>
      intro table h
      rw [Std.HashMap.insertMany_cons] at h
      rcases ih _ h with hmem | hat
      · exact .inl (List.mem_cons_of_mem _ hmem)
      · rw [Std.HashMap.getElem?_insert] at hat
        split at hat
        · rename_i hkey
          obtain rfl := Option.some.inj hat
          rw [← eq_of_beq hkey]
          exact .inl List.mem_cons_self
        · exact .inr hat
  rw [Std.HashMap.ofList_eq_insertMany_empty] at h
  rcases hmany pairs ∅ h with hmem | hempty
  · exact hmem
  · simp at hempty

theorem labels_isSome_of_mem {code : List I} {l : Label} (hl : l ∈ boundLabels code) :
    ∃ k, (Std.HashMap.ofList (labelsFrom 0 code))[l]? = some k := by
  rw [← Option.isSome_iff_exists, Std.HashMap.isSome_getElem?_eq_contains,
    Std.HashMap.contains_ofList, map_fst_labelsFrom]
  simpa using hl

end Labels

section Link

variable {I : Type} [TargetInstr I] {methods : List (CompiledMethod I)} {tables : Table}
  {options : Options} {config : RunConfig} {p : Program I} {store : Store}

/-- The parts of a linked program that runs read. -/
structure Linked (methods : List (CompiledMethod I)) (tables : Table) (options : Options)
    (config : RunConfig) (p : Program I) : Prop where
  code : p.code = (methods.flatMap CompiledMethod.code).toArray
  labels : p.labels = Std.HashMap.ofList (labelsFrom 0 (methods.flatMap CompiledMethod.code))
  stepLimit : p.stepLimit = config.stepLimit
  symbols : ∃ types next statics next' strings next'',
    placeTypes (descriptorSize options.layout) dataBase tables.types = .ok (types, next) ∧
    placeStatics tables options.pointerSize next (tables.fields.filter FieldDescriptor.isStatic) =
      .ok (statics, next') ∧
    placeStrings next' tables.strings = .ok (strings, next'') ∧
    p.symbols = bindAll ∅ (intrinsicSymbols ++
      (placeMethods 0 methods).map (fun (base, m) => (m.symbol, codeAddress base)) ++
      types.map (fun place => (place.type.symbol, place.address)) ++ statics ++
      strings.map fun (literal, address) => (literal.symbol, address))

theorem bindAll_append (symbols : Std.HashMap Symbol UInt32) (front back : List (Symbol × UInt32)) :
    bindAll symbols (front ++ back) = bindAll (bindAll symbols front) back := List.foldl_append

/-- Later bindings of other symbols do not hide a symbol. -/
theorem getElem?_bindAll_of_notMem {symbols : Std.HashMap Symbol UInt32}
    {bindings : List (Symbol × UInt32)} {s : Symbol} (hs : s ∉ bindings.map Prod.fst) :
    (bindAll symbols bindings)[s]? = symbols[s]? := by
  induction bindings generalizing symbols with
  | nil => rfl
  | cons pair bindings ih =>
    rw [List.map_cons, List.mem_cons, not_or] at hs
    unfold bindAll at ih ⊢
    rw [List.foldl_cons, ih hs.2, Std.HashMap.getElem?_insert, if_neg]
    simpa using Ne.symm hs.1

theorem getElem?_bindAll_of_mem {symbols : Std.HashMap Symbol UInt32}
    {bindings : List (Symbol × UInt32)} (hnodup : (bindings.map Prod.fst).Nodup) {s : Symbol} {a : UInt32}
    (hbound : (s, a) ∈ bindings) : (bindAll symbols bindings)[s]? = some a := by
  induction bindings generalizing symbols with
  | nil => cases hbound
  | cons head bindings ih =>
    rw [List.map_cons, List.nodup_cons] at hnodup
    rcases List.mem_cons.mp hbound with rfl | hmem
    · rw [show bindAll symbols ((s, a) :: bindings) = bindAll (symbols.insert s a) bindings from rfl,
        getElem?_bindAll_of_notMem hnodup.1, Std.HashMap.getElem?_insert_self]
    · exact ih hnodup.2 hmem

theorem getElem?_intrinsicSymbols (intrinsic : Intrinsic) :
    ∃ address, (bindAll ∅ intrinsicSymbols)[intrinsic.symbol]? = some address ∧
      Intrinsic.atAddress? address = some intrinsic := by
  refine ⟨intrinsicBase + 4 * UInt32.ofNat (Intrinsic.all.idxOf intrinsic), ?_, ?_⟩
  · cases intrinsic <;>
      simp [bindAll, intrinsicSymbols, Intrinsic.all, Intrinsic.symbol, Std.HashMap.getElem_insert]
  · cases intrinsic <;> decide

theorem link_ok (h : link methods tables options config = .ok (p, store)) :
    Linked methods tables options config p := by
  unfold link at h
  obtain ⟨⟨types, next⟩, htypes, h⟩ := answer_bind.mp h
  obtain ⟨memory, -, h⟩ := answer_bind.mp h
  obtain ⟨⟨statics, next'⟩, hstatics, h⟩ := answer_bind.mp h
  obtain ⟨⟨strings, next''⟩, hstrings, h⟩ := answer_bind.mp h
  obtain ⟨memory', -, h⟩ := answer_bind.mp h
  obtain ⟨rfl, rfl⟩ := Prod.mk.inj (Except.ok.inj h)
  refine ⟨rfl, rfl, rfl, types, next, statics, next', strings, next'', htypes, hstatics,
    hstrings, ?_⟩
  simp only [bindAll_append]

end Link

end Stencil
