import Stencil.Proofs.Machine.Placement
import Stencil.X86.Backend

/-!
# Spans

The spans of a compiled method tile its code in the order of its instructions (`Compilation.tile`). Many of them
are empty and begin where the next one does, and methods lie behind one another, so an index leads back to a span
(`Program.locate?`) only because at most one span that is not empty begins there (`locate?_eq_some_iff`).
-/

namespace Stencil

open Compile Link Stateful

/-! ## Tiles -/

/-- The spans are those of the instructions, in order, and each one starts where the one before it stops, from the
start of the code to its end. -/
structure SpansTile {I : Type} (instructions : List Instruction) (m : CompiledMethod I) : Prop where
  ordered : List.Forall₂ (fun (span : Span) i => span.position = i.position ∧ span.op = i.op) m.spans instructions
  forward : ∀ span ∈ m.spans, span.start ≤ span.stop
  first : m.spans.head?.map Span.start = some 0
  next : m.spans.IsChain fun span after => span.stop = after.start
  last : m.spans.getLast?.map Span.stop = some m.code.length
  /-- The code is that of the spans, one after another. -/
  pieces : m.spans.flatMap m.spanCode = m.code

section Tiles

variable {I : Type} [TargetInstr I] {backend : Backend I} {ctx : EmitContext} {start : Nat}
  {instructions : List Instruction} {steps : List WalkStep} {parts : List (Span × List I)}

namespace Compile.Selected

theorem ordered (h : Selected backend ctx start instructions steps parts) :
    List.Forall₂ (fun (span : Span) i => span.position = i.position ∧ span.op = i.op)
      (parts.map Prod.fst) instructions := by
  induction h with
  | nil => exact .nil
  | cons _ _ _ ih => exact .cons ⟨rfl, rfl⟩ ih

theorem forward (h : Selected backend ctx start instructions steps parts) :
    ∀ span ∈ parts.map Prod.fst, span.start ≤ span.stop := by
  induction h with
  | nil => exact fun _ hspan => absurd hspan List.not_mem_nil
  | cons _ _ _ ih => exact List.forall_mem_cons.mpr ⟨Nat.le_add_right _ _, ih⟩

theorem first (h : Selected backend ctx start instructions steps parts) (hne : instructions ≠ []) :
    (parts.map Prod.fst).head?.map Span.start = some start := by
  cases h with
  | nil => exact absurd rfl hne
  | cons => rfl

theorem next (h : Selected backend ctx start instructions steps parts) :
    (parts.map Prod.fst).IsChain fun span after => span.stop = after.start := by
  induction h with
  | nil => exact .nil
  | cons _ _ hrest ih =>
    cases hrest with
    | nil => exact .singleton _
    | cons => exact .cons_cons rfl ih

theorem last (h : Selected backend ctx start instructions steps parts) (hne : instructions ≠ []) :
    (parts.map Prod.fst).getLast?.map Span.stop = some (start + (parts.flatMap Prod.snd).length) := by
  induction h with
  | nil => exact absurd rfl hne
  | @cons start _ _ _ _ _ code _ _ hrest ih =>
    rw [List.flatMap_cons, List.length_append]
    cases hrest with
    | nil => rfl
    | cons =>
      rw [List.map_cons, List.map_cons, List.getLast?_cons_cons, ← List.map_cons, ih (by simp)]
      dsimp only
      rw [Nat.add_assoc]

/-- Code that goes on with that of the instructions has it in their spans. -/
theorem pieces (h : Selected backend ctx start instructions steps parts) {code : List I}
    (hcode : code.drop start = parts.flatMap Prod.snd) :
    (parts.map Prod.fst).flatMap (fun span => (code.drop span.start).take (span.stop - span.start)) =
      parts.flatMap Prod.snd := by
  induction h with
  | nil => rfl
  | @cons start _ _ _ _ _ emitted _ _ _ ih =>
    rw [List.flatMap_cons] at hcode
    have hrest := ih (by rw [← List.drop_drop, hcode, List.drop_left])
    rw [List.map_cons, List.flatMap_cons, List.flatMap_cons, hrest]
    dsimp only
    rw [hcode, Nat.add_sub_cancel_left, List.take_left]

end Compile.Selected

/-- Every compiled method is tiled by the spans of its bracketed body. -/
theorem Compilation.tile {tables : Table} {options : Options} {body : MethodBody} {m : CompiledMethod I}
    (c : Compilation backend tables options body m) : SpansTile (bracket body.instructions) m := by
  have hcode := c.code_eq
  have hspans := c.spans_eq
  refine ⟨?_, ?_, ?_, ?_, ?_, ?_⟩
  · rw [hspans]
    exact (List.forall₂_map_right_iff.mp c.selected.ordered)
  · rw [hspans]
    exact c.selected.forward
  · rw [hspans]
    exact c.selected.first (by simp [markLabels, bracket])
  · rw [hspans]
    exact c.selected.next
  · rw [hspans, hcode, c.selected.last (by simp [markLabels, bracket]), Nat.zero_add]
  · have hdrop : m.code.drop 0 = _ := hcode
    have hpieces := c.selected.pieces hdrop
    rw [← hspans, ← hcode] at hpieces
    exact hpieces

end Tiles

/-! ## Indexes -/

section Locating

variable {I : Type} {methods : List (CompiledMethod I)} {base start index : Nat} {m : CompiledMethod I}

theorem placeMethods_append (base : Nat) (front back : List (CompiledMethod I)) :
    placeMethods base (front ++ back) =
      placeMethods base front ++ placeMethods (base + (front.flatMap CompiledMethod.code).length) back := by
  induction front generalizing base with
  | nil => rfl
  | cons m front ih =>
    rw [List.cons_append, placeMethods, ih, placeMethods, List.cons_append, List.flatMap_cons, List.length_append,
      Nat.add_assoc]

/-- A method lies behind the code of those before it. -/
theorem mem_placeMethods_iff : (start, m) ∈ placeMethods base methods ↔
    ∃ front back, methods = front ++ m :: back ∧ start = base + (front.flatMap CompiledMethod.code).length := by
  constructor
  · intro h
    induction methods generalizing base with
    | nil => cases h
    | cons first methods ih =>
      rcases List.mem_cons.mp h with heq | hmem
      · obtain ⟨rfl, rfl⟩ := Prod.mk.inj heq
        exact ⟨[], methods, rfl, rfl⟩
      · obtain ⟨front, back, rfl, rfl⟩ := ih hmem
        refine ⟨first :: front, back, rfl, ?_⟩
        rw [List.flatMap_cons, List.length_append, Nat.add_assoc]
  · rintro ⟨front, back, rfl, rfl⟩
    rw [placeMethods_append]
    exact List.mem_append_right _ List.mem_cons_self

/-- What a program keeps of a method that lies at `placed.1`. -/
def linkedMethod (placed : Nat × CompiledMethod I) : LinkedMethod :=
  { symbol := placed.2.symbol, base := placed.1, spans := placed.2.spans, localBytes := placed.2.frame.localBytes }

/-- The last method that starts at an index or before it is the one that the index lies in: methods without code
that start there too come earlier. -/
theorem find?_placeMethods (h : (start, m) ∈ placeMethods base methods) (hlow : start ≤ index)
    (hhigh : index < start + m.code.length) :
    ((placeMethods base methods).map linkedMethod).reverse.find? (·.base ≤ index) = some (linkedMethod (start, m)) := by
  obtain ⟨front, back, rfl, rfl⟩ := mem_placeMethods_iff.mp h
  let after := (placeMethods (base + (front.flatMap CompiledMethod.code).length + m.code.length) back).map linkedMethod
  have hafter : after.reverse.find? (·.base ≤ index) = none := by
    rw [List.find?_eq_none]
    intro later hlater
    obtain ⟨placed, hplaced, rfl⟩ := List.mem_map.mp (List.mem_reverse.mp hlater)
    have hbehind := (placeMethods_le hplaced).1
    rw [decide_eq_true_eq]
    exact Nat.not_le.mpr (hhigh.trans_le hbehind)
  rw [placeMethods_append, placeMethods, List.map_append, List.reverse_append, List.map_cons, List.reverse_cons,
    List.append_assoc, List.find?_append, hafter, Option.none_or, List.singleton_append]
  exact List.find?_cons_of_pos (decide_eq_true hlow)

variable [TargetInstr I] {backend : Backend I} {tables : Table} {options : Options} {config : RunConfig}
  {p : Program I} {store : Store}

theorem methods_of_link (h : link methods tables options config = .ok (p, store)) :
    p.methods = (placeMethods 0 methods).map linkedMethod := by
  unfold link at h
  obtain ⟨⟨types, next⟩, -, h⟩ := answer_bind.mp h
  obtain ⟨memory, -, h⟩ := answer_bind.mp h
  obtain ⟨⟨statics, next'⟩, -, h⟩ := answer_bind.mp h
  obtain ⟨⟨strings, next''⟩, -, h⟩ := answer_bind.mp h
  obtain ⟨memory', -, h⟩ := answer_bind.mp h
  obtain ⟨rfl, -⟩ := Prod.mk.inj (Except.ok.inj h)
  rfl

/-- A span that is not empty starts at this index of the code of the methods, and `site` is that span of its
method. -/
def SpanStarts (methods : List (CompiledMethod I)) (index : Nat) (site : SpanSite) : Prop :=
  ∃ front m back span, methods = front ++ m :: back ∧ span ∈ m.spans ∧ span.start < span.stop ∧
    index = (front.flatMap CompiledMethod.code).length + span.start ∧
    site = { method := m.symbol, span, localBytes := m.frame.localBytes }

/-- Of the spans of a compiled method that start at one place, at most one is not empty, and it is found there. -/
theorem Compilation.find?_span {body : MethodBody} (c : Compilation backend tables options body m) {span : Span}
    (hspan : span ∈ m.spans) (hne : span.start < span.stop) :
    m.spans.find? (fun found => found.start == span.start && decide (found.start < found.stop)) = some span := by
  cases hfound : m.spans.find? fun found => found.start == span.start && decide (found.start < found.stop) with
  | none =>
    have hnone := List.find?_eq_none.mp hfound span hspan
    simp [hne] at hnone
  | some found =>
    have hstarts := List.find?_some hfound
    obtain ⟨hstart, hfoundNe⟩ := Bool.and_eq_true_iff.mp hstarts
    have hstart : found.start = span.start := eq_of_beq hstart
    have hmem := List.mem_of_find?_eq_some hfound
    rw [c.spans_eq] at hspan hmem
    rw [c.selected.unique hmem hspan ⟨Nat.le_refl _, of_decide_eq_true hfoundNe⟩ ⟨hstart.ge, hstart ▸ hne⟩]

/-- An index leads to the span that starts there and is not empty, and to none where there is no such span. -/
theorem locate?_eq_some_iff
    (hcompiled : ∀ m ∈ methods, ∃ tables options body, compileMethod backend tables options body = .ok m)
    (hlink : link methods tables options config = .ok (p, store)) (index : Nat) (site : SpanSite) :
    p.locate? index = some site ↔ SpanStarts methods index site := by
  unfold Program.locate?
  rw [methods_of_link hlink]
  constructor
  · intro h
    obtain ⟨linked, hmethod, h⟩ := Option.bind_eq_some_iff.mp h
    obtain ⟨span, hspan, hsite⟩ := Option.bind_eq_some_iff.mp h
    obtain ⟨⟨start, m⟩, hplaced, rfl⟩ :=
      List.mem_map.mp (List.mem_reverse.mp (List.mem_of_find?_eq_some hmethod))
    have hbefore := List.find?_some hmethod
    have hlow : start ≤ index := of_decide_eq_true hbefore
    have hstarts := List.find?_some hspan
    obtain ⟨hstart, hne⟩ := Bool.and_eq_true_iff.mp hstarts
    obtain ⟨front, back, rfl, rfl⟩ := mem_placeMethods_iff.mp hplaced
    have hstart := eq_of_beq hstart
    refine ⟨front, m, back, span, rfl, List.mem_of_find?_eq_some hspan, of_decide_eq_true hne, ?_,
      (Option.some.inj hsite).symm⟩
    simp only [linkedMethod] at hstart
    omega
  · rintro ⟨front, m, back, span, rfl, hspan, hne, rfl, rfl⟩
    obtain ⟨tables', options', body, hbody⟩ := hcompiled m (by simp)
    obtain ⟨c⟩ := compileMethod_ok hbody
    have hstop := c.selected.stop_le (c.spans_eq ▸ hspan)
    rw [← c.code_eq] at hstop
    have hplaced : ((front.flatMap CompiledMethod.code).length, m) ∈ placeMethods 0 (front ++ m :: back) :=
      mem_placeMethods_iff.mpr ⟨front, back, rfl, (Nat.zero_add _).symm⟩
    have hspanAt := c.find?_span hspan hne
    rw [find?_placeMethods hplaced (Nat.le_add_right _ _) (by omega)]
    simp only [linkedMethod, Nat.add_sub_cancel_left, hspanAt, Option.bind_eq_bind, Option.bind_some, Option.pure_def]

end Locating

/-- The spans of every compiled method tile its code in the order of the bracketed body, and in every program that
is linked from compiled methods an index leads to exactly the span that starts there and is not empty. -/
theorem spans_tile_and_are_located {I : Type} [TargetInstr I] (backend : Backend I) :
    (∀ {tables : Table} {options : Options} {body : MethodBody} {m : CompiledMethod I},
      compileMethod backend tables options body = .ok m → SpansTile (bracket body.instructions) m) ∧
    ∀ {methods : List (CompiledMethod I)} {tables : Table} {options : Options} {config : RunConfig}
      {p : Program I} {store : Store},
      (∀ m ∈ methods, ∃ tables options body, compileMethod backend tables options body = .ok m) →
      link methods tables options config = .ok (p, store) →
      ∀ index site, p.locate? index = some site ↔ SpanStarts methods index site := by
  refine ⟨fun h => ?_, fun hcompiled hlink => locate?_eq_some_iff hcompiled hlink⟩
  obtain ⟨c⟩ := compileMethod_ok h
  exact c.tile

/-- A body with a conversion that does nothing, so that its span is empty. -/
def narrowedBody : MethodBody where
  method := ⟨1, Nat.one_pos⟩
  instructions := [.placed 0 .ldcI41 [], .placed 1 .convI4 [], .placed 2 .pop [], .placed 3 .ret []]

def narrowedTable : Table := Table.addMethod {} (.ofName ⟨1, Nat.one_pos⟩ 0 "narrowed")

/-- In the second of two copies of the body, linked one behind the other, the place of the empty span leads to the
one that follows it. -/
theorem spans_tile_and_are_located_narrowed :
    ∃ m p store span, compileMethod X86.backend narrowedTable {} narrowedBody = .ok m ∧
      link [m, m] narrowedTable {} {} = .ok (p, store) ∧ SpansTile (bracket narrowedBody.instructions) m ∧
      span.position = 2 ∧ p.locate? 12 = some { method := m.symbol, span, localBytes := m.frame.localBytes } := by
  obtain ⟨htiles, hlocates⟩ := spans_tile_and_are_located X86.backend
  have hcompiles : (compileMethod X86.backend narrowedTable {} narrowedBody).toOption.any (fun m =>
      m.code.length = 9 && m.spans.any fun span =>
        span.position = 2 && span.start = 3 && span.start < span.stop) = true := by decide +kernel
  cases hcompiled : compileMethod X86.backend narrowedTable {} narrowedBody with
  | error e =>
    rw [hcompiled] at hcompiles
    cases hcompiles
  | ok m =>
    simp only [hcompiled, Except.toOption, Option.any_some, Bool.and_eq_true, decide_eq_true_eq, List.any_eq_true]
      at hcompiles
    obtain ⟨hlength, span, hspan, ⟨hposition, hstart⟩, hne⟩ := hcompiles
    obtain ⟨⟨p, store⟩, hlink⟩ := exists_of_isOk (rfl : (link [m, m] narrowedTable {} {}).isOk = true)
    have hmethods : ∀ m' ∈ [m, m], ∃ tables options body, compileMethod X86.backend tables options body = .ok m' := by
      intro m' hm'
      obtain rfl : m' = m := by simpa using hm'
      exact ⟨narrowedTable, {}, narrowedBody, hcompiled⟩
    refine ⟨m, p, store, span, rfl, hlink, htiles hcompiled, hposition, ?_⟩
    refine (hlocates hmethods hlink 12 _).mpr ⟨[m], m, [], span, rfl, hspan, hne, ?_, rfl⟩
    simp [hlength, hstart]

end Stencil
