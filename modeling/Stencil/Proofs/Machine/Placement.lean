import Stencil.Proofs.Dispatch.Tables

/-!
# Where linking puts things

Methods lie one behind the other, and in a method the spans of its instructions. So every instruction of a
linked program lies in one span (`exists_spanAt`, `SpanAt.unique`), and the code of a span is a template,
behind its label if it has one (`SpanAt.selects`). A symbol leads to an intrinsic, to the first instruction
of a method, or to data below the heap (`Linked.resolve_cases`).
-/

namespace Stencil

open AddressMap Compile Link Stateful

/-! ## Methods -/

section Methods

variable {I : Type} {methods : List (CompiledMethod I)} {base : Nat}

theorem placeMethods_le {pair : Nat × CompiledMethod I} (h : pair ∈ placeMethods base methods) :
    base ≤ pair.1 ∧ pair.1 + pair.2.code.length ≤ base + (methods.flatMap CompiledMethod.code).length := by
  induction methods generalizing base with
  | nil => cases h
  | cons m methods ih =>
    rw [List.flatMap_cons, List.length_append]
    rcases List.mem_cons.mp h with rfl | hmem
    · exact ⟨Nat.le_refl _, by dsimp only; omega⟩
    · obtain ⟨hle, hend⟩ := ih hmem
      exact ⟨by omega, by omega⟩

/-- The instructions of a program lie in those of its methods. -/
theorem exists_placeMethods (base : Nat) {k : Nat} {instr : I}
    (h : (methods.flatMap CompiledMethod.code)[k]? = some instr) :
    ∃ start m n, (start, m) ∈ placeMethods base methods ∧ m.code[n]? = some instr ∧ base + k = start + n := by
  induction methods generalizing base k with
  | nil => cases h
  | cons m methods ih =>
    rw [List.flatMap_cons] at h
    by_cases hk : k < m.code.length
    · rw [List.getElem?_append_left hk] at h
      exact ⟨base, m, k, List.mem_cons_self, h, rfl⟩
    · rw [List.getElem?_append_right (Nat.le_of_not_lt hk)] at h
      obtain ⟨start, m', n, hplaced, hn, hindex⟩ := ih (base + m.code.length) h
      exact ⟨start, m', n, List.mem_cons_of_mem _ hplaced, hn, by omega⟩

/-- The instructions of a method lie behind its first one. -/
theorem getElem?_of_placeMethods {start : Nat} {m : CompiledMethod I} (h : (start, m) ∈ placeMethods base methods)
    {n : Nat} {instr : I} (hinstr : m.code[n]? = some instr) :
    (methods.flatMap CompiledMethod.code)[start + n - base]? = some instr := by
  have hn : n < m.code.length := (List.getElem?_eq_some_iff.mp hinstr).1
  induction methods generalizing base with
  | nil => cases h
  | cons m' methods ih =>
    rw [List.flatMap_cons]
    rcases List.mem_cons.mp h with heq | hmem
    · obtain ⟨rfl, rfl⟩ := Prod.mk.inj heq
      rw [Nat.add_sub_cancel_left, List.getElem?_append_left hn, hinstr]
    · have hle := (placeMethods_le hmem).1
      have hrest := ih hmem
      dsimp only at hle
      rw [List.getElem?_append_right (by omega), ← hrest]
      congr 1
      omega

theorem placeMethods_unique {start start' k : Nat} {m m' : CompiledMethod I}
    (h : (start, m) ∈ placeMethods base methods) (h' : (start', m') ∈ placeMethods base methods)
    (hk : start ≤ k ∧ k < start + m.code.length) (hk' : start' ≤ k ∧ k < start' + m'.code.length) :
    start = start' ∧ m = m' := by
  induction methods generalizing base with
  | nil => cases h
  | cons first methods ih =>
    rcases List.mem_cons.mp h with heq | hmem <;> rcases List.mem_cons.mp h' with heq' | hmem'
    · obtain ⟨rfl, rfl⟩ := Prod.mk.inj heq
      obtain ⟨rfl, rfl⟩ := Prod.mk.inj heq'
      exact ⟨rfl, rfl⟩
    · obtain ⟨rfl, rfl⟩ := Prod.mk.inj heq
      have hle := (placeMethods_le hmem').1
      dsimp only at hle
      omega
    · obtain ⟨rfl, rfl⟩ := Prod.mk.inj heq'
      have hle := (placeMethods_le hmem).1
      dsimp only at hle
      omega
    · exact ih hmem hmem'

theorem placeMethods_ordered {start start' : Nat} {m m' : CompiledMethod I}
    (h : (start, m) ∈ placeMethods base methods) (h' : (start', m') ∈ placeMethods base methods)
    (hlt : start < start') : start + m.code.length ≤ start' := by
  induction methods generalizing base with
  | nil => cases h
  | cons first methods ih =>
    rcases List.mem_cons.mp h with heq | hmem <;> rcases List.mem_cons.mp h' with heq' | hmem'
    · obtain ⟨rfl, rfl⟩ := Prod.mk.inj heq
      obtain ⟨rfl, rfl⟩ := Prod.mk.inj heq'
      exact absurd hlt (Nat.lt_irrefl _)
    · obtain ⟨rfl, rfl⟩ := Prod.mk.inj heq
      exact (placeMethods_le hmem').1
    · obtain ⟨rfl, rfl⟩ := Prod.mk.inj heq'
      have hle := (placeMethods_le hmem).1
      dsimp only at hle
      omega
    · exact ih hmem hmem'

end Methods

/-! ## Spans -/

section Spans

variable {I : Type} [TargetInstr I] {backend : Backend I} {ctx : EmitContext} {start : Nat}
  {instructions : List Instruction} {steps : List WalkStep} {parts : List (Span × List I)}

/-- The index, counted from the first instruction of the method, lies in the span. -/
def Span.Holds (span : Span) (n : Nat) : Prop := span.start ≤ n ∧ n < span.stop

/-- The code of the span is that of `i`, from the start of the span on. -/
structure Selects (backend : Backend I) (ctx : EmitContext) (i : Instruction) (span : Span)
    (fetch : Nat → Option I) : Prop where
  op : span.op = i.op
  emitted : (backend.emit ctx i span.effect).failure = none
  stop : span.stop = span.start + (labelled ctx i (backend.emit ctx i span.effect).code).length
  fetches : ∀ n instr, (labelled ctx i (backend.emit ctx i span.effect).code)[n]? = some instr →
    fetch (span.start + n) = some instr

/-- An instruction in the span is one of its label and template. -/
theorem Selects.mem {i : Instruction} {span : Span} {fetch : Nat → Option I}
    (h : Selects backend ctx i span fetch) {n : Nat} (hn : span.Holds n) {instr : I} (hinstr : fetch n = some instr) :
    (labelled ctx i (backend.emit ctx i span.effect).code)[n - span.start]? = some instr := by
  obtain ⟨hlow, hhigh⟩ := hn
  have hstop := h.stop
  have hlt : n - span.start < (labelled ctx i (backend.emit ctx i span.effect).code).length := by omega
  have hfetch := h.fetches _ _ (List.getElem?_eq_getElem hlt)
  rw [Nat.add_sub_cancel' hlow, hinstr] at hfetch
  rw [List.getElem?_eq_getElem hlt, hfetch]

namespace Compile.Selected

theorem start_le (h : Selected backend ctx start instructions steps parts) {span : Span}
    (hspan : span ∈ parts.map Prod.fst) : start ≤ span.start := by
  induction h with
  | nil => cases hspan
  | cons _ _ _ ih =>
    rcases List.mem_cons.mp hspan with rfl | hmem
    · exact Nat.le_refl _
    · exact Nat.le_trans (Nat.le_add_right _ _) (ih hmem)

theorem stop_le (h : Selected backend ctx start instructions steps parts) {span : Span}
    (hspan : span ∈ parts.map Prod.fst) : span.stop ≤ start + (parts.flatMap Prod.snd).length := by
  induction h with
  | nil => cases hspan
  | @cons start i step _ _ parts code _ _ _ ih =>
    rw [List.flatMap_cons, List.length_append]
    rcases List.mem_cons.mp hspan with rfl | hmem
    · exact Nat.add_le_add_left (Nat.le_add_right _ _) _
    · have hrest := ih hmem
      dsimp only
      omega

theorem unique (h : Selected backend ctx start instructions steps parts) {span span' : Span}
    (hspan : span ∈ parts.map Prod.fst) (hspan' : span' ∈ parts.map Prod.fst) {n : Nat} (hn : span.Holds n)
    (hn' : span'.Holds n) : span = span' := by
  obtain ⟨hlow, hhigh⟩ := hn
  obtain ⟨hlow', hhigh'⟩ := hn'
  induction h with
  | nil => cases hspan
  | cons _ _ hrest ih =>
    rcases List.mem_cons.mp hspan with heq | hmem <;> rcases List.mem_cons.mp hspan' with heq' | hmem'
    · exact heq.trans heq'.symm
    · have hle := hrest.start_le hmem'
      rw [heq] at hhigh
      exact absurd hhigh (Nat.not_lt.mpr (Nat.le_trans hle hlow'))
    · have hle := hrest.start_le hmem
      rw [heq'] at hhigh'
      exact absurd hhigh' (Nat.not_lt.mpr (Nat.le_trans hle hlow))
    · exact ih hmem hmem'

theorem selects (h : Selected backend ctx start instructions steps parts) {j : Nat} {span : Span}
    (hspan : (parts.map Prod.fst)[j]? = some span) :
    ∃ i step, instructions[j]? = some i ∧ steps[j]? = some step ∧ span.effect = step.effect ∧
      Selects backend ctx i span fun n => (parts.flatMap Prod.snd)[n - start]? := by
  induction h generalizing j with
  | nil => cases hspan
  | @cons start i step _ _ parts code hfailure hcode hrest ih =>
    cases j with
    | zero =>
      obtain rfl := Option.some.inj hspan
      refine ⟨i, step, rfl, rfl, rfl, rfl, hfailure, by rw [hcode], fun n instr hn => ?_⟩
      dsimp only at hn ⊢
      have hlt : n < code.length := hcode ▸ (List.getElem?_eq_some_iff.mp hn).1
      rw [Nat.add_sub_cancel_left, List.flatMap_cons, List.getElem?_append_left hlt, hcode, hn]
    | succ j =>
      obtain ⟨i', step', hi, hstep, heffect, hselects⟩ := ih hspan
      have hle := hrest.start_le (List.mem_of_getElem? hspan)
      refine ⟨i', step', hi, hstep, heffect, hselects.op, hselects.emitted, hselects.stop, fun n instr hn => ?_⟩
      have hfetch := hselects.fetches n instr hn
      have hpast : code.length ≤ span.start + n - start := by omega
      rw [List.flatMap_cons, List.getElem?_append_right hpast, ← hfetch]
      rw [Nat.sub_sub]

theorem located (h : Selected backend ctx start instructions steps parts) {k : Nat}
    (hk : k < (parts.flatMap Prod.snd).length) : ∃ span ∈ parts.map Prod.fst, span.Holds (start + k) := by
  induction h generalizing k with
  | nil => cases hk
  | @cons start i step instructions steps parts code hfailure hcode hrest ih =>
    rw [List.flatMap_cons, List.length_append] at hk
    by_cases hfirst : k < code.length
    · exact ⟨_, List.mem_cons_self, Nat.le_add_right _ _, Nat.add_lt_add_left hfirst _⟩
    · dsimp only at hk
      obtain ⟨span, hspan, hholds⟩ := ih (k := k - code.length) (by omega)
      have hindex : start + code.length + (k - code.length) = start + k := by omega
      exact ⟨span, List.mem_cons_of_mem _ hspan, hindex ▸ hholds⟩

end Compile.Selected

end Spans

section Linked

variable {I : Type} [TargetInstr I] {backend : Backend I} {tables : Table} {options : Options}
  {methods : List (CompiledMethod I)} {config : RunConfig} {p : Program I}

/-- The span belongs to a method whose first instruction has the index `base`. -/
def SpanAt (methods : List (CompiledMethod I)) (base : Nat) (span : Span) : Prop :=
  ∃ m, (base, m) ∈ placeMethods 0 methods ∧ span ∈ m.spans

/-- The index lies in the span of a method that starts at `base`. -/
def Span.HoldsAt (span : Span) (base k : Nat) : Prop := base + span.start ≤ k ∧ k < base + span.stop

/-- The span is that of instruction `j` of a compiled method. -/
structure Compilation.Spans {body : MethodBody} {m : CompiledMethod I}
    (c : Compilation backend tables options body m) (j : Nat) (i : Instruction) (span : Span) : Prop where
  marked : c.marked[j]? = some i
  effect : ∃ step, c.steps[j]? = some step ∧ span.effect = step.effect
  placed : m.spans[j]? = some span

variable (hcompiled : ∀ m ∈ methods, ∃ body, compileMethod backend tables options body = .ok m)
  (hlinked : Linked methods tables options config p)

include hcompiled

omit [TargetInstr I] hcompiled in
theorem mem_of_placeMethods {base : Nat} {m : CompiledMethod I} (h : (base, m) ∈ placeMethods 0 methods) :
    m ∈ methods := by
  rw [← map_snd_placeMethods 0 methods]
  exact List.mem_map_of_mem h

theorem SpanAt.stop_le {base : Nat} {span : Span} (h : SpanAt methods base span) :
    ∃ m, (base, m) ∈ placeMethods 0 methods ∧ span ∈ m.spans ∧ span.stop ≤ m.code.length := by
  obtain ⟨m, hplaced, hspan⟩ := h
  obtain ⟨body, hbody⟩ := hcompiled m (mem_of_placeMethods hplaced)
  obtain ⟨c⟩ := compileMethod_ok hbody
  have hstop := c.selected.stop_le (c.spans_eq ▸ hspan)
  rw [← c.code_eq, Nat.zero_add] at hstop
  exact ⟨m, hplaced, hspan, hstop⟩

theorem SpanAt.unique {base base' k : Nat} {span span' : Span} (h : SpanAt methods base span)
    (h' : SpanAt methods base' span') (hk : span.HoldsAt base k) (hk' : span'.HoldsAt base' k) :
    base = base' ∧ span = span' := by
  obtain ⟨hlow, hhigh⟩ := hk
  obtain ⟨hlow', hhigh'⟩ := hk'
  obtain ⟨m, hplaced, hspan, hstop⟩ := h.stop_le hcompiled
  obtain ⟨m', hplaced', hspan', hstop'⟩ := h'.stop_le hcompiled
  obtain ⟨rfl, rfl⟩ := placeMethods_unique hplaced hplaced' (k := k) ⟨by omega, by omega⟩ ⟨by omega, by omega⟩
  obtain ⟨body, hbody⟩ := hcompiled m (mem_of_placeMethods hplaced)
  obtain ⟨c⟩ := compileMethod_ok hbody
  rw [c.spans_eq] at hspan hspan'
  exact ⟨rfl, c.selected.unique hspan hspan' (n := k - base) ⟨by omega, by omega⟩ ⟨by omega, by omega⟩⟩

include hlinked

theorem SpanAt.selects {base : Nat} {span : Span} (h : SpanAt methods base span) :
    ∃ (body : MethodBody) (m : CompiledMethod I) (c : Compilation backend tables options body m) (j : Nat)
      (i : Instruction), (base, m) ∈ placeMethods 0 methods ∧ c.Spans j i span ∧
        Selects backend c.ctx i span fun n => p.code[base + n]? := by
  obtain ⟨m, hplaced, hspan⟩ := h
  obtain ⟨body, hbody⟩ := hcompiled m (mem_of_placeMethods hplaced)
  obtain ⟨c⟩ := compileMethod_ok hbody
  obtain ⟨j, hj⟩ := List.mem_iff_getElem?.mp hspan
  obtain ⟨i, step, hi, hstep, heffect, hselects⟩ := c.selected.selects (c.spans_eq ▸ hj)
  refine ⟨body, m, c, j, i, hplaced, ⟨hi, ⟨step, hstep, heffect⟩, hj⟩, hselects.op, hselects.emitted, hselects.stop,
    fun n instr hn => ?_⟩
  have hfetch := hselects.fetches n instr hn
  rw [← c.code_eq] at hfetch
  rw [hlinked.code, List.getElem?_toArray]
  exact getElem?_of_placeMethods hplaced hfetch

theorem SpanAt.stop_le_size {base : Nat} {span : Span} (h : SpanAt methods base span) :
    base + span.stop ≤ p.code.size := by
  obtain ⟨m, hplaced, -, hstop⟩ := h.stop_le hcompiled
  have hend := (placeMethods_le hplaced).2
  rw [hlinked.code, List.size_toArray]
  dsimp only at hend
  omega

theorem SpanAt.lt_size {base k : Nat} {span : Span} (h : SpanAt methods base span) (hk : span.HoldsAt base k) :
    k < p.code.size :=
  hk.2.trans_le (h.stop_le_size hcompiled hlinked)

theorem SpanAt.start_le_size {base : Nat} {span : Span} (h : SpanAt methods base span) :
    base + span.start ≤ p.code.size := by
  obtain ⟨_, _, _, _, _, -, -, hselects⟩ := h.selects hcompiled hlinked
  have hstop := hselects.stop
  have hend := h.stop_le_size hcompiled hlinked
  omega

omit hcompiled hlinked in
theorem Selects.inside {ctx : EmitContext} {i : Instruction} {span : Span} {base k : Nat}
    (h : Selects backend ctx i span fun n => p.code[base + n]?) (hk : span.HoldsAt base k) {instr : I}
    (hinstr : p.code[k]? = some instr) :
    ∃ n, k = base + (span.start + n) ∧ (labelled ctx i (backend.emit ctx i span.effect).code)[n]? = some instr := by
  obtain ⟨hlow, hhigh⟩ := hk
  refine ⟨k - base - span.start, by omega, h.mem (n := k - base) ⟨by omega, by omega⟩ ?_⟩
  rw [Nat.add_sub_cancel' (by omega : base ≤ k), hinstr]

omit hcompiled hlinked in
theorem Selects.outside {ctx : EmitContext} {i : Instruction} {span : Span} {base n : Nat}
    (h : Selects backend ctx i span fun n => p.code[base + n]?) {instr : I}
    (hn : (labelled ctx i (backend.emit ctx i span.effect).code)[n]? = some instr) :
    span.HoldsAt base (base + (span.start + n)) ∧ p.code[base + (span.start + n)]? = some instr := by
  have hlength := (List.getElem?_eq_some_iff.mp hn).1
  have hstop := h.stop
  exact ⟨⟨by omega, by omega⟩, h.fetches n instr hn⟩

/-- Every instruction of a linked program lies in a span. -/
theorem exists_spanAt {k : Nat} (hk : k < p.code.size) : ∃ base span, SpanAt methods base span ∧ span.HoldsAt base k := by
  have hinstr : (methods.flatMap CompiledMethod.code)[k]? = some p.code[k] := by
    rw [← List.getElem?_toArray, ← hlinked.code, Array.getElem?_eq_getElem hk]
  obtain ⟨base, m, n, hplaced, hn, hindex⟩ := exists_placeMethods 0 hinstr
  obtain ⟨body, hbody⟩ := hcompiled m (mem_of_placeMethods hplaced)
  obtain ⟨c⟩ := compileMethod_ok hbody
  rw [c.code_eq] at hn
  obtain ⟨span, hspan, hlow, hhigh⟩ := c.selected.located (List.getElem?_eq_some_iff.mp hn).1
  rw [← c.spans_eq] at hspan
  exact ⟨base, span, ⟨m, hplaced, hspan⟩, by omega, by omega⟩

end Linked

/-! ## Symbols -/

section Low

variable {tables : Table} {pointerSize : Nat} {next stop : UInt32}

theorem placeTypes_low {size : UInt32} {types : List TypeDescriptor} {places : List TypePlace}
    (h : placeTypes size next types = .ok (places, stop)) (hnext : next.toNat ≤ 0x100000) :
    ∀ place ∈ places, place.address.toNat ≤ 0x100000 := by
  induction types generalizing next places with
  | nil =>
    obtain ⟨rfl, rfl⟩ := Prod.mk.inj (Except.ok.inj h)
    exact fun _ hplace => absurd hplace List.not_mem_nil
  | cons type types ih =>
    obtain ⟨address, mid, table, mid', rest, haddress, htable, hrest, rfl⟩ := placeTypes_cons_ok h
    obtain ⟨rfl, -, -⟩ := takeData_ok haddress
    exact List.forall_mem_cons.mpr ⟨hnext, ih hrest (takeData_ok htable).2.2⟩

theorem placeStatics_low {fields : List FieldDescriptor} {statics : List (Symbol × UInt32)}
    (h : placeStatics tables pointerSize next fields = .ok (statics, stop)) (hnext : next.toNat ≤ 0x100000) :
    (∀ binding ∈ statics, binding.2.toNat ≤ 0x100000) ∧ stop.toNat ≤ 0x100000 := by
  induction fields generalizing next statics with
  | nil =>
    obtain ⟨rfl, rfl⟩ := Prod.mk.inj (Except.ok.inj h)
    exact ⟨fun _ hbinding => absurd hbinding List.not_mem_nil, hnext⟩
  | cons field fields ih =>
    unfold placeStatics at h
    obtain ⟨⟨address, mid⟩, haddress, h⟩ := answer_bind.mp h
    obtain ⟨⟨rest, last⟩, hrest, h⟩ := answer_bind.mp h
    obtain ⟨rfl, rfl⟩ := Prod.mk.inj (Except.ok.inj h)
    obtain ⟨rfl, -, hmid⟩ := takeData_ok haddress
    obtain ⟨hlow, hstop⟩ := ih hrest hmid
    exact ⟨List.forall_mem_cons.mpr ⟨hnext, hlow⟩, hstop⟩

end Low

section Symbols

variable {I : Type} [TargetInstr I] {tables : Table} {options : Options} {methods : List (CompiledMethod I)}
  {config : RunConfig} {p : Program I}

/-- A symbol leads to an intrinsic, to a method or to data. -/
theorem Linked.resolve_cases (h : Linked methods tables options config p) {s : Symbol} {a : UInt32}
    (hresolve : p.resolve s = .ok a) :
    (∃ (k : Nat) (hk : k < Intrinsic.all.length), s = Intrinsic.all[k].symbol ∧
        a = intrinsicBase + 4 * UInt32.ofNat k) ∨
      (∃ base m, (base, m) ∈ placeMethods 0 methods ∧ a = codeAddress base) ∨ a.toNat ≤ 0x100000 := by
  obtain ⟨types, next, statics, next', strings, next'', htypes, hstatics, hstrings, hsymbols⟩ := h.symbols
  have hnext := placeTypes_le htypes (by decide)
  have hnext' := (placeStatics_low hstatics hnext).2
  rw [Program.resolve, hsymbols, getElem?_bindAll] at hresolve
  simp only [Std.HashMap.getElem?_empty, Option.or_none] at hresolve
  split at hresolve
  · rename_i found hfound
    obtain rfl := Except.ok.inj hresolve
    obtain ⟨⟨s', a⟩, hfind, ha⟩ := Option.map_eq_some_iff.mp hfound
    obtain rfl : a = found := ha
    have hkey := List.find?_some hfind
    obtain rfl : s' = s := eq_of_beq hkey
    have hmem := List.mem_reverse.mp (List.mem_of_find?_eq_some hfind)
    simp only [List.mem_append] at hmem
    rcases hmem with (((hintrinsic | hmethod) | htype) | hstatic) | hstring
    · obtain ⟨k, hk, hpair⟩ := List.mem_mapIdx.mp hintrinsic
      obtain ⟨rfl, rfl⟩ := Prod.mk.inj hpair
      exact .inl ⟨k, hk, rfl, rfl⟩
    · obtain ⟨⟨base, m⟩, hplaced, hpair⟩ := List.mem_map.mp hmethod
      obtain ⟨rfl, rfl⟩ := Prod.mk.inj hpair
      exact .inr (.inl ⟨base, m, hplaced, rfl⟩)
    · obtain ⟨place, hplace, hpair⟩ := List.mem_map.mp htype
      obtain ⟨rfl, rfl⟩ := Prod.mk.inj hpair
      exact .inr (.inr (placeTypes_low htypes (by decide) place hplace))
    · exact .inr (.inr ((placeStatics_low hstatics hnext).1 _ hstatic))
    · obtain ⟨⟨literal, address⟩, hliteral, hpair⟩ := List.mem_map.mp hstring
      obtain ⟨rfl, rfl⟩ := Prod.mk.inj hpair
      have hend : address.toNat + 8 ≤ 0x100000 := (placeStrings_ge hstrings hnext' _ hliteral).2
      exact .inr (.inr (show address.toNat ≤ 0x100000 by omega))
  · cases hresolve

theorem Linked.labelAddress_ok (h : Linked methods tables options config p) {l : Label} {a : UInt32}
    (hlabel : p.labelAddress l = .ok a) :
    ∃ k instr, a = codeAddress k ∧ p.code[k]? = some instr ∧ TargetInstr.asLabel? instr = some l := by
  unfold Program.labelAddress at hlabel
  split at hlabel
  · rename_i k hk
    rw [h.labels] at hk
    obtain ⟨j, instr, rfl, hinstr, hbinds⟩ := mem_labelsFrom.mp (mem_of_getElem?_ofList hk)
    refine ⟨_, instr, (Except.ok.inj hlabel).symm, ?_, hbinds⟩
    rw [h.code, List.getElem?_toArray, Nat.zero_add]
    exact hinstr
  · cases hlabel

end Symbols

end Stencil
