import Stencil.Proofs.Errors.Contract
import Stencil.Proofs.Machine.Faults
import Stencil.Proofs.Machine.Placement
import Stencil.Proofs.Symbols.Basic

/-!
# Symbols that linking binds

Linking binds the symbols of helpers, compiled methods, types, static fields and strings
(`Linked.resolves`). In a closed program these are all the symbols that a template mentions, but for
instance fields: a body may load the token of one, and nothing is stored under its symbol
(`externals_resolve`).
-/

namespace Stencil

open AddressMap Compile Link Stateful

/-! ## Bindings -/

theorem exists_bindAll_of_mem (symbols : Std.HashMap Symbol UInt32) {bindings : List (Symbol × UInt32)}
    {s : Symbol} (hs : s ∈ bindings.map Prod.fst) : ∃ a, (bindAll symbols bindings)[s]? = some a := by
  obtain ⟨pair, hpair, rfl⟩ := List.mem_map.mp hs
  rw [getElem?_bindAll]
  have hfound : (bindings.reverse.find? (·.1 == pair.1)).isSome := by
    rw [List.find?_isSome]
    exact ⟨pair, List.mem_reverse.mpr hpair, beq_self_eq_true _⟩
  obtain ⟨found, hfound⟩ := Option.isSome_iff_exists.mp hfound
  exact ⟨found.2, by rw [hfound]; rfl⟩

section Link

variable {I : Type} [TargetInstr I] {methods : List (CompiledMethod I)} {tables : Table}
  {options : Options} {config : RunConfig} {p : Program I}

/-- The symbols that linking binds, in the order of the bindings. -/
def boundSymbols (methods : List (CompiledMethod I)) (tables : Table) : List Symbol :=
  Intrinsic.all.map Intrinsic.symbol ++ methods.map CompiledMethod.symbol ++
    tables.types.map TypeDescriptor.symbol ++
    (tables.fields.filter FieldDescriptor.isStatic).map FieldDescriptor.symbol ++
    tables.strings.map StringLiteral.symbol

theorem Linked.bound (h : Linked methods tables options config p) :
    ∃ bindings, p.symbols = bindAll ∅ bindings ∧ bindings.map Prod.fst = boundSymbols methods tables := by
  obtain ⟨types, next, statics, next', strings, next'', htypes, hstatics, hstrings, hsymbols⟩ := h.symbols
  refine ⟨_, hsymbols, ?_⟩
  have hmethods : methods.map CompiledMethod.symbol =
      (placeMethods 0 methods).map (fun pair => pair.2.symbol) := by
    rw [← Function.comp_def, ← List.map_map, map_snd_placeMethods]
  rw [boundSymbols, hmethods, ← types_of_placeTypes htypes, ← map_fst_placeStatics hstatics,
    ← map_fst_placeStrings hstrings]
  simp only [List.map_append, List.map_map, Function.comp_def]
  rfl

theorem Linked.resolves (h : Linked methods tables options config p) {s : Symbol}
    (hs : s ∈ boundSymbols methods tables) : p.Resolves s := by
  obtain ⟨bindings, hsymbols, hbound⟩ := h.bound
  obtain ⟨a, ha⟩ := exists_bindAll_of_mem ∅ (hbound ▸ hs)
  exact ⟨a, by rw [Program.resolve, hsymbols, ha]⟩

theorem Linked.resolve_of_notMem (h : Linked methods tables options config p) {s : Symbol}
    (hs : s ∉ boundSymbols methods tables) : p.resolve s = .error (.unknownSymbol s) := by
  obtain ⟨bindings, hsymbols, hbound⟩ := h.bound
  rw [Program.resolve, hsymbols, getElem?_bindAll_of_notMem (hbound ▸ hs), Std.HashMap.getElem?_empty]

end Link

/-! ## Externals of a method -/

section Externals

variable {I : Type} [TargetInstr I] [RaiseCode I] {backend : Backend I} {tables : Table} {options : Options}
  {body : MethodBody} {m : CompiledMethod I}

omit [RaiseCode I] in
theorem mem_externals (h : compileMethod backend tables options body = .ok m) {s : Symbol} :
    s ∈ m.externals ↔ s ∈ m.code.flatMap TargetInstr.symbols := by
  unfold compileMethod at h
  obtain ⟨_, -, h⟩ := answer_bind.mp h
  obtain ⟨_, -, h⟩ := answer_bind.mp h
  obtain ⟨_, -, h⟩ := answer_bind.mp h
  obtain ⟨_, -, h⟩ := answer_bind.mp h
  obtain ⟨parts, -, h⟩ := answer_bind.mp h
  obtain rfl := Except.ok.inj h
  show s ∈ sortedSymbols (List.flatMap _ _) ↔ _
  rw [sortedSymbols, Std.TreeSet.mem_toList, ← Std.TreeSet.contains_iff_mem, Std.TreeSet.contains_ofList]
  exact List.contains_iff_mem

/-- Labels mention nothing, and a target's templates mention what is mentionable. -/
structure Backend.MentionsTemplates (backend : Backend I) : Prop where
  label : ∀ l, TargetInstr.symbols (TargetInstr.label l : I) = []
  template : ∀ ctx i e, Mentions (Mentionable ctx i e) (Raisable ctx i) (backend.emit ctx i e).code

/-- What a method mentions is mentionable for one of its instructions, or is an exception. -/
theorem Compilation.mentionable (c : Compilation backend tables options body m)
    (hbackend : backend.MentionsTemplates) {s : Symbol} (hs : s ∈ m.code.flatMap TargetInstr.symbols) :
    ∃ pair ∈ c.marked.zip c.steps, Mentionable c.ctx pair.1 pair.2.effect s ∨
      ∃ intrinsic, Raisable c.ctx pair.1 intrinsic ∧ s = intrinsic.symbol := by
  obtain ⟨instr, hinstr, hs⟩ := List.mem_flatMap.mp hs
  rw [c.code_eq] at hinstr
  rcases c.selected.mem_code hinstr with ⟨l, rfl⟩ | ⟨pair, hpair, hinstr⟩
  · rw [hbackend.label l] at hs
    cases hs
  · exact ⟨pair, hpair, (hbackend.template _ _ _).symbols (List.mem_flatMap.mpr ⟨instr, hinstr, hs⟩)⟩

/-- The simulation lets an instruction access the storage of static fields only. -/
theorem isStatic_of_operate {env : SimEnv} {i : Instruction} {s s' : SimState} {field : FieldDescriptor}
    (hop : i.op.operation.accessesStatic = true) (hfield : env.tables.resolveField i = .ok field)
    (h : Sim.operate env i i.op.operation s = .ok () s') : field.isStatic = true := by
  have hstatic : ∀ {item t u}, Sim.staticField env i t = .ok item u → field.isStatic = true := by
    intro item t u h
    obtain ⟨field', _, hlift, h⟩ := bind_eq_ok.mp h
    obtain rfl := Except.ok.inj ((Sim.lift_ok.mp hlift).1.symm.trans hfield)
    cases hstatic : field'.isStatic with
    | true => rfl
    | false =>
      rw [hstatic] at h
      cases h
  generalize i.op.operation = op at hop h
  cases op with
  | loadStatic | storeStatic =>
    obtain ⟨item, _, hitem, -⟩ := bind_eq_ok.mp h
    exact hstatic hitem
  | loadStaticAddress =>
    obtain ⟨_, _, hitem, -⟩ := bind_eq_ok.mp h
    obtain ⟨item, hitem⟩ := Sim.discard_ok hitem
    exact hstatic hitem
  | _ => cases hop

omit [RaiseCode I] in
theorem Compilation.isStatic (c : Compilation backend tables options body m) {pair : Instruction × WalkStep}
    (hpair : pair ∈ c.marked.zip c.steps) (hop : pair.1.op.operation.accessesStatic = true)
    {field : FieldDescriptor} (hfield : tables.resolveField pair.1 = .ok field) : field.isStatic = true := by
  obtain ⟨k, hk⟩ := List.mem_iff_getElem?.mp hpair
  obtain ⟨hi, hstep⟩ := List.getElem?_zip_eq_some.mp hk
  obtain ⟨targets, step, w, u, w', hvisit⟩ := Walk.visit_of_getElem? c.rewalked hi
  have hsimulate := hvisit.stepped.simulate
  unfold simulate at hsimulate
  split at hsimulate
  · cases hsimulate
  · split at hsimulate
    · rename_i hrun
      exact isStatic_of_operate hop hfield hrun
    · cases hsimulate

/-- A body loads the token of an instance field that has this symbol. -/
def LoadsInstanceToken (tables : Table) (body : MethodBody) (s : Symbol) : Prop :=
  ∃ i ∈ body.instructions, i.op.operation = .loadToken ∧ i.typeRef = none ∧
    ∃ field, tables.resolveField i = .ok field ∧ field.isStatic = false ∧ field.symbol = s

/-- What an instruction of a span mentions, its template mentions there. -/
theorem Selects.mentions (hbackend : backend.MentionsTemplates) {ctx : EmitContext} {i : Instruction} {span : Span}
    {p : Program I} {base k : Nat} (h : Selects backend ctx i span fun n => p.code[base + n]?)
    (hk : span.HoldsAt base k) {instr : I} (hinstr : p.code[k]? = some instr) {s : Symbol}
    (hs : s ∈ TargetInstr.symbols instr) :
    Mentionable ctx i span.effect s ∨ ∃ intrinsic, Raisable ctx i intrinsic ∧ s = intrinsic.symbol ∧
      ∃ j, k = j + (RaiseCode.lead (I := I)).length ∧ span.HoldsAt base j ∧
        ∀ (n : Nat) instr, (RaiseCode.lead (I := I))[n]? = some instr → p.code[j + n]? = some instr := by
  obtain ⟨n, rfl, hn⟩ := h.inside hk hinstr
  have hlabel : ∀ l, Mentions (Mentionable ctx i span.effect) (Raisable ctx i) [(TargetInstr.label l : I)] :=
    fun l => .of_none (by rw [List.flatMap_singleton, hbackend.label])
  have hmentions : Mentions (Mentionable ctx i span.effect) (Raisable ctx i)
      (labelled ctx i (backend.emit ctx i span.effect).code) :=
    .append (.ite (hlabel _) .nil) (hbackend.template ctx i span.effect)
  refine (hmentions n instr hn s hs).imp_right fun ⟨intrinsic, hraisable, hsymbol, _, j, hj, hlead⟩ => ?_
  obtain ⟨hlow, hhigh⟩ := (h.outside hn).1
  refine ⟨intrinsic, hraisable, hsymbol, base + (span.start + j), by omega, ⟨by omega, by omega⟩,
    fun n instr hn => ?_⟩
  rw [Nat.add_assoc, Nat.add_assoc]
  exact (h.outside (hlead n instr hn)).2

end Externals

/-! ## Intrinsics -/

section Intrinsics

theorem Intrinsic.symbol_inj {k k' : Intrinsic} (h : k.symbol = k'.symbol) : k = k' := by
  cases k <;> cases k' <;> first | rfl | exact absurd h (by decide)

/-- Where a template mentions the symbol of an intrinsic, it means the intrinsic, unless a field has this
symbol. -/
theorem mentionable_intrinsic {ctx : EmitContext} {i : Instruction} {e : Effect}
    (hsymbols : ctx.tables.DistinctSymbols) {k : Intrinsic} (h : Mentionable ctx i e k.symbol) :
    (k.raises = false ∧ (k = .release → i.op.operation = .pop ∧ (e.operand 0).isNew = true)) ∨
      ∃ field, ctx.tables.resolveField i = .ok field ∧ field.symbol = k.symbol ∧
        (i.op.operation.accessesStatic = true ∨ i.op.operation = .loadToken) := by
  have hnot := hsymbols.plain k
  simp only [Table.symbols, List.mem_append, not_or] at hnot
  obtain ⟨⟨⟨hmethods, htypes⟩, -⟩, hstrings⟩ := hnot
  generalize hsymbol : k.symbol = s at h
  cases h with
  | @intrinsic k' hraises hrelease =>
    obtain rfl := Intrinsic.symbol_inj hsymbol
    exact .inl ⟨hraises, hrelease⟩
  | type htype =>
    rw [hsymbol] at htypes
    exact absurd (List.mem_map_of_mem (mem_values.mpr ⟨_, htype⟩)) htypes
  | method hmethod =>
    rw [hsymbol] at hmethods
    exact absurd (List.mem_map_of_mem (mem_values.mpr ⟨_, hmethod⟩)) hmethods
  | string hstring =>
    rw [hsymbol] at hstrings
    exact absurd (List.mem_map_of_mem (mem_values.mpr ⟨_, hstring⟩)) hstrings
  | static hop hfield => exact .inr ⟨_, hfield, rfl, .inl hop⟩
  | token hop _ hfield => exact .inr ⟨_, hfield, rfl, .inr hop⟩

end Intrinsics

/-! ## Closed programs -/

section Closed

variable {I : Type} [TargetInstr I] [RaiseCode I] {backend : Backend I} {tables : Table} {options : Options}
  {bodies : List MethodBody} {methods : List (CompiledMethod I)} {config : RunConfig} {p : Program I}
  {store : Store}

/-- All methods of a table were compiled, each one from a body of its own. -/
structure ClosedProgram (backend : Backend I) (tables : Table) (options : Options) (bodies : List MethodBody)
    (methods : List (CompiledMethod I)) : Prop where
  built : tables.Built
  covered : ∀ d ∈ tables.methods, ∃ body ∈ bodies, body.method = d.id
  compiled : compileAll backend tables options bodies = .ok methods

/-- The symbol of an instance field whose token some body loads. -/
def InstanceToken (tables : Table) (bodies : List MethodBody) (s : Symbol) : Prop :=
  ∃ body ∈ bodies, LoadsInstanceToken tables body s

omit [RaiseCode I] in
/-- A method of the table is linked under its symbol. -/
theorem ClosedProgram.symbol_mem (h : ClosedProgram backend tables options bodies methods)
    {d : MethodDescriptor} (hd : d ∈ tables.methods) : d.symbol ∈ methods.map CompiledMethod.symbol := by
  obtain ⟨body, hbody, hid⟩ := h.covered d hd
  obtain ⟨m, hm, hcompiled⟩ := (mem_of_answer_mapM h.compiled).2 body hbody
  obtain ⟨c⟩ := compileMethod_ok hcompiled
  have hmethod : tables.method? d.id = some c.method := hid ▸ c.resolved
  obtain rfl := Option.some.inj (hmethod.symm.trans (h.built.method?_of_mem hd))
  exact c.symbol_eq ▸ List.mem_map_of_mem hm

theorem loadToken_real {op : Opcode} (h : op.operation = .loadToken) : op.isPseudo = false := by
  cases op <;> first | rfl | cases h

/-- In a closed program only the tokens of instance fields are missing. -/
theorem externals_resolve (hbackend : backend.MentionsTemplates)
    (h : ClosedProgram backend tables options bodies methods) (hlinked : Linked methods tables options config p)
    {m : CompiledMethod I} (hm : m ∈ methods) {s : Symbol} (hs : s ∈ m.externals) :
    p.Resolves s ∨ InstanceToken tables bodies s := by
  obtain ⟨body, hbody, hcompiled⟩ := (mem_of_answer_mapM h.compiled).1 m hm
  obtain ⟨c⟩ := compileMethod_ok hcompiled
  obtain ⟨pair, hpair, hmentionable⟩ := c.mentionable hbackend ((mem_externals hcompiled).mp hs)
  have hbound : s ∈ boundSymbols methods tables → p.Resolves s ∨ InstanceToken tables bodies s :=
    fun hs => .inl (hlinked.resolves hs)
  simp only [boundSymbols, List.mem_append] at hbound
  have hintrinsic : ∀ k : Intrinsic, s = k.symbol → p.Resolves s ∨ InstanceToken tables bodies s := by
    rintro k rfl
    have hall : k ∈ Intrinsic.all := by cases k <;> decide
    exact hbound (.inl (.inl (.inl (.inl (List.mem_map_of_mem hall)))))
  rcases hmentionable with hmentionable | ⟨k, -, hraised⟩
  · cases hmentionable with
    | intrinsic => exact hintrinsic _ rfl
    | type htype =>
      exact hbound (.inl (.inl (.inr (List.mem_map_of_mem (mem_values.mpr ⟨_, htype⟩)))))
    | method hmethod =>
      exact hbound (.inl (.inl (.inl (.inr (h.symbol_mem (mem_values.mpr ⟨_, hmethod⟩))))))
    | string hstring => exact hbound (.inr (List.mem_map_of_mem (mem_values.mpr ⟨_, hstring⟩)))
    | @static field hop hfield =>
      obtain ⟨id, -, hid⟩ := resolveField_ok hfield
      refine hbound (.inl (.inr (List.mem_map_of_mem (List.mem_filter.mpr ⟨mem_values.mpr ⟨_, hid⟩, ?_⟩))))
      exact c.isStatic hpair hop hfield
    | @token field hop hplain hfield =>
      obtain ⟨id, -, hid⟩ := resolveField_ok hfield
      cases hstatic : field.isStatic with
      | true =>
        exact hbound (.inl (.inr (List.mem_map_of_mem (List.mem_filter.mpr ⟨mem_values.mpr ⟨_, hid⟩, hstatic⟩))))
      | false =>
        obtain ⟨j, hj, labelRequired, hmarked⟩ := mem_markLabels (List.of_mem_zip hpair).1
        rw [hmarked] at hop hplain hfield
        have hreal := mem_of_mem_bracket hj (loadToken_real hop)
        exact .inr ⟨body, hbody, j, hreal, hop, hplain, field, hfield, hstatic, rfl⟩
  · exact hintrinsic k hraised

/-- A fault for want of a symbol is about the token of an instance field. -/
def NotUnknown {M : Type} (tables : Table) (bodies : List MethodBody) (fault : Fault) (_ : M) : Prop :=
  ∀ s, fault = .unknownSymbol s → InstanceToken tables bodies s

theorem ClosedProgram.allows {M : Type} [LabelUse I] (h : ClosedProgram backend tables options bodies methods)
    (hbackend : backend.MentionsTemplates) (hlinked : Linked methods tables options config p) :
    Allows p (NotUnknown tables bodies : Fault → M → Prop) where
  plain := by
    rintro fault m hplain s rfl
    exact hplain.elim
  instr {index instr} hinstr := {
    mechanical := by
      rintro fault m hmechanical s rfl
      exact hmechanical.elim
    label := fun _ => .inr fun _ _ heq => nomatch heq
    symbol := by
      intro s hs
      have hmem : instr ∈ methods.flatMap CompiledMethod.code := by
        rw [hlinked.code, List.getElem?_toArray] at hinstr
        exact List.mem_of_getElem? hinstr
      obtain ⟨m, hm, hmem⟩ := List.mem_flatMap.mp hmem
      obtain ⟨body, -, hcompiled⟩ := (mem_of_answer_mapM h.compiled).1 m hm
      have hexternal := (mem_externals hcompiled).mpr (List.mem_flatMap.mpr ⟨instr, hmem, hs⟩)
      refine (externals_resolve hbackend h hlinked hm hexternal).imp_right fun htoken _ s' heq => ?_
      cases heq
      exact htoken }

end Closed

end Stencil
