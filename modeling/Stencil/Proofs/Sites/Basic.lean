import Stencil.Proofs.Machine.Released
import Stencil.Proofs.Running.Invocation
import Stencil.Proofs.Symbols.Link

/-!
# Sites of exceptions

The code of a span raises an exception by a call of an intrinsic, with the address that another intrinsic told
in front of the call. In a linked program no other calls of a span get to such an intrinsic
(`raised_of_call`). So a run that stays in the span (`StaysIn`) and ends with an exception reports the address
of an instruction of the span, as long as no register leads the run astray (`Strays`).
-/

namespace Stencil

open AddressMap Compile Link

/-! ## Runs inside of a span -/

/-- How a machine finds its way through a program. -/
class Steering (I : Type) (M : outParam Type) where
  cycle : Program I → EStateM Fault M Unit
  pc : M → UInt32
  /-- What lies at the address comes next, and behind it what follows in order. -/
  StartsAt : M → UInt32 → Prop
  /-- Where an instruction goes that calls through a register. -/
  callTarget? : M → I → Option UInt32
  /-- Where an instruction goes that jumps through a register. -/
  jumpTarget? : M → I → Option UInt32

section Steering

variable {I M : Type} [Steering I M] {p : Program I} {base : Nat} {span : Span} {stray : M → Prop} {m t : M}

/-- An instruction of the span comes next, or an intrinsic. -/
def ControlIn (I : Type) {M : Type} [Steering I M] (base : Nat) (span : Span) (m : M) : Prop :=
  (∃ k, span.HoldsAt base k ∧ Steering.pc I m = codeAddress k) ∨ Intrinsic.atAddress? (Steering.pc I m) ≠ none

/-- A register is about to lead the machine to an intrinsic. -/
def CallsByPointer (p : Program I) (m : M) : Prop :=
  ∃ k instr a, Steering.pc I m = codeAddress k ∧ p.code[k]? = some instr ∧
    (Steering.callTarget? m instr = some a ∨ Steering.jumpTarget? m instr = some a) ∧ Intrinsic.atAddress? a ≠ none

/-- A call through a register is about to lead into the span, but not to its first instruction. -/
def CallsInto (p : Program I) (base : Nat) (span : Span) (m : M) : Prop :=
  ∃ k instr j, Steering.pc I m = codeAddress k ∧ p.code[k]? = some instr ∧
    Steering.callTarget? m instr = some (codeAddress j) ∧ span.HoldsAt base j ∧ j ≠ base + span.start

/-- A register is about to lead the machine to an intrinsic, or back into the span. -/
def Strays (p : Program I) (base : Nat) (span : Span) (m : M) : Prop := CallsByPointer p m ∨ CallsInto p base span m

/-- The machine runs on to the second one inside of the span, and does not go astray. -/
inductive StaysIn (p : Program I) (base : Nat) (span : Span) (stray : M → Prop) : M → M → Prop
  | here {m : M} (hinside : ControlIn I base span m) (hstray : ¬stray m) : StaysIn p base span stray m m
  | step {m u t : M} (hinside : ControlIn I base span m) (hstray : ¬stray m) (hcycle : Steering.cycle p m = .ok () u)
      (hrest : StaysIn p base span stray u t) : StaysIn p base span stray m t

namespace StaysIn

theorem start (h : StaysIn p base span stray m t) : ControlIn I base span m := by
  cases h with
  | here hinside | step hinside => exact hinside

theorem stop (h : StaysIn p base span stray m t) : ControlIn I base span t ∧ ¬stray t := by
  induction h with
  | here hinside hstray => exact ⟨hinside, hstray⟩
  | step _ _ _ _ ih => exact ih

/-- What holds at first and is kept by each cycle inside of the span holds at last. -/
theorem invariant {W : M → Prop} (h : StaysIn p base span stray m t) (hm : W m)
    (hcycle : ∀ m t, W m → ControlIn I base span m → ¬stray m → Steering.cycle p m = .ok () t →
      ControlIn I base span t → W t) : W t := by
  induction h with
  | here => exact hm
  | step hinside hstray hnext hrest ih => exact ih (hcycle _ _ hm hinside hstray hnext hrest.start)

end StaysIn

/-- The machine runs inside of the span, does not go astray, and ends with this fault. -/
def EndsInside (p : Program I) (base : Nat) (span : Span) (stray : M → Prop) (fault : Fault) (m : M) : Prop :=
  ∃ t u, StaysIn p base span stray m t ∧ Steering.cycle p t = .error fault u

namespace EndsInside

variable {fault : Fault}

theorem here (hinside : ControlIn I base span m) (hstray : ¬stray m) (h : ∃ u, Steering.cycle p m = .error fault u) :
    EndsInside p base span stray fault m := by
  obtain ⟨u, hcycle⟩ := h
  exact ⟨m, u, .here hinside hstray, hcycle⟩

theorem step {P : M → Prop} (hinside : ControlIn I base span m) (hstray : ¬stray m)
    (h : Succeeds (Steering.cycle p) m P) (hnext : ∀ t, P t → EndsInside p base span stray fault t) :
    EndsInside p base span stray fault m := by
  obtain ⟨m', hcycle, hm'⟩ := h
  obtain ⟨t, u, hrest, hfault⟩ := hnext m' hm'
  exact ⟨t, u, .step hinside hstray hcycle hrest, hfault⟩

end EndsInside

theorem instr_unique {k k' : Nat} {instr instr' : I} (hfits : p.code.size < codeLimit)
    (hpc : Steering.pc I m = codeAddress k) (hinstr : p.code[k]? = some instr)
    (hpc' : Steering.pc I m = codeAddress k') (hinstr' : p.code[k']? = some instr') : instr' = instr := by
  have hlt := (Array.getElem?_eq_some_iff.mp hinstr).1
  have hlt' := (Array.getElem?_eq_some_iff.mp hinstr').1
  obtain rfl := (codeAddress_inj (by omega) (by omega)).mp (hpc.symm.trans hpc')
  exact Option.some.inj (hinstr'.symm.trans hinstr)

/-- An instruction leads to no intrinsic if its register does not. -/
theorem not_callsByPointer {k : Nat} {instr : I} (hfits : p.code.size < codeLimit)
    (hpc : Steering.pc I m = codeAddress k) (hinstr : p.code[k]? = some instr)
    (hplain : ∀ a, Steering.callTarget? m instr = some a ∨ Steering.jumpTarget? m instr = some a →
      Intrinsic.atAddress? a = none) : ¬CallsByPointer p m := by
  rintro ⟨k', instr', a, hpc', hinstr', htarget, hat⟩
  obtain rfl := instr_unique hfits hpc hinstr hpc' hinstr'
  exact hat (hplain a htarget)

theorem not_callsByPointer_of_none {k : Nat} {instr : I} (hfits : p.code.size < codeLimit)
    (hpc : Steering.pc I m = codeAddress k) (hinstr : p.code[k]? = some instr)
    (hcall : Steering.callTarget? m instr = none) (hjump : Steering.jumpTarget? m instr = none) :
    ¬CallsByPointer p m := by
  refine not_callsByPointer hfits hpc hinstr fun a htarget => ?_
  rw [hcall, hjump] at htarget
  simp at htarget

/-- An instruction does not lead astray if it neither calls nor jumps through a register. -/
theorem not_strays {k : Nat} {instr : I} (hfits : p.code.size < codeLimit) (hpc : Steering.pc I m = codeAddress k)
    (hinstr : p.code[k]? = some instr) (hcall : Steering.callTarget? m instr = none)
    (hjump : Steering.jumpTarget? m instr = none) : ¬Strays p base span m := by
  rintro (hpointer | ⟨k', instr', j, hpc', hinstr', htarget, -⟩)
  · exact not_callsByPointer_of_none hfits hpc hinstr hcall hjump hpointer
  · obtain rfl := instr_unique hfits hpc hinstr hpc' hinstr'
    cases hcall.symm.trans htarget

theorem not_strays_of_intrinsic (hfits : p.code.size < codeLimit)
    (hat : Intrinsic.atAddress? (Steering.pc I m) ≠ none) : ¬Strays p base span m := by
  have hcode : ∀ {k instr}, p.code[k]? = some instr → Steering.pc I m ≠ codeAddress k := by
    intro k instr hinstr hpc
    have hlt := (Array.getElem?_eq_some_iff.mp hinstr).1
    rw [hpc, atAddress?_codeAddress (by omega)] at hat
    exact hat rfl
  rintro (⟨k, instr, a, hpc, hinstr, -⟩ | ⟨k, instr, j, hpc, hinstr, -⟩)
  · exact hcode hinstr hpc
  · exact hcode hinstr hpc

namespace EndsInside

variable {fault : Fault} {k : Nat} {instr : I}

/-- An instruction of the span runs that neither calls nor jumps through a register. -/
theorem order {P : M → Prop} (hfits : p.code.size < codeLimit) (hk : span.HoldsAt base k)
    (hpc : Steering.pc I m = codeAddress k) (hinstr : p.code[k]? = some instr)
    (hcall : Steering.callTarget? m instr = none) (hjump : Steering.jumpTarget? m instr = none)
    (h : Succeeds (Steering.cycle p) m P) (hnext : ∀ t, P t → EndsInside p base span (Strays p base span) fault t) :
    EndsInside p base span (Strays p base span) fault m :=
  .step (.inl ⟨k, hk, hpc⟩) (not_strays hfits hpc hinstr hcall hjump) h hnext

end EndsInside

end Steering

/-! ## Faults that are no exceptions -/

section Quiet

variable {I M : Type}

/-- The fault is no exception. -/
def Quiet (fault : Fault) (_ : M) : Prop := fault.raised? = none

theorem Quiet.of_mechanical {fault : Fault} {m : M} (h : fault.Mechanical) : Quiet fault m := h.raised?

theorem allows_quiet [TargetInstr I] [LabelUse I] (p : Program I) (instr : I) :
    AllowsInstr p (Quiet : Fault → M → Prop) instr where
  mechanical := Quiet.of_mechanical
  label _ := .inr fun _ => rfl
  symbol _ := .inr fun _ => rfl

theorem OnlyFaultsAt.ne_raised {α : Type} {x : EStateM Fault M α} {m t : M} (h : OnlyFaultsAt Quiet x m) {fault : Fault}
    {raised : Intrinsic × UInt32} (hraised : fault.raised? = some raised) : x m ≠ .error fault t := by
  intro hfault
  cases (h fault t hfault).symm.trans hraised

end Quiet

/-! ## Where symbols and labels lead -/

section Symbols

variable {I : Type} [TargetInstr I] {backend : Backend I} {tables : Table} {options : Options}
  {methods : List (CompiledMethod I)} {config : RunConfig} {p : Program I}

/-- A symbol that is bound among the last has an address from there. -/
theorem mem_of_bindAll_back {symbols : Std.HashMap Symbol UInt32} {front back : List (Symbol × UInt32)} {s : Symbol}
    {a : UInt32} (hs : s ∈ back.map Prod.fst) (h : (bindAll symbols (front ++ back))[s]? = some a) :
    ∃ pair ∈ back, pair.2 = a := by
  have hfound : (back.reverse.find? (·.1 == s)).isSome := by
    obtain ⟨pair, hpair, rfl⟩ := List.mem_map.mp hs
    exact List.find?_isSome.mpr ⟨pair, List.mem_reverse.mpr hpair, beq_self_eq_true _⟩
  obtain ⟨pair, hpair⟩ := Option.isSome_iff_exists.mp hfound
  rw [bindAll_append, getElem?_bindAll, hpair] at h
  exact ⟨pair, List.mem_reverse.mp (List.mem_of_find?_eq_some hpair), Option.some.inj h⟩

/-- The symbol of a type, of a static field or of a string leads to data. -/
theorem Linked.low_of_dataSymbols (h : Linked methods tables options config p) {s : Symbol}
    (hs : s ∈ tables.dataSymbols) {a : UInt32} (hresolve : p.resolve s = .ok a) : a.toNat ≤ 0x100000 := by
  obtain ⟨types, next, statics, next', strings, next'', htypes, hstatics, hstrings, hsymbols⟩ := h.symbols
  have hnext := placeTypes_le htypes (by decide)
  have hnext' := (placeStatics_low hstatics hnext).2
  have hbound : p.symbols[s]? = some a := by
    unfold Program.resolve at hresolve
    split at hresolve
    · rename_i hfound
      rw [hfound, Except.ok.inj hresolve]
    · cases hresolve
  rw [hsymbols, List.append_assoc, List.append_assoc] at hbound
  rw [Table.dataSymbols, ← types_of_placeTypes htypes, ← map_fst_placeStatics hstatics,
    ← map_fst_placeStrings hstrings, List.append_assoc] at hs
  obtain ⟨pair, hpair, rfl⟩ := mem_of_bindAll_back (by simpa [Function.comp_def] using hs) hbound
  rcases List.mem_append.mp hpair with htype | hrest
  · obtain ⟨place, hplace, rfl⟩ := List.mem_map.mp htype
    exact placeTypes_low htypes (by decide) place hplace
  rcases List.mem_append.mp hrest with hstatic | hstring
  · exact (placeStatics_low hstatics hnext).1 pair hstatic
  · obtain ⟨⟨literal, address⟩, hliteral, rfl⟩ := List.mem_map.mp hstring
    have hend : address.toNat + 8 ≤ 0x100000 := (placeStrings_ge hstrings hnext' _ hliteral).2
    show address.toNat ≤ 0x100000
    omega

/-- Labels of a linked program stand where their addresses say. -/
theorem Linked.binds_of_labelAddress (h : Linked methods tables options config p) (hfits : p.code.size < codeLimit)
    {k : Nat} (hk : k < codeLimit) {l : Label} (hlabel : p.labelAddress l = .ok (codeAddress k)) :
    ∃ instr, p.code[k]? = some instr ∧ TargetInstr.asLabel? instr = some l := by
  obtain ⟨j, instr, hj, hinstr, hbinds⟩ := h.labelAddress_ok hlabel
  have hlt := (Array.getElem?_eq_some_iff.mp hinstr).1
  obtain rfl := (codeAddress_inj (by omega) (by omega)).mp hj
  exact ⟨instr, hinstr, hbinds⟩

variable (hcompiled : ∀ m ∈ methods, ∃ body, compileMethod backend tables options body = .ok m)
  (hlinked : Linked methods tables options config p)

include hcompiled hlinked

/-- The instruction that comes next is one of the span. -/
theorem ControlIn.holdsAt {M : Type} [Steering I M] {m : M} (hfits : p.code.size < codeLimit) {base k : Nat}
    {span : Span} (hspan : SpanAt methods base span) (h : ControlIn I base span m)
    (hpc : Steering.pc I m = codeAddress k) (hk : k < codeLimit) : span.HoldsAt base k := by
  rcases h with ⟨k', hk', hpc'⟩ | hat
  · have hlt := hspan.lt_size hcompiled hlinked hk'
    obtain rfl := (codeAddress_inj (by omega) (by omega)).mp (hpc.symm.trans hpc')
    exact hk'
  · rw [hpc, atAddress?_codeAddress hk] at hat
    exact absurd rfl hat

/-- A symbol leads to no instruction of a span but its first one. -/
theorem SpanAt.start_of_symbol (hfits : p.code.size < codeLimit) {base k : Nat} {span : Span}
    (hspan : SpanAt methods base span) (hk : span.HoldsAt base k) {s : Symbol}
    (hresolve : p.resolve s = .ok (codeAddress k)) : k = base + span.start := by
  have hlt := hspan.lt_size hcompiled hlinked hk
  have hcode := toNat_codeAddress (k := k) (by omega)
  rcases hlinked.resolve_cases hresolve with ⟨n, hn, -, haddress⟩ | ⟨start, m, hplaced, haddress⟩ | hlow
  · have hat := atAddress?_all n hn
    rw [← haddress, atAddress?_codeAddress (by omega)] at hat
    cases hat
  · have hend := (placeMethods_le hplaced).2
    rw [hlinked.code, List.size_toArray] at hlt hfits
    dsimp only at hend
    obtain rfl := (codeAddress_inj (by omega) (by omega)).mp haddress
    obtain ⟨m', hplaced', -, hstop⟩ := hspan.stop_le hcompiled
    obtain ⟨hlow, hhigh⟩ := hk
    by_cases hfirst : base < k
    · have hordered := placeMethods_ordered hplaced' hplaced hfirst
      omega
    · omega
  · omega

end Symbols

/-! ## Calls that raise -/

section Raises

variable {I : Type} [TargetInstr I] [RaiseCode I] {backend : Backend I} {tables : Table} {options : Options}
  {methods : List (CompiledMethod I)} {config : RunConfig} {p : Program I}

/-- Calls mention what they call, the code in front of one that raises begins with a call itself, and tokens are
loaded without calls. -/
structure Backend.RaisesByCalls (backend : Backend I) : Prop where
  lead : (RaiseCode.lead (I := I))[0]? = some (RaiseCode.calls Intrinsic.callSite.symbol)
  symbols : ∀ s, TargetInstr.symbols (RaiseCode.calls s : I) = [s]
  token : ∀ ctx i e, i.op.operation = .loadToken → ∀ s, RaiseCode.calls s ∉ (backend.emit ctx i e).code

/-- The code that tells an address for an exception lies at this index. -/
def LeadsAt (p : Program I) (j : Nat) : Prop :=
  ∀ (n : Nat) instr, (RaiseCode.lead (I := I))[n]? = some instr → p.code[j + n]? = some instr

/-- The exceptions that the code of the span may raise. -/
abbrev Span.MayRaise (span : Span) (backend : Backend I) (options : Options) : Intrinsic → Prop :=
  span.op.operation.MayRaise (options.policy.getD backend.defaultPolicy).guardIndirect

omit [RaiseCode I] in
/-- What the templates that may raise lack, the spans of their instructions lack. -/
theorem SpanAt.lacks {kind : I → Bool} {raised : Intrinsic} (hlabel : ∀ l, kind (TargetInstr.label l) = false)
    (hemit : ∀ ctx i e, (backend.emit ctx i e).failure = none → Raisable ctx i raised →
      Lacks kind (backend.emit ctx i e).code)
    (hcompiled : ∀ m ∈ methods, ∃ body, compileMethod backend tables options body = .ok m)
    (hlinked : Linked methods tables options config p) {base k : Nat} {span : Span} (hspan : SpanAt methods base span)
    (hmay : span.MayRaise backend options raised) (hk : span.HoldsAt base k) {instr : I}
    (hinstr : p.code[k]? = some instr) : kind instr = false := by
  obtain ⟨body, m, c, n, i, -, -, hselects⟩ := hspan.selects hcompiled hlinked
  obtain ⟨_, -, hn⟩ := hselects.inside hk hinstr
  rw [Span.MayRaise, hselects.op] at hmay
  rcases List.mem_append.mp (List.mem_of_getElem? hn) with hmem | hmem
  · split at hmem
    · rw [List.mem_singleton.mp hmem]
      exact hlabel _
    · cases hmem
  · exact (hemit _ _ _ hselects.emitted hmay).of_mem hmem

variable (hbackend : backend.MentionsTemplates) (hcalls : backend.RaisesByCalls)
  (hcompiled : ∀ m ∈ methods, ∃ body, compileMethod backend tables options body = .ok m)
  (hlinked : Linked methods tables options config p) (hfits : p.code.size < codeLimit)
  (hplain : ∀ d ∈ tables.methods, ∀ intrinsic : Intrinsic, d.symbol ≠ intrinsic.symbol)

include hbackend hcalls hcompiled hlinked hfits hplain

/-- Where a call of a span gets to an intrinsic that raises, it is an exception of the span's instruction. -/
theorem raised_of_call {base k : Nat} {span : Span} (hspan : SpanAt methods base span) (hk : span.HoldsAt base k)
    {s : Symbol} (hinstr : p.code[k]? = some (RaiseCode.calls s)) {a : UInt32} (hresolve : p.resolve s = .ok a)
    {raised : Intrinsic} (hat : Intrinsic.atAddress? a = some raised) (hraises : raised.raises = true) :
    span.MayRaise backend options raised ∧
      ∃ j, k = j + (RaiseCode.lead (I := I)).length ∧ span.HoldsAt base j ∧ LeadsAt p j := by
  obtain ⟨body, m, c, n, i, -, hspans, hselects⟩ := hspan.selects hcompiled hlinked
  have hne : raised ≠ .callSite := by
    rintro rfl
    cases hraises
  obtain rfl := hlinked.symbol_of_intrinsicAddress hfits.le hresolve hat hne
  have hmem : raised.symbol ∈ TargetInstr.symbols (RaiseCode.calls raised.symbol : I) := by
    rw [hcalls.symbols]
    exact List.mem_singleton_self _
  have hdata : raised.symbol ∉ tables.dataSymbols := by
    intro hs
    have hlow := hlinked.low_of_dataSymbols hs hresolve
    exact hne (callSite_of_low (by omega) hat)
  simp only [Table.dataSymbols, List.mem_append, not_or] at hdata
  obtain ⟨⟨htypes, hstatics⟩, hstrings⟩ := hdata
  rcases hselects.mentions hbackend hk hinstr hmem with
    hmentionable | ⟨intrinsic, hraisable, hsymbol, j, rfl, hj, hlead⟩
  · exfalso
    generalize hsymbol : raised.symbol = s at hmentionable
    cases hmentionable with
    | intrinsic hquiet =>
      obtain rfl := Intrinsic.symbol_inj hsymbol
      rw [hquiet] at hraises
      cases hraises
    | type htype =>
      rw [hsymbol] at htypes
      exact htypes (List.mem_map_of_mem (mem_values.mpr ⟨_, htype⟩))
    | method hmethod => exact hplain _ (mem_values.mpr ⟨_, hmethod⟩) raised hsymbol.symm
    | string hstring =>
      rw [hsymbol] at hstrings
      exact hstrings (List.mem_map_of_mem (mem_values.mpr ⟨_, hstring⟩))
    | static hop hfield =>
      obtain ⟨id, -, hid⟩ := resolveField_ok hfield
      obtain ⟨step, hstep, -⟩ := hspans.effect
      have hpair : (i, step) ∈ c.marked.zip c.steps :=
        List.mem_of_getElem? (List.getElem?_zip_eq_some.mpr ⟨hspans.marked, hstep⟩)
      rw [hsymbol] at hstatics
      refine hstatics (List.mem_map_of_mem (List.mem_filter.mpr ⟨mem_values.mpr ⟨_, hid⟩, ?_⟩))
      exact c.isStatic hpair hop hfield
    | token hop =>
      obtain ⟨_, -, hn⟩ := hselects.inside hk hinstr
      rcases List.mem_append.mp (List.mem_of_getElem? hn) with hlabel | htemplate
      · split at hlabel
        · rw [List.mem_singleton.mp hlabel, hbackend.label] at hmem
          cases hmem
        · cases hlabel
      · exact hcalls.token _ _ _ hop _ htemplate
  · obtain rfl := Intrinsic.symbol_inj hsymbol
    refine ⟨?_, j, rfl, hj, hlead⟩
    rw [Span.MayRaise, hselects.op]
    exact hraisable

/-! ## Sites -/

omit [TargetInstr I] hbackend hcalls hcompiled hlinked hfits hplain in
theorem raises_of_raised {fault : Fault} {raised : Intrinsic} {site : UInt32}
    (h : fault.raised? = some (raised, site)) : raised.raises = true := by
  cases fault <;> cases h <;> rfl

/-- A call that tells its own address lies in the span at this address. -/
def IsSite (p : Program I) (base : Nat) (span : Span) (site : UInt32) : Prop :=
  ∃ k, p.indexOf site = .ok k ∧ p.code[k]? = some (RaiseCode.calls Intrinsic.callSite.symbol) ∧ span.HoldsAt base k

/-- A call of the span got to an intrinsic that raises; if the exception is one of the instruction, it was given
the address of the code in front. -/
def GivesSite (p : Program I) (base : Nat) (span : Span) (raised : Intrinsic) (site : UInt32) (may : Prop) : Prop :=
  ∃ k s a, span.HoldsAt base k ∧ p.code[k]? = some (RaiseCode.calls s) ∧ p.resolve s = .ok a ∧
    Intrinsic.atAddress? a = some raised ∧
    (may → ∀ j, k = j + (RaiseCode.lead (I := I)).length → span.HoldsAt base j → LeadsAt p j → site = codeAddress j)

theorem isSite_of_givesSite {base : Nat} {span : Span} (hspan : SpanAt methods base span) {raised : Intrinsic}
    {site : UInt32} (hraises : raised.raises = true)
    (h : GivesSite p base span raised site (span.MayRaise backend options raised)) :
    IsSite p base span site ∧ span.MayRaise backend options raised := by
  obtain ⟨k, s, a, hk, hinstr, hresolve, hat, hsite⟩ := h
  obtain ⟨hmay, j, hj, hholds, hleads⟩ :=
    raised_of_call hbackend hcalls hcompiled hlinked hfits hplain hspan hk hinstr hresolve hat hraises
  obtain rfl := hsite hmay j hj hholds hleads
  have hlt := hspan.lt_size hcompiled hlinked hholds
  exact ⟨⟨j, Program.indexOf_codeAddress hfits.le hlt, hleads 0 _ hcalls.lead, hholds⟩, hmay⟩

end Raises

/-- A run from the first instruction of a span that stays in the span, does not go astray and ends with an
exception reports the address of a call that lies in the span and tells its own address, and the exception is one
of the span's instruction. -/
def ReportsSites {I M : Type} [TargetInstr I] [RaiseCode I] [Steering I M] (backend : Backend I) (tables : Table)
    (options : Options) (methods : List (CompiledMethod I)) (stray : Program I → Nat → Span → M → Prop) : Prop :=
  ∀ {config p store}, link methods tables options config = .ok (p, store) → p.code.size < codeLimit →
    ∀ {base span}, SpanAt methods base span → ∀ {m t t' fault raised site},
      Steering.StartsAt I m (codeAddress (base + span.start)) → StaysIn p base span (stray p base span) m t →
      Steering.cycle p t = .error fault t' → fault.raised? = some (raised, site) →
      IsSite p base span site ∧ span.MayRaise backend options raised

end Stencil
