import Stencil.Proofs.Mips.Faults
import Stencil.Proofs.Mips.Symbols
import Stencil.Proofs.Symbols.Link
import Stencil.Proofs.X86.Faults
import Stencil.Proofs.X86.Symbols

/-!
# Closed programs on both targets

A program that is compiled from one body for every method of its table finds all symbols when it runs,
unless it loads the token of an instance field.
-/

namespace Stencil

open Stateful

theorem X86.backend_mentionsTemplates : X86.backend.MentionsTemplates where
  label _ := rfl
  template := X86.emit_mentions

theorem Mips.backend_mentionsTemplates : Mips.backend.MentionsTemplates where
  label _ := rfl
  template := Mips.emit_mentions

/-- Of the symbols that the methods of the closed program mention, and of those that its runs need, only
those of instance fields whose tokens it loads are missing. -/
structure LinksCompletely {I M : Type} [TargetInstr I] (backend : Backend I) (machine : MachineOps I M)
    (tables : Table) (options : Options) (bodies : List MethodBody) : Prop where
  external : ∀ {methods config p store}, ClosedProgram backend tables options bodies methods →
    link methods tables options config = .ok (p, store) →
    ∀ m ∈ methods, ∀ s ∈ m.externals, p.Resolves s ∨ InstanceToken tables bodies s
  entry : ∀ {methods config p store}, ClosedProgram backend tables options bodies methods →
    link methods tables options config = .ok (p, store) → ∀ d ∈ tables.methods, p.Resolves d.symbol
  run : ∀ {methods config p store}, ClosedProgram backend tables options bodies methods →
    link methods tables options config = .ok (p, store) → ∀ {entry}, p.Resolves entry →
    ∀ args returnBytes start s stop, machine.invoke p entry args returnBytes start = .error (.unknownSymbol s) stop →
      InstanceToken tables bodies s

theorem linksCompletely_of_templates {I M : Type} [TargetInstr I] [LabelUse I] [RaiseCode I] {backend : Backend I}
    {machine : MachineOps I M} (hbackend : backend.MentionsTemplates)
    (hinvoke : ∀ {p : Program I} {tables : Table} {bodies : List MethodBody} {entry : Symbol},
      Allows p (NotUnknown tables bodies : Fault → M → Prop) → p.Resolves entry → ∀ args returnBytes,
        OnlyFaults (NotUnknown tables bodies) (machine.invoke p entry args returnBytes))
    (tables : Table) (options : Options) (bodies : List MethodBody) :
    LinksCompletely backend machine tables options bodies where
  external hclosed hlink _ hm _ hs := externals_resolve hbackend hclosed (link_ok hlink) hm hs
  entry hclosed hlink d hd := by
    refine (link_ok hlink).resolves ?_
    simp only [boundSymbols, List.mem_append]
    exact .inl (.inl (.inl (.inr (hclosed.symbol_mem hd))))
  run hclosed hlink _ hentry args returnBytes start s stop hrun :=
    hinvoke (hclosed.allows hbackend (link_ok hlink)) hentry args returnBytes start _ stop hrun s rfl

/-- Closed programs link completely on both targets, but for the tokens of instance fields. -/
theorem closed_programs_link (tables : Table) (options : Options) (bodies : List MethodBody) :
    LinksCompletely X86.backend X86.Machine.ops tables options bodies ∧
    LinksCompletely Mips.backend Mips.Machine.ops tables options bodies := by
  constructor
  · exact linksCompletely_of_templates X86.backend_mentionsTemplates
      (fun h hentry => X86.Machine.invoke_faults h (.inl hentry)) tables options bodies
  · exact linksCompletely_of_templates Mips.backend_mentionsTemplates
      (fun h hentry => Mips.Machine.invoke_faults h (fun _ _ _ _ _ _ _ _ _ _ _ heq => nomatch heq) (.inl hentry))
      tables options bodies

/-! ## Samples -/

section Samples

def sevenMethod : MethodDescriptor :=
  { MethodDescriptor.ofName ⟨1, Nat.one_pos⟩ 2 "seven" with returnType := some 1 }

/-- A class with one field of its instances. -/
def tankTable : Table :=
  ((Table.addType {} (.primitive 1 "Int32" 4 true)).addType (.ofClass 2 "Tank" 8)).addField
    (.ofInstance 1 "level" 2 1 4) |>.addMethod sevenMethod

/-- A body that loads a token, drops it and returns a constant. -/
def tokenBody (token : Instruction) : MethodBody where
  method := sevenMethod.id
  instructions := [.placed 0 .ldcI47 [], token, .placed 6 .pop [], .placed 7 .ret []]

def typeToken : Instruction := { Instruction.placed 1 .ldtoken [0, 0, 0, 0] with typeRef := some 2 }

def fieldToken : Instruction := { Instruction.placed 1 .ldtoken [0, 0, 0, 0] with fieldRef := some 1 }

variable {I : Type} [TargetInstr I] {backend : Backend I} {token : Instruction}

/-- The body alone compiles and links, with a check of what is compiled. -/
def linksAlone (backend : Backend I) (body : MethodBody) (check : List (CompiledMethod I) → Bool) : Bool :=
  (compileAll backend tankTable {} [body]).toOption.any fun methods =>
    check methods && (link methods tankTable {} {}).isOk

theorem exists_of_linksAlone (backend : Backend I) (token : Instruction)
    (check : List (CompiledMethod I) → Bool) (h : linksAlone backend (tokenBody token) check = true) :
    ∃ methods p store, ClosedProgram backend tankTable {} [tokenBody token] methods ∧ check methods = true ∧
      link methods tankTable {} {} = .ok (p, store) := by
  unfold linksAlone at h
  cases hcompiled : compileAll backend tankTable {} [tokenBody token] with
  | error e =>
    rw [hcompiled] at h
    cases h
  | ok methods =>
    rw [hcompiled] at h
    obtain ⟨hcheck, hlink⟩ := Bool.and_eq_true_iff.mp h
    obtain ⟨⟨p, store⟩, hlink⟩ := exists_of_isOk hlink
    refine ⟨methods, p, store, ⟨?_, ?_, hcompiled⟩, hcheck, hlink⟩
    · exact .addMethod (.addField (.addType (.addType .empty _) _) _) _
    · exact show ∀ d ∈ [sevenMethod], _ from
        List.forall_mem_singleton.mpr ⟨_, List.mem_singleton_self _, rfl⟩

theorem not_instanceToken_type (s : Symbol) : ¬InstanceToken tankTable [tokenBody typeToken] s := by
  rintro ⟨body, hbody, i, hi, hop, hplain, -⟩
  obtain rfl := List.mem_singleton.mp hbody
  have hplain' : ∀ i ∈ (tokenBody typeToken).instructions, i.op.operation = .loadToken → i.typeRef ≠ none := by
    decide
  exact hplain' i hi hop hplain

theorem closed_programs_link_tank :
    (∃ methods p store, ClosedProgram X86.backend tankTable {} [tokenBody typeToken] methods ∧
      link methods tankTable {} {} = .ok (p, store) ∧ ∀ m ∈ methods, ∀ s ∈ m.externals, p.Resolves s) ∧
    ∃ methods p store, ClosedProgram Mips.backend tankTable {} [tokenBody typeToken] methods ∧
      link methods tankTable {} {} = .ok (p, store) ∧ ∀ m ∈ methods, ∀ s ∈ m.externals, p.Resolves s := by
  obtain ⟨hx86, hmips⟩ := closed_programs_link tankTable {} [tokenBody typeToken]
  constructor
  · obtain ⟨methods, p, store, hclosed, -, hlink⟩ := exists_of_linksAlone X86.backend typeToken
      (fun _ => true) (by decide +kernel)
    exact ⟨methods, p, store, hclosed, hlink, fun m hm s hs =>
      (hx86.external hclosed hlink m hm s hs).resolve_right (not_instanceToken_type s)⟩
  · obtain ⟨methods, p, store, hclosed, -, hlink⟩ := exists_of_linksAlone Mips.backend typeToken
      (fun _ => true) (by decide +kernel)
    exact ⟨methods, p, store, hclosed, hlink, fun m hm s hs =>
      (hmips.external hclosed hlink m hm s hs).resolve_right (not_instanceToken_type s)⟩

/-- Some method mentions the symbol, which linking does not bind. -/
def mentionsUnbound (s : Symbol) (methods : List (CompiledMethod I)) : Bool :=
  methods.any (fun m => decide (s ∈ m.code.flatMap TargetInstr.symbols)) &&
    decide (s ∉ boundSymbols methods tankTable)

theorem unresolved_of_mentionsUnbound {s : Symbol}
    (h : linksAlone backend (tokenBody token) (mentionsUnbound s) = true) :
    ∃ methods p store, ClosedProgram backend tankTable {} [tokenBody token] methods ∧
      link methods tankTable {} {} = .ok (p, store) ∧
      ∃ m ∈ methods, s ∈ m.externals ∧ p.resolve s = .error (.unknownSymbol s) := by
  obtain ⟨methods, p, store, hclosed, hcheck, hlink⟩ := exists_of_linksAlone backend token _ h
  obtain ⟨hmentions, hunbound⟩ := Bool.and_eq_true_iff.mp hcheck
  obtain ⟨m, hm, hmem⟩ := List.any_eq_true.mp hmentions
  obtain ⟨body, -, hcompiled⟩ := (mem_of_answer_mapM hclosed.compiled).1 m hm
  exact ⟨methods, p, store, hclosed, hlink, m, hm, (mem_externals hcompiled).mpr (of_decide_eq_true hmem),
    (link_ok hlink).resolve_of_notMem (of_decide_eq_true hunbound)⟩

/-- The token of an instance field compiles, links and does not resolve. -/
theorem instance_token_unresolved :
    tankTable.DistinctSymbols ∧
    (∃ methods p store, ClosedProgram X86.backend tankTable {} [tokenBody fieldToken] methods ∧
      link methods tankTable {} {} = .ok (p, store) ∧ ∃ m ∈ methods,
        "field.level" ∈ m.externals ∧ p.resolve "field.level" = .error (.unknownSymbol "field.level")) ∧
    ∃ methods p store, ClosedProgram Mips.backend tankTable {} [tokenBody fieldToken] methods ∧
      link methods tankTable {} {} = .ok (p, store) ∧ ∃ m ∈ methods,
        "field.level" ∈ m.externals ∧ p.resolve "field.level" = .error (.unknownSymbol "field.level") :=
  ⟨⟨by decide, fun intrinsic => by cases intrinsic <;> decide⟩,
    unresolved_of_mentionsUnbound (by decide +kernel), unresolved_of_mentionsUnbound (by decide +kernel)⟩

end Samples

end Stencil
