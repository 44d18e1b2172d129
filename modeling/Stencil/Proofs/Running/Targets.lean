import Stencil.Proofs.Mips.Invocation
import Stencil.Proofs.X86.Invocation

/-!
# Compiled methods run as they mean

On both targets a method of the integer and control fragment that was compiled, linked and invoked returns
what the reference interpreter says. Two things have to be right: the interpreter shifts a word out when the
count is a double word with a high word, and no data has taken the symbol of the method.
-/

namespace Stencil

open AddressMap Compile Invocation Link Meaning Stateful

/-- On both targets compiled methods run as they mean. -/
theorem methods_run_as_meant :
    RunsAsMeant .saturating X86.backend X86.Machine.ops ∧
    RunsAsMeant .saturating Mips.backend Mips.Machine.ops :=
  ⟨runsAsMeant_of_invokes X86.runsMethods X86.invokes,
   runsAsMeant_of_invokes Mips.runsMethods Mips.invokes⟩

/-! ## Bodies -/

section Bodies

variable {I M : Type} [TargetInstr I] {rule : CountRule} {backend : Backend I} {tables : Table}
  {body : MethodBody} {args : List StackValue} {steps : Nat} {value value' : Value}

/-- The body compiles to a method that links, and the interpreter returns the value within the stack. -/
def meansValue (rule : CountRule) (backend : Backend I) (tables : Table) (body : MethodBody)
    (args : List StackValue) (steps : Nat) (value : Value) : Bool :=
  (compileMethod backend tables {} body).toOption.any fun m =>
    decide (m.code.length ≤ codeLimit) && decide (4 * (argumentWords args).length = m.frame.argSpan) &&
      decide (nullGuard.toNat + (m.frame.argSpan + m.frame.returnBytes + 8 + m.frame.localSpan +
        4 * deepest rule body.instructions steps (start m.frame args)) ≤ stackTop.toNat) &&
      decide (run rule body.instructions steps (start m.frame args) = some value) &&
      (link [m] tables {} {}).isOk

/-- The instructions of an assembled body of the fragment. -/
structure Plain (lines : List Line) (body : MethodBody) : Prop where
  assembled : Assembly.assemble lines = .ok body.instructions
  real : ∀ i ∈ body.instructions, i.op.isPseudo = false
  fragment : ∀ i ∈ body.instructions, inFragment i.op.operation = true

theorem exists_of_meansValue (h : meansValue rule backend tables body args steps value = true) :
    ∃ m, compileMethod backend tables {} body = .ok m := by
  unfold meansValue at h
  cases hm : compileMethod backend tables {} body with
  | error e =>
    rw [hm] at h
    cases h
  | ok m => exact ⟨m, rfl⟩

variable {m : CompiledMethod I} {lines : List Line} {method : MethodDescriptor}

theorem meant_of_meansValue (h : meansValue rule backend tables body args steps value = true)
    (hplain : Plain lines body) (hm : compileMethod backend tables {} body = .ok m) :
    Meant rule backend tables {} lines body m args steps value ∧
      ∃ p store, link [m] tables {} {} = .ok (p, store) := by
  unfold meansValue at h
  rw [hm] at h
  simp only [Except.toOption, Option.any_some, Bool.and_eq_true, decide_eq_true_eq] at h
  obtain ⟨⟨⟨⟨hfits, hfilled⟩, hroom⟩, hrun⟩, hlink⟩ := h
  refine ⟨⟨⟨hplain.assembled, hplain.real, hm⟩, hplain.fragment, hfits, hfilled, hroom, hrun⟩, ?_⟩
  cases hlinked : link [m] tables {} {} with
  | error fault =>
    rw [hlinked] at hlink
    cases hlink
  | ok result => exact ⟨result.1, result.2, rfl⟩

theorem symbol_of_compiled (hm : compileMethod backend tables {} body = .ok m)
    (hmethod : tables.method? body.method = some method) : m.symbol = method.symbol := by
  obtain ⟨c⟩ := compileMethod_ok hm
  rw [c.symbol_eq, Option.some.inj (c.resolved.symm.trans hmethod)]

/-- A body that can be seen runs as it means. -/
theorem RunsAsMeant.returns {machine : MachineOps I M} (hruns : RunsAsMeant rule backend machine)
    (h : meansValue rule backend tables body args steps value = true) (hplain : Plain lines body)
    (hm : compileMethod backend tables {} body = .ok m)
    (hmethod : tables.method? body.method = some method) (hvisible : method.symbol ∉ tables.dataSymbols)
    (before : M) : Returns machine tables {} {} m args value before := by
  obtain ⟨hmeant, p, store, hlink⟩ := meant_of_meansValue h hplain hm
  exact hruns hmeant (symbol_of_compiled hm hmethod ▸ hvisible) hlink before

theorem Returns.unique {machine : MachineOps I M} {m : CompiledMethod I} {before : M}
    (h : Returns machine tables {} {} m args value before)
    (h' : Returns machine tables {} {} m args value' before) : value = value' := by
  obtain ⟨limit, hlimit⟩ := h
  obtain ⟨limit', hlimit'⟩ := h'
  obtain ⟨p, store, after, hlink, hinvoke⟩ := hlimit (max limit limit') (Nat.le_max_left _ _)
  obtain ⟨p', store', after', hlink', hinvoke'⟩ := hlimit' (max limit limit') (Nat.le_max_right _ _)
  obtain ⟨rfl, rfl⟩ := Prod.mk.inj (Except.ok.inj (hlink.symm.trans hlink'))
  exact (EStateM.Result.ok.inj (hinvoke.symm.trans hinvoke')).1

end Bodies

def numberType : TypeDescriptor := .primitive 1 "Int32" 4 true

/-! ### A loop -/

section Sum

/-- Adds the numbers from the argument down to one. -/
def sumLines : List Line :=
  [.label "top", .plain .ldarg0, .branch .brfalseS "done",
   .plain .ldloc0, .plain .ldarg0, .plain .add, .plain .stloc0,
   .plain .ldarg0, .constant 1, .plain .sub, .indexed .stargS 0, .branch .brS "top",
   .label "done", .plain .ldloc0, .plain .ret]

def sumMethod : MethodDescriptor :=
  { MethodDescriptor.ofName ⟨1, Nat.one_pos⟩ 1 "sum" with
    params := [1], returnType := some 1, locals := [1] }

def sumTable : Table := (Table.addType {} numberType).addMethod sumMethod

def sumBody : MethodBody where
  method := sumMethod.id
  instructions :=
    [.placed 0 .ldarg0 [], .placed 1 .brfalseS [0x0B],
     .placed 3 .ldloc0 [], .placed 4 .ldarg0 [], .placed 5 .add [], .placed 6 .stloc0 [],
     .placed 7 .ldarg0 [], .placed 8 .ldcI41 [], .placed 9 .sub [], .placed 10 .stargS [0],
     .placed 12 .brS [0xF2], .placed 14 .ldloc0 [], .placed 15 .ret []]

theorem sum_plain : Plain sumLines sumBody := ⟨rfl, by decide, by decide⟩

/-- One, two and three add up to six. -/
theorem methods_run_as_meant_sum :
    (∃ m, Meant .saturating X86.backend sumTable {} sumLines sumBody m [.word 3] 40 [6] ∧
      ∀ before, Returns X86.Machine.ops sumTable {} {} m [.word 3] [6] before) ∧
    ∃ m, Meant .saturating Mips.backend sumTable {} sumLines sumBody m [.word 3] 40 [6] ∧
      ∀ before, Returns Mips.Machine.ops sumTable {} {} m [.word 3] [6] before := by
  obtain ⟨hx86, hmips⟩ := methods_run_as_meant
  have hmethod : sumTable.method? sumBody.method = some sumMethod := rfl
  have hvisible : sumMethod.symbol ∉ sumTable.dataSymbols := by decide
  constructor
  · have hmeans : meansValue .saturating X86.backend sumTable sumBody [.word 3] 40 [6] = true := by
      decide +kernel
    obtain ⟨m, hm⟩ := exists_of_meansValue hmeans
    exact ⟨m, (meant_of_meansValue hmeans sum_plain hm).1, hx86.returns hmeans sum_plain hm hmethod hvisible⟩
  · have hmeans : meansValue .saturating Mips.backend sumTable sumBody [.word 3] 40 [6] = true := by
      decide +kernel
    obtain ⟨m, hm⟩ := exists_of_meansValue hmeans
    exact ⟨m, (meant_of_meansValue hmeans sum_plain hm).1, hmips.returns hmeans sum_plain hm hmethod hvisible⟩

end Sum

/-! ### A count with a high word -/

section Count

/-- Shifts a word by a double word whose lowest five bits are one. -/
def countLines : List Line := [.plain .ldarg0, .longConstant 0x100000001, .plain .shl, .plain .ret]

def countMethod : MethodDescriptor :=
  { MethodDescriptor.ofName ⟨1, Nat.one_pos⟩ 1 "count" with params := [1], returnType := some 1 }

def countTable : Table := (Table.addType {} numberType).addMethod countMethod

def countBody : MethodBody where
  method := countMethod.id
  instructions :=
    [.placed 0 .ldarg0 [], .placed 1 .ldcI8 [1, 0, 0, 0, 1, 0, 0, 0], .placed 10 .shl [],
     .placed 11 .ret []]

theorem count_plain : Plain countLines countBody := ⟨rfl, by decide, by decide⟩

variable {I M : Type} [TargetInstr I] {backend : Backend I} {machine : MachineOps I M}

/-- A target that shifts the word out does not mask the count. -/
theorem not_returns_masked (hruns : RunsAsMeant .saturating backend machine)
    (hmasked : meansValue .masked backend countTable countBody [.word 1] 4 [2] = true)
    (hout : meansValue .saturating backend countTable countBody [.word 1] 4 [0] = true) :
    ∃ m p store, Meant .masked backend countTable {} countLines countBody m [.word 1] 4 [2] ∧
      m.symbol ∉ countTable.dataSymbols ∧ link [m] countTable {} {} = .ok (p, store) ∧
      ∀ before, ¬Returns machine countTable {} {} m [.word 1] [2] before := by
  have hmethod : countTable.method? countBody.method = some countMethod := rfl
  have hvisible : countMethod.symbol ∉ countTable.dataSymbols := by decide
  obtain ⟨m, hm⟩ := exists_of_meansValue hmasked
  obtain ⟨hmeant, p, store, hlink⟩ := meant_of_meansValue hmasked count_plain hm
  refine ⟨m, p, store, hmeant, symbol_of_compiled hm hmethod ▸ hvisible, hlink, fun before hreturns => ?_⟩
  have hzero := hruns.returns hout count_plain hm hmethod hvisible before
  cases hreturns.unique hzero

end Count

/-! ### A symbol of data -/

section Hidden

def hiddenMethod : MethodDescriptor := .ofName ⟨1, Nat.one_pos⟩ 1 "hidden"

/-- A type that has taken the symbol of the method. -/
def hidingType : TypeDescriptor := { TypeDescriptor.primitive 1 "Hiding" 4 true with symbol := hiddenMethod.symbol }

def hiddenTable : Table := (Table.addType {} hidingType).addMethod hiddenMethod

def hiddenBody : MethodBody where
  method := hiddenMethod.id
  instructions := [.placed 0 .ret []]

theorem hidden_plain : Plain [.plain .ret] hiddenBody := ⟨rfl, by decide, by decide⟩

/-- The index that the address of the type's descriptor would have; no instruction lies there. -/
def hiddenIndex : Nat := 0x20000400

theorem codeAddress_hiddenIndex : codeAddress hiddenIndex = dataBase := by decide

theorem indexOf_hidden {I : Type} (p : Program I) :
    p.indexOf (codeAddress hiddenIndex) = .error (.invalidInstruction (codeAddress hiddenIndex)) := by
  have hlow : codeAddress hiddenIndex < codeBase := by decide
  unfold Program.indexOf
  simp only [hlow, true_or, if_true]

variable {I M : Type} [TargetInstr I] {m : CompiledMethod I} {config : RunConfig} {p : Program I}
  {store : Store}

theorem resolve_hidden (hlink : link [m] hiddenTable {} config = .ok (p, store))
    (hsymbol : m.symbol = hiddenMethod.symbol) : p.resolve m.symbol = .ok (codeAddress hiddenIndex) := by
  obtain ⟨places, next, statics, next', strings, next'', hplaces, hstatics, hstrings, hbound⟩ :=
    (link_ok hlink).symbols
  have htypes : hiddenTable.types = [hidingType] := rfl
  have hfields : hiddenTable.fields.filter FieldDescriptor.isStatic = [] := rfl
  have hliterals : hiddenTable.strings = [] := rfl
  rw [htypes] at hplaces
  rw [hfields] at hstatics
  rw [hliterals] at hstrings
  obtain ⟨rfl, -⟩ := Prod.mk.inj (Except.ok.inj hplaces)
  obtain ⟨rfl, -⟩ := Prod.mk.inj (Except.ok.inj hstatics)
  obtain ⟨rfl, -⟩ := Prod.mk.inj (Except.ok.inj hstrings)
  rw [hsymbol, codeAddress_hiddenIndex, Program.resolve, hbound, List.map_nil, List.append_nil,
    List.append_nil, bindAll_append, getElem?_bindAll]
  rfl

/-- A target on which nothing returns from an address of data does not run the method. -/
theorem not_returns_hidden {backend : Backend I} {machine : MachineOps I M}
    (hmeans : meansValue .masked backend hiddenTable hiddenBody [] 1 [] = true)
    (hframe : (compileMethod backend hiddenTable {} hiddenBody).toOption.any (·.frame.returnBytes == 0) = true)
    (hlost : ∀ {p : Program I} {symbol : Symbol}, p.resolve symbol = .ok (codeAddress hiddenIndex) →
      ∀ before after value, machine.invoke p symbol [] 0 before ≠ .ok value after) :
    ∃ m p store, Meant .masked backend hiddenTable {} [.plain .ret] hiddenBody m [] 1 [] ∧
      link [m] hiddenTable {} {} = .ok (p, store) ∧
      ∀ before, ¬Returns machine hiddenTable {} {} m [] [] before := by
  have hmethod : hiddenTable.method? hiddenBody.method = some hiddenMethod := rfl
  obtain ⟨m, hm⟩ := exists_of_meansValue hmeans
  obtain ⟨hmeant, p, store, hlink⟩ := meant_of_meansValue hmeans hidden_plain hm
  refine ⟨m, p, store, hmeant, hlink, fun before ⟨limit, hlimit⟩ => ?_⟩
  obtain ⟨p', store', after, hlink', hinvoke⟩ := hlimit limit (Nat.le_refl _)
  have hbytes : m.frame.returnBytes = 0 := by
    rw [hm] at hframe
    exact beq_iff_eq.mp hframe
  rw [hbytes] at hinvoke
  exact hlost (resolve_hidden hlink' (symbol_of_compiled hm hmethod)) before after [] hinvoke

end Hidden

/-- Masking every count, or invoking a method by the symbol of a type, goes wrong on both targets. -/
theorem runs_not_masked_nor_hidden :
    ((∃ m p store, Meant .masked X86.backend countTable {} countLines countBody m [.word 1] 4 [2] ∧
        m.symbol ∉ countTable.dataSymbols ∧ link [m] countTable {} {} = .ok (p, store) ∧
        ∀ before, ¬Returns X86.Machine.ops countTable {} {} m [.word 1] [2] before) ∧
      ∃ m p store, Meant .masked Mips.backend countTable {} countLines countBody m [.word 1] 4 [2] ∧
        m.symbol ∉ countTable.dataSymbols ∧ link [m] countTable {} {} = .ok (p, store) ∧
        ∀ before, ¬Returns Mips.Machine.ops countTable {} {} m [.word 1] [2] before) ∧
    (∃ m p store, Meant .masked X86.backend hiddenTable {} [.plain .ret] hiddenBody m [] 1 [] ∧
        link [m] hiddenTable {} {} = .ok (p, store) ∧
        ∀ before, ¬Returns X86.Machine.ops hiddenTable {} {} m [] [] before) ∧
      ∃ m p store, Meant .masked Mips.backend hiddenTable {} [.plain .ret] hiddenBody m [] 1 [] ∧
        link [m] hiddenTable {} {} = .ok (p, store) ∧
        ∀ before, ¬Returns Mips.Machine.ops hiddenTable {} {} m [] [] before := by
  refine ⟨⟨?_, ?_⟩, ?_, ?_⟩
  · exact not_returns_masked (runsAsMeant_of_invokes X86.runsMethods X86.invokes) (by decide +kernel)
      (by decide +kernel)
  · exact not_returns_masked (runsAsMeant_of_invokes Mips.runsMethods Mips.invokes) (by decide +kernel)
      (by decide +kernel)
  · exact not_returns_hidden (by decide +kernel) (by decide +kernel) fun hsymbol =>
      X86.invoke_lost hsymbol (by decide) (indexOf_hidden _)
  · exact not_returns_hidden (by decide +kernel) (by decide +kernel) fun hsymbol =>
      Mips.invoke_lost hsymbol (by decide) (by decide) (indexOf_hidden _)

end Stencil
