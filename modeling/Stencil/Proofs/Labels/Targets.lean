import Stencil.Proofs.Labels.Closure
import Stencil.Proofs.Machine.Faults
import Stencil.Proofs.Machine.Link
import Stencil.Proofs.Mips.Faults
import Stencil.Proofs.X86.Faults

/-!
# Labels on both targets

A run faults for want of a label only at an instruction that goes to a label which the program does not
bind, and linking binds every label of the linked methods. Whatever is compiled for either target has closed
labels, and so no run of linked methods faults for want of a label.

The listing of a method has only the texts of its labels, and they keep the labels apart.
-/

namespace Stencil

/-! ## Runs that find all labels -/

section Labels

variable {I : Type} [TargetInstr I] [LabelUse I] {p : Program I}

/-- Every label that the code goes to is bound. -/
def Program.LabelsResolve (p : Program I) : Prop :=
  ∀ (index : Nat) instr l, p.code[index]? = some instr → LabelUse.uses? instr = some l → p.HasLabel l

def NotUnbound {M : Type} (fault : Fault) (_ : M) : Prop := ∀ l, fault ≠ .unboundLabel l

theorem Program.LabelsResolve.allows {M : Type} (h : p.LabelsResolve) :
    Allows p (NotUnbound : Fault → M → Prop) where
  plain := by
    rintro fault m hplain l rfl
    exact hplain
  instr hinstr := {
    mechanical := by
      rintro fault m hmechanical l rfl
      exact hmechanical
    label := fun huse => .inl (h _ _ _ hinstr huse)
    symbol := fun _ => .inr fun _ _ heq => nomatch heq }

/-- Linking methods whose labels are closed binds every label that is used. -/
theorem Linked.labelsResolve {methods : List (CompiledMethod I)} {tables : Table} {options : Options}
    {config : RunConfig} (h : Linked methods tables options config p)
    (hclosed : ∀ m ∈ methods, ∀ l ∈ usedLabels m.code, l ∈ boundLabels m.code) :
    p.LabelsResolve := by
  intro index instr l hinstr huse
  have hmem : instr ∈ methods.flatMap CompiledMethod.code := by
    rw [h.code, List.getElem?_toArray] at hinstr
    exact List.mem_of_getElem? hinstr
  obtain ⟨m, hm, hmem⟩ := List.mem_flatMap.mp hmem
  have hused : l ∈ usedLabels m.code := List.mem_filterMap.mpr ⟨instr, hmem, huse⟩
  have hbound : l ∈ boundLabels (methods.flatMap CompiledMethod.code) := by
    obtain ⟨binder, hbinder, hlabel⟩ := List.mem_filterMap.mp (hclosed m hm l hused)
    exact List.mem_filterMap.mpr ⟨binder, List.mem_flatMap.mpr ⟨m, hm, hbinder⟩, hlabel⟩
  obtain ⟨k, hk⟩ := labels_isSome_of_mem hbound
  rw [← h.labels] at hk
  exact ⟨AddressMap.codeAddress k, by rw [Program.labelAddress, hk]⟩

end Labels

/-! ## Targets -/

theorem X86.backend_labelsTemplates : X86.backend.LabelsTemplates where
  template := X86.emit_labels _ _
  methodStart {ctx i effect} hop := by
    show boundLabels (X86.emit ctx i effect).code = []
    rw [X86.emit, hop]
    exact (X86.prologue_unlabelled ctx).bound

theorem Mips.backend_labelsTemplates : Mips.backend.LabelsTemplates where
  template := Mips.emit_labels _ _
  methodStart {ctx i effect} hop := by
    show boundLabels (Mips.emit ctx i effect).code = []
    rw [Mips.emit, hop]
    exact (Mips.prologue_unlabelled ctx).bound

/-- The method is compiled from an assembled body of real instructions. -/
structure CompiledFrom {I : Type} [TargetInstr I] (backend : Backend I) (tables : Table)
    (options : Options) (lines : List Line) (body : MethodBody) (m : CompiledMethod I) : Prop where
  assembled : Assembly.assemble lines = .ok body.instructions
  real : ∀ i ∈ body.instructions, i.op.isPseudo = false
  compiled : compileMethod backend tables options body = .ok m

theorem CompiledFrom.plainBody {I : Type} [TargetInstr I] {backend : Backend I} {tables : Table}
    {options : Options} {lines : List Line} {body : MethodBody} {m : CompiledMethod I}
    (h : CompiledFrom backend tables options lines body m) : PlainBody body.instructions :=
  ⟨Assembly.assemble_contiguous h.assembled, h.real⟩

/-- What closed labels mean for a target: every compiled method has them, and no run of compiled
methods ends at a label that is not bound. -/
structure ClosesLabels {I M : Type} [TargetInstr I] [LabelUse I] (backend : Backend I)
    (machine : MachineOps I M) : Prop where
  method : ∀ {tables : Table} {options : Options} {lines : List Line} {body : MethodBody}
    {m : CompiledMethod I}, CompiledFrom backend tables options lines body m →
      LabelsClosed body.instructions m
  run : ∀ {methods : List (CompiledMethod I)} {tables : Table} {options : Options}
    {config : RunConfig} {p : Program I} {store : Store},
    (∀ m ∈ methods, ∃ tables options lines body, CompiledFrom backend tables options lines body m) →
    (methods.map CompiledMethod.symbol).Nodup →
    link methods tables options config = .ok (p, store) →
    ∀ entry args returnBytes start l stop,
      machine.invoke p entry args returnBytes start ≠ .error (.unboundLabel l) stop

theorem closesLabels_of_templates {I M : Type} [TargetInstr I] [LabelUse I] {backend : Backend I}
    {machine : MachineOps I M} (hbackend : backend.LabelsTemplates)
    (hinvoke : ∀ {p : Program I}, p.LabelsResolve → ∀ entry args returnBytes,
      OnlyFaults NotUnbound (machine.invoke p entry args returnBytes)) :
    ClosesLabels backend machine where
  method h := compileMethod_labelsClosed hbackend h.plainBody h.compiled
  run hmethods _ hlink entry args returnBytes start l stop hrun := by
    refine hinvoke ((link_ok hlink).labelsResolve fun m hm => ?_) entry args returnBytes start _ stop hrun l rfl
    obtain ⟨tables, options, lines, body, h⟩ := hmethods m hm
    exact (compileMethod_labelsClosed hbackend h.plainBody h.compiled).used_bound

/-- On both targets the labels of compiled methods are closed and no run ends for want of one. -/
theorem labels_closed_on_both_targets :
    ClosesLabels X86.backend X86.Machine.ops ∧ ClosesLabels Mips.backend Mips.Machine.ops :=
  ⟨closesLabels_of_templates X86.backend_labelsTemplates fun h _ =>
      X86.Machine.invoke_faults h.allows (.inr fun _ _ heq => nomatch heq),
   closesLabels_of_templates Mips.backend_labelsTemplates fun h _ =>
      Mips.Machine.invoke_faults h.allows (fun _ _ _ _ _ _ _ _ _ _ _ heq => nomatch heq)
        (.inr fun _ _ heq => nomatch heq)⟩

/-- A body that branches back to its first instruction and returns. -/
def spinLines : List Line :=
  [.label "top", .constant 1, .branch .brtrueS "top", .plain .ret]

def spinMethod : MethodBody where
  method := ⟨1, Nat.one_pos⟩
  instructions := [.placed 0 .ldcI41 [], .placed 1 .brtrueS [0xFD], .placed 3 .ret []]

def spinTable : Table := Table.addMethod {} (.ofName ⟨1, Nat.one_pos⟩ 0 "spin")

/-- A body that calls the other one and branches on. -/
def turnLines : List Line :=
  [.withMethod .call spinMethod.method, .branch .brS "on", .label "on", .plain .ret]

def turnMethod : MethodBody where
  method := ⟨2, Nat.two_pos⟩
  instructions :=
    [{ Instruction.placed 0 .call [1, 0, 0, 0] with methodRef := some spinMethod.method },
     .placed 5 .brS [0], .placed 7 .ret []]

def turnTable : Table := spinTable.addMethod (.ofName turnMethod.method 0 "turn")

section Turn

variable {I M : Type} [TargetInstr I]

/-- Both methods are compiled, have different symbols, and are linked. -/
def turnLinks (backend : Backend I) : Bool :=
  (compileMethod backend turnTable {} spinMethod).toOption.any fun m =>
    (compileMethod backend turnTable {} turnMethod).toOption.any fun m' =>
      decide (m.symbol ≠ m'.symbol) && (link [m, m'] turnTable {} {}).isOk

theorem exists_of_turnLinks {backend : Backend I} (h : turnLinks backend = true) :
    ∃ m m' p store, compileMethod backend turnTable {} spinMethod = .ok m ∧
      compileMethod backend turnTable {} turnMethod = .ok m' ∧ m.symbol ≠ m'.symbol ∧
      link [m, m'] turnTable {} {} = .ok (p, store) := by
  unfold turnLinks at h
  cases hm : compileMethod backend turnTable {} spinMethod with
  | error e => simp [hm, Except.toOption] at h
  | ok m =>
    cases hm' : compileMethod backend turnTable {} turnMethod with
    | error e => simp [hm', Except.toOption] at h
    | ok m' =>
      simp only [hm, hm', Except.toOption, Option.any_some, Bool.and_eq_true, decide_eq_true_eq] at h
      cases hlink : link [m, m'] turnTable {} {} with
      | error fault => simp [hlink, Except.isOk, Except.toBool] at h
      | ok result => exact ⟨m, m', result.1, result.2, rfl, rfl, h.1, hlink⟩

variable [LabelUse I]

/-- The labels of both methods are closed, and no run of their program ends for want of one. -/
def ClosesTurn (backend : Backend I) (machine : MachineOps I M) : Prop :=
  ∃ m m' p store, CompiledFrom backend turnTable {} spinLines spinMethod m ∧
    CompiledFrom backend turnTable {} turnLines turnMethod m' ∧ link [m, m'] turnTable {} {} = .ok (p, store) ∧
    LabelsClosed spinMethod.instructions m ∧ LabelsClosed turnMethod.instructions m' ∧
    ∀ entry args returnBytes start l stop,
      machine.invoke p entry args returnBytes start ≠ .error (.unboundLabel l) stop

theorem ClosesLabels.closesTurn {backend : Backend I} {machine : MachineOps I M} (h : ClosesLabels backend machine)
    (hlinks : turnLinks backend = true) : ClosesTurn backend machine := by
  obtain ⟨m, m', p, store, hm, hm', hne, hlink⟩ := exists_of_turnLinks hlinks
  have hspin : CompiledFrom backend turnTable {} spinLines spinMethod m := ⟨rfl, by decide, hm⟩
  have hturn : CompiledFrom backend turnTable {} turnLines turnMethod m' := ⟨rfl, by decide, hm'⟩
  have hmethods : ∀ m'' ∈ [m, m'], ∃ tables options lines body,
      CompiledFrom backend tables options lines body m'' := by
    simp only [List.mem_cons, List.not_mem_nil, or_false]
    rintro m'' (rfl | rfl)
    · exact ⟨_, _, _, _, hspin⟩
    · exact ⟨_, _, _, _, hturn⟩
  exact ⟨m, m', p, store, hspin, hturn, hlink, h.method hspin, h.method hturn,
    h.run hmethods (by simpa using hne) hlink⟩

end Turn

/-- One of the methods branches back and calls nothing, and the other one calls it and branches on. -/
theorem labels_closed_on_both_targets_turn :
    ClosesTurn X86.backend X86.Machine.ops ∧ ClosesTurn Mips.backend Mips.Machine.ops := by
  obtain ⟨hx86, hmips⟩ := labels_closed_on_both_targets
  exact ⟨hx86.closesTurn (by decide +kernel), hmips.closesTurn (by decide +kernel)⟩

/-! ## Texts -/

/-- How a target names its labels: those that a template binds are made one after another, under names that keep
apart from their numbers, and no label of a compiled method has a dot in its extension. -/
structure NamesLabels {I : Type} [TargetInstr I] [LabelUse I] (backend : Backend I) : Prop where
  template : ∀ {ctx : EmitContext} {i : Instruction} {effect : Effect},
    (backend.emit ctx i effect).failure = none →
      ∃ names, (∀ name ∈ names, LabelName name) ∧
        (boundLabels (backend.emit ctx i effect).code).Perm (ctx.newLabels i names)
  method : ∀ {tables : Table} {options : Options} {body : MethodBody} {m : CompiledMethod I},
    compileMethod backend tables options body = .ok m →
      ∀ l ∈ boundLabels m.code ++ usedLabels m.code, l.DotFree

theorem Backend.LabelsTemplates.namesLabels {I : Type} [TargetInstr I] [LabelUse I] {backend : Backend I}
    (h : backend.LabelsTemplates) : NamesLabels backend where
  template hfailure := (h.template hfailure).made
  method hcompiled l hl := by
    obtain ⟨c⟩ := compileMethod_ok hcompiled
    rw [c.code_eq] at hl
    exact dotFree_selected h c.selected hl

/-- Labels whose extensions have no dot are told apart by their texts, whatever their scopes are, and on both targets
all labels are of this kind. Two labels that one template makes are different, unless their names end in digits. -/
theorem label_texts_are_unambiguous :
    (∀ {l l' : Label}, l.DotFree → l'.DotFree → l.render = l'.render → l = l') ∧
    (∀ (ctx : EmitContext) (i : Instruction) {names : List String} {j k : Nat} {name name' : String},
      names[j]? = some name → names[k]? = some name' → Text.endsInDigit name = false →
      Text.endsInDigit name' = false → j ≠ k → (ctx.newLabels i names)[j]? ≠ (ctx.newLabels i names)[k]?) ∧
    NamesLabels X86.backend ∧ NamesLabels Mips.backend :=
  ⟨Label.render_injective, fun _ _ => getElem?_newLabels_ne, X86.backend_labelsTemplates.namesLabels,
    Mips.backend_labelsTemplates.namesLabels⟩

theorem spin_compiledFrom {I : Type} [TargetInstr I] (backend : Backend I)
    (h : (compileMethod backend spinTable {} spinMethod).isOk = true) :
    ∃ m, CompiledFrom backend spinTable {} spinLines spinMethod m := by
  cases hm : compileMethod backend spinTable {} spinMethod with
  | error e => simp [hm, Except.isOk, Except.toBool] at h
  | ok m => exact ⟨m, rfl, by decide, hm⟩

/-- A scope that looks like a label itself. -/
def nestedScope : Symbol := "spin.IL_0001_True0"

def nestedContext : EmitContext :=
  { tables := spinTable, options := {}, policy := X86.backend.defaultPolicy, endPosition := 0
    method := { MethodDescriptor.ofName ⟨1, Nat.one_pos⟩ 0 "spin" with symbol := nestedScope }
    frame := { args := [], locals := [], returnItem := none, argBytes := 0, localBytes := 0 } }

def nestedCompare : Instruction := .placed 0x1C .ceq []

/-- What the last label of a comparison is read as, and labels that differ. -/
theorem label_texts_are_unambiguous_nested :
    (∃ read : Label, read.DotFree ∧ read.render = "spin.IL_0001_True0.IL_001C_End2" ∧
      read = { scope := nestedScope, position := 0x1C, extension := some "End2" } ∧
      nestedContext.inside nestedCompare "End" 2 = read) ∧
    (nestedContext.newLabels nestedCompare ["True", "False", "End"])[0]? ≠
      (nestedContext.newLabels nestedCompare ["True", "False", "End"])[2]? ∧
    ∃ m, compileMethod X86.backend spinTable {} spinMethod = .ok m ∧
      ∀ l ∈ boundLabels m.code ++ usedLabels m.code, l.DotFree := by
  obtain ⟨hread, hmade, hx86, -⟩ := label_texts_are_unambiguous
  have hdotFree : Label.DotFree { scope := nestedScope, position := 0x1C, extension := some "End2" } := by
    intro extension hextension
    obtain rfl := Option.some.inj hextension
    decide
  obtain ⟨m, hm⟩ := spin_compiledFrom X86.backend (by decide +kernel)
  refine ⟨⟨_, hdotFree, by decide, rfl, hread (dotFree_inside (by decide) 2) hdotFree (by decide)⟩, ?_, m, hm.compiled,
    hx86.method hm.compiled⟩
  exact hmade nestedContext nestedCompare rfl rfl (by decide) (by decide) (by decide)

end Stencil
