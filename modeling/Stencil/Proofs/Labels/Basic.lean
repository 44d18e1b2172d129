import Stencil.Compile
import Stencil.Proofs.Labels.Text
import Stencil.Proofs.Stateful
import Mathlib.Data.List.Nodup
import Mathlib.Data.List.Perm.Basic

/-!
# Labels of a list of instructions

The labels that a list binds and the labels that it goes to. A template binds the labels that it makes for its own
instruction, each one once, and goes to those or to where the instruction itself goes (`TemplateLabels`). It numbers
the labels that it makes, and so they differ, whatever their names are (`getElem?_newLabels_ne`).
-/

namespace Stencil

/-- Instructions that go to labels. -/
class LabelUse (I : Type) [TargetInstr I] where
  /-- The label that the instruction may go to. -/
  uses? : I → Option Label
  asLabel?_label : ∀ l, TargetInstr.asLabel? (TargetInstr.label (I := I) l) = some l
  uses?_label : ∀ l, uses? (TargetInstr.label l) = none

section Lists

variable {I : Type} [TargetInstr I]

def boundLabels (code : List I) : List Label := code.filterMap TargetInstr.asLabel?

theorem boundLabels_append (front back : List I) :
    boundLabels (front ++ back) = boundLabels front ++ boundLabels back := List.filterMap_append

variable [LabelUse I]

/-- The labels that the instructions may go to, in order. -/
def usedLabels (code : List I) : List Label := code.filterMap LabelUse.uses?

theorem usedLabels_append (front back : List I) :
    usedLabels (front ++ back) = usedLabels front ++ usedLabels back := List.filterMap_append

/-- The instructions bind `bound` and may go to `used`. -/
structure HasLabels (code : List I) (bound used : List Label) : Prop where
  bound : boundLabels code = bound
  used : usedLabels code = used

theorem HasLabels.nil : HasLabels ([] : List I) [] [] := ⟨rfl, rfl⟩

theorem HasLabels.append {code code' : List I} {bound bound' used used' : List Label}
    (h : HasLabels code bound used) (h' : HasLabels code' bound' used') :
    HasLabels (code ++ code') (bound ++ bound') (used ++ used') := by
  constructor
  · rw [boundLabels_append, h.bound, h'.bound]
  · rw [usedLabels_append, h.used, h'.used]

theorem HasLabels.cons {instr : I} {code : List I} {bound used : List Label}
    (hbound : TargetInstr.asLabel? instr = none) (hused : LabelUse.uses? instr = none)
    (h : HasLabels code bound used) : HasLabels (instr :: code) bound used := by
  constructor
  · rw [boundLabels, List.filterMap_cons_none hbound]
    exact h.bound
  · rw [usedLabels, List.filterMap_cons_none hused]
    exact h.used

/-- Instructions that have nothing to do with labels. -/
abbrev Unlabelled (code : List I) : Prop := HasLabels code [] []

theorem unlabelled_append {code code' : List I} (h : Unlabelled code) (h' : Unlabelled code') :
    Unlabelled (code ++ code') := h.append h'

theorem unlabelled_flatMap {α : Type} {f : α → List I} (xs : List α)
    (h : ∀ x ∈ xs, Unlabelled (f x)) : Unlabelled (xs.flatMap f) := by
  induction xs with
  | nil => exact .nil
  | cons x xs ih =>
    rw [List.flatMap_cons]
    exact (h x (by simp)).append (ih fun y hy => h y (by simp [hy]))

theorem unlabelled_map {α : Type} {f : α → I} (xs : List α) (h : ∀ x, Unlabelled [f x]) :
    Unlabelled (xs.map f) := by
  rw [List.map_eq_flatMap]
  exact unlabelled_flatMap xs fun x _ => h x

theorem unlabelled_replicate {instr : I} (n : Nat) (h : Unlabelled [instr]) :
    Unlabelled (List.replicate n instr) := by
  induction n with
  | zero => exact .nil
  | succ n ih => exact h.append ih

theorem HasLabels.ite {p : Prop} [Decidable p] {code code' : List I} {bound used : List Label}
    (h : HasLabels code bound used) (h' : HasLabels code' bound used) :
    HasLabels (if p then code else code') bound used := by
  split
  · exact h
  · exact h'

end Lists

/-! ## Templates -/

/-- The instruction itself goes to this label: it is a branch target, or the method end that a
return goes to. -/
inductive GoesTo (ctx : EmitContext) (i : Instruction) : Label → Prop
  | target {targets : List Int} {t : Int} (htargets : i.targets = .ok targets) (hmem : t ∈ targets)
      (hnonneg : 0 ≤ t) : GoesTo ctx i (ctx.labelAt t.toNat)
  | methodEnd (hret : i.op.operation = .ret) : GoesTo ctx i ctx.endLabel

theorem inside_inj {ctx : EmitContext} {i : Instruction} {name name' : String} {n n' : Nat} :
    ctx.inside i name n = ctx.inside i name' n' ↔
      name ++ toString n = name' ++ toString n' := by
  simp [EmitContext.inside, Label.inside]

/-- The labels inside the template of `i` that the given names and numbers make. -/
def insides (ctx : EmitContext) (i : Instruction) (names : List (String × Nat)) : List Label :=
  names.map fun (name, n) => ctx.inside i name n

/-! ### Numbered labels -/

/-- Make a label inside the template of `i`; the state is how many it has made before. -/
def EmitContext.newLabel (ctx : EmitContext) (i : Instruction) (name : String) : StateM Nat Label := do
  let made ← get
  set (made + 1)
  return ctx.inside i name made

/-- The labels that the template of `i` makes for these names, one after another. -/
def EmitContext.newLabels (ctx : EmitContext) (i : Instruction) (names : List String) : List Label :=
  ((names.mapM (ctx.newLabel i)).run 0).1

/-- A name that keeps apart from the number behind it, and from scopes. -/
def LabelName (name : String) : Prop := '.' ∉ name.toList ∧ Text.endsInDigit name = false

instance (name : String) : Decidable (LabelName name) := inferInstanceAs (Decidable (_ ∧ _))

/-- The names, with their numbers, of the labels that a template makes, in some order. -/
def Numbered (names : List (String × Nat)) : Prop :=
  (names.map Prod.snd).Perm (List.range names.length) ∧ ∀ pair ∈ names, LabelName pair.1

instance (names : List (String × Nat)) : Decidable (Numbered names) := inferInstanceAs (Decidable (_ ∧ _))

section NewLabels

variable {ctx : EmitContext} {i : Instruction}

theorem newLabels_eq (names : List String) : ctx.newLabels i names = insides ctx i names.zipIdx := by
  have hrun : ∀ made, (names.mapM (ctx.newLabel i)).run made =
      (insides ctx i (names.zipIdx made), made + names.length) := by
    induction names with
    | nil => exact fun _ => rfl
    | cons name names ih =>
      intro made
      rw [List.mapM_cons, StateT.run_bind]
      show ((names.mapM (ctx.newLabel i) >>= _).run (made + 1) : Id _) = _
      rw [StateT.run_bind, ih (made + 1), List.length_cons, Nat.add_comm names.length, ← Nat.add_assoc]
      rfl
  exact congrArg Prod.fst (hrun 0)

/-- A template that makes two labels makes different ones, if their names do not end in digits. -/
theorem getElem?_newLabels_ne {names : List String} {j k : Nat} {name name' : String} (hj : names[j]? = some name)
    (hk : names[k]? = some name') (hname : Text.endsInDigit name = false) (hname' : Text.endsInDigit name' = false)
    (hne : j ≠ k) : (ctx.newLabels i names)[j]? ≠ (ctx.newLabels i names)[k]? := by
  have hmade : ∀ {n name}, names[n]? = some name → (ctx.newLabels i names)[n]? = some (ctx.inside i name n) := by
    intro n name hn
    rw [newLabels_eq, insides, List.getElem?_map, List.getElem?_zipIdx, hn]
    simp
  rw [hmade hj, hmade hk]
  intro heq
  exact hne (Text.number_of_append hname hname' (inside_inj.mp (Option.some.inj heq)))

theorem nodup_newLabels {names : List String} (hnames : ∀ name ∈ names, LabelName name) :
    (ctx.newLabels i names).Nodup := by
  have hlength : (ctx.newLabels i names).length = names.length := by
    rw [newLabels_eq, insides, List.length_map, List.length_zipIdx]
  have hplain : ∀ k (hk : k < names.length), Text.endsInDigit names[k] = false := fun k hk =>
    (hnames _ (List.getElem_mem hk)).2
  rw [List.nodup_iff_getElem?_ne_getElem?]
  intro j k hlt hk
  rw [hlength] at hk
  exact getElem?_newLabels_ne (List.getElem?_eq_getElem (by omega)) (List.getElem?_eq_getElem hk) (hplain j (by omega))
    (hplain k hk) (by omega)

/-- Names with the right numbers are those of labels that are made one after another. -/
theorem Numbered.exists_newLabels {names : List (String × Nat)} (h : Numbered names) :
    ∃ made, (∀ name ∈ made, LabelName name) ∧ (insides ctx i names).Perm (ctx.newLabels i made) := by
  obtain ⟨hnumbers, hnames⟩ := h
  obtain ⟨sorted, hperm, hsorted⟩ : ∃ sorted, names.Perm sorted ∧ List.range names.length = sorted.map Prod.snd := by
    have hcomp := congrFun (congrFun (List.eq_map_comp_perm (Prod.snd : String × Nat → Nat))
      (List.range names.length)) names
    obtain ⟨sorted, hsorted, hperm⟩ := hcomp.mpr hnumbers.symm
    exact ⟨sorted, hperm.symm, hsorted⟩
  have hzip : sorted = (sorted.map Prod.fst).zipIdx := by
    rw [List.zipIdx_eq_zip_range', List.length_map, ← hperm.length_eq, ← List.range_eq_range', hsorted,
      List.zip_map', List.map_id']
  refine ⟨sorted.map Prod.fst, ?_, ?_⟩
  · intro name hname
    obtain ⟨pair, hpair, rfl⟩ := List.mem_map.mp hname
    exact hnames pair (hperm.mem_iff.mpr hpair)
  · rw [newLabels_eq, ← hzip]
    exact hperm.map _

theorem dotFree_labelAt (ctx : EmitContext) (position : Nat) : (ctx.labelAt position).DotFree :=
  fun _ hextension => nomatch hextension

theorem dotFree_inside {name : String} (h : LabelName name) (n : Nat) : (ctx.inside i name n).DotFree := by
  intro extension hextension
  obtain rfl := Option.some.inj hextension
  rw [String.toList_append, Nat.toString_eq_ofList_toDigits, String.toList_ofList, List.mem_append, not_or]
  refine ⟨h.1, fun hdigit => ?_⟩
  exact absurd (Nat.isDigit_of_mem_toDigits (by decide) (by decide) hdigit) (by decide)

end NewLabels

/-! ### Labels of a template -/

/-- What holds of the labels of every template. -/
structure TemplateLabels {I : Type} [TargetInstr I] [LabelUse I] (ctx : EmitContext)
    (i : Instruction) (code : List I) : Prop where
  /-- The labels that are bound are those that the template makes. -/
  made : ∃ names, (∀ name ∈ names, LabelName name) ∧ (boundLabels code).Perm (ctx.newLabels i names)
  /-- Every label that is used is bound, or the instruction itself goes there. -/
  closed : ∀ l ∈ usedLabels code, l ∈ boundLabels code ∨ GoesTo ctx i l

section Templates

variable {I : Type} [TargetInstr I] [LabelUse I] {ctx : EmitContext} {i : Instruction}
  {code : List I}

theorem TemplateLabels.nodup (h : TemplateLabels ctx i code) : (boundLabels code).Nodup := by
  obtain ⟨names, hnames, hperm⟩ := h.made
  exact hperm.nodup_iff.mpr (nodup_newLabels hnames)

/-- Every label that is bound has a name and a number inside of this template. -/
theorem TemplateLabels.exists_inside (h : TemplateLabels ctx i code) {l : Label} (hl : l ∈ boundLabels code) :
    ∃ name n, LabelName name ∧ l = ctx.inside i name n := by
  obtain ⟨names, hnames, hperm⟩ := h.made
  rw [hperm.mem_iff, newLabels_eq, insides, List.mem_map] at hl
  obtain ⟨⟨name, n⟩, hpair, rfl⟩ := hl
  exact ⟨name, n, hnames name (List.fst_mem_of_mem_zipIdx hpair), rfl⟩

/-- Every label that is bound stands inside this template. -/
theorem TemplateLabels.inside (h : TemplateLabels ctx i code) : ∀ l ∈ boundLabels code,
    l.scope = ctx.method.symbol ∧ l.position = i.position ∧ l.isSynthetic = true := by
  intro l hl
  obtain ⟨name, n, -, rfl⟩ := h.exists_inside hl
  exact ⟨rfl, rfl, rfl⟩

/-- A template that binds the labels it makes for these names and goes to them or where `i` goes. -/
theorem TemplateLabels.of_hasLabels (names : List (String × Nat)) {used : List Label}
    (h : HasLabels code (insides ctx i names) used) (hnumbered : Numbered names)
    (hused : ∀ l ∈ used, l ∈ insides ctx i names ∨ GoesTo ctx i l) :
    TemplateLabels ctx i code := by
  constructor
  · rw [h.bound]
    exact hnumbered.exists_newLabels
  · rw [h.bound, h.used]
    exact hused

theorem TemplateLabels.of_unlabelled (h : Unlabelled code) : TemplateLabels ctx i code :=
  .of_hasLabels [] h (by decide) (by simp)

/-- A template that binds nothing and goes where the instruction goes. -/
theorem TemplateLabels.of_goesTo {used : List Label} (h : HasLabels code [] used)
    (hused : ∀ l ∈ used, GoesTo ctx i l) : TemplateLabels ctx i code :=
  .of_hasLabels [] h (by decide) fun l hl => .inr (hused l hl)

/-- A template that goes to no labels but those it binds. -/
theorem TemplateLabels.of_own (names used : List (String × Nat))
    (h : HasLabels code (insides ctx i names) (insides ctx i used)) (hnumbered : Numbered names)
    (hused : used ⊆ names) : TemplateLabels ctx i code :=
  .of_hasLabels names h hnumbered fun _ hl => .inl (List.map_subset _ hused hl)

theorem TemplateLabels.congr {code' : List I} (h : TemplateLabels ctx i code)
    (hlabels : HasLabels code' (boundLabels code) (usedLabels code)) : TemplateLabels ctx i code' := by
  constructor
  · rw [hlabels.bound]
    exact h.made
  · rw [hlabels.bound, hlabels.used]
    exact h.closed

theorem TemplateLabels.prepend {before : List I} (hbefore : Unlabelled before)
    (h : TemplateLabels ctx i code) : TemplateLabels ctx i (before ++ code) :=
  h.congr (hbefore.append ⟨rfl, rfl⟩)

theorem TemplateLabels.append {after : List I} (h : TemplateLabels ctx i code)
    (hafter : Unlabelled after) : TemplateLabels ctx i (code ++ after) :=
  h.congr (by simpa using HasLabels.append ⟨rfl, rfl⟩ hafter)

/-- A template made from an answer has the labels of the code it answers. -/
theorem TemplateLabels.ofExcept {answer : Except CompileError (List I)}
    (hfailure : (Template.ofExcept answer).failure = none)
    (h : ∀ code, answer = .ok code → TemplateLabels ctx i code) :
    TemplateLabels ctx i (Template.ofExcept answer).code := by
  cases answer with
  | error e => cases hfailure
  | ok code => exact h code rfl

/-- The label that a branch to `t` is given is one where `i` goes. -/
theorem goesTo_of_targetLabel {t : Int} {targets : List Int} {l : Label}
    (htargets : i.targets = .ok targets) (hmem : t ∈ targets)
    (hlabel : ctx.targetLabel i t = .ok l) : GoesTo ctx i l := by
  unfold EmitContext.targetLabel at hlabel
  split at hlabel
  · rename_i hrange
    obtain rfl := Except.ok.inj hlabel
    exact .target htargets hmem hrange.1
  · cases hlabel

theorem targets_of_branchTarget {t : Int} (h : i.branchTarget = .ok t) : i.targets = .ok [t] := by
  unfold Instruction.branchTarget at h
  unfold Instruction.targets
  split at h
  · rename_i hkind
    simp only [hkind, Instruction.branchTarget, h]
    rfl
  · rename_i hkind
    simp only [hkind, Instruction.branchTarget, h]
    rfl
  · cases h

theorem targets_of_switchTargets {targets : List Int} (hop : i.op.operation = .switch)
    (h : i.switchTargets = .ok targets) : i.targets = .ok targets := by
  have hkind : i.op.operandKind = .switch := by
    generalize i.op = op at hop
    cases op <;> first | rfl | cases hop
  rw [Instruction.targets, hkind]
  exact h

end Templates

end Stencil
