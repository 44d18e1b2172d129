import Stencil.Proofs.Height.Place

/-!
# What code needs to know

A cell is a part of a machine that templates do not share: a register, the flags. Going backwards
through a template, `needs?` collects the cells that decide what the template does and that it has
not set itself. `Needs live before code after` says that `before` covers them, where `after` is needed
at the end of the code and `live l` wherever control goes to the label `l`. A template that needs no
cell at its start is `Isolated`.
-/

namespace Stencil

open AddressMap

/-- How the instructions of a target use cells. -/
class CellUse (I : Type) (C : outParam Type) [TargetInstr I] [LabelUse I] where
  /-- The cells that decide what the instruction does. -/
  reads : I → List C
  /-- The cells that it sets to what those decide. -/
  writes : I → List C
  /-- Control may go on to the next instruction. -/
  goesOn : I → Bool
  /-- The instruction may stand before the rest of a template. -/
  admits : I → List I → Bool
  admits_append : ∀ {instr rest more}, admits instr rest = true → admits instr (rest ++ more) = true
  goesOn_of_label : ∀ {instr l}, TargetInstr.asLabel? instr = some l →
    goesOn instr = true ∧ reads instr = [] ∧ writes instr = [] ∧ LabelUse.uses? instr = none

/-- The operation calls methods, or stands for the start or the end of one. -/
def Operation.entersMethods : Operation → Bool
  | .call | .callIndirect | .callVirtual | .newObject | .methodStart | .methodEnd => true
  | _ => false

section Needs

variable {I C : Type} [DecidableEq C] [TargetInstr I]

/-- Where the instruction binds a label, the cells are live there. -/
def bindsLive (live : Label → List C) (instr : I) (need : List C) : Bool :=
  match TargetInstr.asLabel? instr with
  | some l => need.all (live l).contains
  | none => true

theorem bindsLive_iff {live : Label → List C} {instr : I} {need : List C} :
    bindsLive live instr need = true ↔
      ∀ l, TargetInstr.asLabel? instr = some l → need ⊆ live l := by
  unfold bindsLive
  split <;> rename_i hlabel <;> simp [hlabel, List.subset_def]

variable [LabelUse I] [CellUse I C]

/-- The cells that are live where the instruction may jump to. -/
def jumpNeeds (live : Label → List C) (instr : I) : List C :=
  match LabelUse.uses? instr with
  | some l => live l
  | none => []

/-- The cells that are needed before an instruction if `need` is needed after it. -/
def needsBefore (live : Label → List C) (instr : I) (need : List C) : List C :=
  CellUse.reads instr ++ jumpNeeds live instr ++
    if CellUse.goesOn instr then need.filter (!(CellUse.writes instr).contains ·) else []

/-- The cells that are needed before the code; nothing if it cannot be told. -/
def needs? (live : Label → List C) (after : List C) : List I → Option (List C)
  | [] => some after
  | instr :: rest =>
    match needs? live after rest with
    | none => none
    | some need =>
      if CellUse.admits instr rest && bindsLive live instr need then
        some (needsBefore live instr need)
      else none

theorem needs?_cons {live : Label → List C} {after need : List C} {instr : I} {rest : List I} :
    needs? live after (instr :: rest) = some need ↔
      ∃ tail, needs? live after rest = some tail ∧ CellUse.admits instr rest = true ∧
        (∀ l, TargetInstr.asLabel? instr = some l → tail ⊆ live l) ∧
        needsBefore live instr tail = need := by
  rw [needs?]
  cases needs? live after rest with
  | none => simp
  | some tail => simp [bindsLive_iff, and_assoc]

theorem needsBefore_mono {live : Label → List C} {instr : I} {need need' : List C}
    (h : need ⊆ need') : needsBefore live instr need ⊆ needsBefore live instr need' := by
  intro c hc
  unfold needsBefore at hc ⊢
  rcases List.mem_append.mp hc with hc | hc
  · exact List.mem_append_left _ hc
  · refine List.mem_append_right _ ?_
    split at hc
    · rename_i hgoes
      rw [if_pos hgoes]
      obtain ⟨hmem, hfree⟩ := List.mem_filter.mp hc
      exact List.mem_filter.mpr ⟨h hmem, hfree⟩
    · cases hc

/-- What it takes to run an instruction, to go to its label and to go on after it. -/
theorem needsBefore_subset {live : Label → List C} {instr : I} {need known : List C}
    (h : needsBefore live instr need ⊆ known) :
    CellUse.reads instr ⊆ known ∧ (∀ l, LabelUse.uses? instr = some l → live l ⊆ known) ∧
      (CellUse.goesOn instr = true → need ⊆ CellUse.writes instr ++ known) := by
  obtain ⟨hfirst, hrest⟩ := List.append_subset.mp h
  obtain ⟨hreads, hjump⟩ := List.append_subset.mp hfirst
  refine ⟨hreads, fun l huses => ?_, fun hgoes c hc => ?_⟩
  · rwa [jumpNeeds, huses] at hjump
  · by_cases hset : c ∈ CellUse.writes instr
    · exact List.mem_append_left _ hset
    · refine List.mem_append_right _ (hrest ?_)
      rw [if_pos hgoes]
      exact List.mem_filter.mpr ⟨hc, by simpa using hset⟩

/-- The code needs no more than `before`. -/
def Needs (live : Label → List C) (before : List C) (code : List I) (after : List C) : Prop :=
  ∃ need, needs? live after code = some need ∧ need ⊆ before

namespace Needs

variable {live : Label → List C} {before middle after : List C} {code code' : List I}

theorem nil (h : after ⊆ before) : Needs live before ([] : List I) after := ⟨after, rfl, h⟩

theorem weaken {before' : List C} (h : Needs live before code after) (hsub : before ⊆ before') :
    Needs live before' code after := by
  obtain ⟨need, hneed, hbefore⟩ := h
  exact ⟨need, hneed, List.Subset.trans hbefore hsub⟩

/-- Code whose needs can be computed. -/
theorem of_eval (h : (needs? live after code).any (·.all before.contains) = true) :
    Needs live before code after := by
  cases hneed : needs? live after code with
  | none =>
    rw [hneed] at h
    cases h
  | some need =>
    rw [hneed] at h
    refine ⟨need, hneed, fun c hc => ?_⟩
    have hcontains := List.all_eq_true.mp h c hc
    simpa using hcontains

theorem append (h : Needs live before code middle) (h' : Needs live middle code' after) :
    Needs live before (code ++ code') after := by
  obtain ⟨need, hneed, hbefore⟩ := h
  obtain ⟨need', hneed', hmiddle⟩ := h'
  -- more may be needed between the two than there is, by induction on the first
  have hboth : ∃ need'', needs? live after (code ++ code') = some need'' ∧ need'' ⊆ need := by
    clear hbefore
    induction code generalizing need with
    | nil =>
      obtain rfl := Option.some.inj hneed
      exact ⟨need', hneed', hmiddle⟩
    | cons instr rest ih =>
      obtain ⟨tail, htail, hadmits, hlabel, rfl⟩ := needs?_cons.mp hneed
      obtain ⟨tail', htail', hsub⟩ := ih tail htail
      refine ⟨needsBefore live instr tail', needs?_cons.mpr ⟨tail', htail', ?_, ?_, rfl⟩,
        needsBefore_mono hsub⟩
      · exact CellUse.admits_append hadmits
      · exact fun l hl => List.Subset.trans hsub (hlabel l hl)
  obtain ⟨need'', hneed'', hsub⟩ := hboth
  exact ⟨need'', hneed'', List.Subset.trans hsub hbefore⟩

theorem split (k : Nat) (middle : List C) (h : Needs live before (code.take k) middle)
    (h' : Needs live middle (code.drop k) after) : Needs live before code after := by
  have happend := h.append h'
  rwa [List.take_append_drop] at happend

theorem forget {after' : List C} (h : Needs live before code after) (hsub : after' ⊆ after) :
    Needs live before code after' := by
  have happend := h.append (.nil (I := I) hsub)
  rwa [List.append_nil] at happend

theorem flatMap {α : Type} {f : α → List I} (xs : List α)
    (h : ∀ x ∈ xs, Needs live before (f x) before) : Needs live before (xs.flatMap f) before := by
  induction xs with
  | nil => exact .nil (List.Subset.refl _)
  | cons x xs ih =>
    rw [List.flatMap_cons]
    exact (h x List.mem_cons_self).append (ih fun y hy => h y (List.mem_cons_of_mem _ hy))

theorem map {α : Type} {f : α → I} (xs : List α) (h : ∀ x, Needs live before [f x] before) :
    Needs live before (xs.map f) before := by
  rw [List.map_eq_flatMap]
  exact flatMap xs fun x _ => h x

theorem replicate {code : List I} (n : Nat) (h : Needs live before code before) :
    Needs live before (List.replicate n code).flatten before := by
  rw [← List.flatMap_id]
  refine flatMap _ fun x hx => ?_
  rw [List.eq_of_mem_replicate hx]
  exact h

theorem ite {c : Prop} [Decidable c] (h : Needs live before code after)
    (h' : Needs live before code' after) :
    Needs live before (if c then code else code') after := by
  split
  · exact h
  · exact h'

theorem drop (h : Needs live before code after) (k : Nat) :
    ∃ need, needs? live after (code.drop k) = some need := by
  obtain ⟨need, hneed, -⟩ := h
  induction k generalizing code need with
  | zero => exact ⟨need, hneed⟩
  | succ k ih =>
    cases code with
    | nil => exact ⟨after, rfl⟩
    | cons instr rest =>
      obtain ⟨tail, htail, -⟩ := needs?_cons.mp hneed
      exact ih tail htail

end Needs

/-- The template needs no cell, and leaves with the cells of `after` set by what it was given. -/
def Isolated (code : List I) (after : List C) : Prop :=
  ∃ live : Label → List C, (∀ l : Label, l.isSynthetic = false → after ⊆ live l) ∧
    Needs live [] code after

/-- The cells that are live at labels inside a template and at all others. -/
def liveInside (inside outside : List C) (l : Label) : List C :=
  if l.isSynthetic then inside else outside

theorem Isolated.of_needs (inside : List C) {code : List I} {after : List C}
    (h : Needs (liveInside inside after) [] code after) : Isolated code after :=
  ⟨liveInside inside after, fun l hl => by simp [liveInside, hl], h⟩

theorem Isolated.of_plain {code : List I} (h : Needs (fun _ => []) [] code []) :
    Isolated code ([] : List C) := ⟨fun _ => [], fun _ _ => List.Subset.refl _, h⟩

theorem Isolated.ofExcept {answer : Except CompileError (List I)} {after : List C}
    (hfailure : (Template.ofExcept answer).failure = none)
    (h : ∀ code, answer = .ok code → Isolated code after) :
    Isolated (Template.ofExcept answer).code after := by
  cases answer with
  | error e => cases hfailure
  | ok code => exact h code rfl

/-! ## Where control may stand -/

section Places

variable {live : Label → List C} {after : List C} {base : Nat} {code : List I} {p : Program I}

/-- Control stands at a place of the code where `known` covers what is needed, or it has left the
code and `known` covers what is needed then. -/
def Covers (live : Label → List C) (after : List C) (base : Nat) (code : List I) (known : List C)
    (address : UInt32) : Prop :=
  (∃ k need, k < code.length ∧ address = codeAddress (base + k) ∧
      needs? live after (code.drop k) = some need ∧ need ⊆ known) ∨
    Outside base code address ∧ after ⊆ known

theorem Covers.of_drop {k : Nat} {need known : List C} (hend : base + code.length ≤ codeLimit)
    (hk : k ≤ code.length) (hneed : needs? live after (code.drop k) = some need)
    (hknown : need ⊆ known) : Covers live after base code known (codeAddress (base + k)) := by
  rcases Nat.lt_or_eq_of_le hk with hlt | rfl
  · exact .inl ⟨k, need, hlt, rfl, hneed, hknown⟩
  · rw [List.drop_length] at hneed
    obtain rfl := Option.some.inj hneed
    exact .inr ⟨outside_end hend, hknown⟩

theorem Covers.mono {known known' : List C} {address : UInt32}
    (h : Covers live after base code known address) (hsub : known ⊆ known') :
    Covers live after base code known' address := by
  rcases h with ⟨k, need, hk, haddress, hneed, hknown⟩ | ⟨houtside, hafter⟩
  · exact .inl ⟨k, need, hk, haddress, hneed, List.Subset.trans hknown hsub⟩
  · exact .inr ⟨houtside, List.Subset.trans hafter hsub⟩

/-- Going to a label that the code uses leads to a place that its live cells cover. -/
theorem covers_label (hwf : p.WellFormed) (hplaced : Placed p base code)
    (hend : base + code.length ≤ codeLimit) (hneeds : Needs live [] code after)
    (hexits : ∀ l ∈ usedLabels code, l ∉ boundLabels code → after ⊆ live l) {l : Label}
    {address : UInt32} (hused : l ∈ usedLabels code) (haddress : p.labelAddress l = .ok address) :
    Covers live after base code (live l) address := by
  unfold Program.labelAddress at haddress
  split at haddress
  · rename_i index hindex
    obtain rfl := Except.ok.inj haddress
    by_cases hbound : l ∈ boundLabels code
    · obtain ⟨instr, hmem, hlabel⟩ := List.mem_filterMap.mp hbound
      obtain ⟨k, hk⟩ := List.mem_iff_getElem?.mp hmem
      have hplace := hplaced.labels k instr l hk hlabel
      obtain rfl := Option.some.inj (hindex.symm.trans hplace)
      have hlt : k < code.length := (List.getElem?_eq_some_iff.mp hk).1
      obtain ⟨need, hneed⟩ := hneeds.drop k
      refine .of_drop hend (Nat.le_of_lt hlt) hneed ?_
      rw [List.drop_eq_getElem_cons hlt, (List.getElem?_eq_some_iff.mp hk).2] at hneed
      obtain ⟨tail, -, -, hlive, rfl⟩ := needs?_cons.mp hneed
      -- a label needs what is needed after it
      obtain ⟨hgoes, hreads, hwrites, huses⟩ := CellUse.goesOn_of_label hlabel
      intro c hc
      refine hlive l hlabel ?_
      simpa [needsBefore, jumpNeeds, hgoes, hreads, hwrites, huses] using hc
    · refine .inr ⟨?_, hexits l hused hbound⟩
      -- an instruction of the code at that index would bind the label
      intro k hk heq
      obtain ⟨instr, hinstr, hlabel⟩ := hwf.labels l index hindex
      have hlt : index < p.code.size := (Array.getElem?_eq_some_iff.mp hinstr).1
      have hfits := hwf.fits
      obtain rfl := (codeAddress_inj (by omega) (by omega)).mp heq
      have hfetch := hplaced.fetch k code[k] (List.getElem?_eq_getElem hk)
      obtain rfl := Option.some.inj (hinstr.symm.trans hfetch)
      exact hbound (List.mem_filterMap.mpr ⟨code[k], List.getElem_mem hk, hlabel⟩)
  · cases haddress

end Places

end Needs

end Stencil
