import Stencil.Proofs.Height.Track
import Stencil.Proofs.Machine.Code

/-!
# Where control may stand in a template

A template that is tracked (`Balanced`) leaves at one distance `d` of the stack pointer from its
start, by falling off its end or by going to a label that it does not bind. Wherever control stands
in it, the rest of the template is tracked from the distance there (`Level`), and going to a label
leads to a place of that kind or out of the template at the distance `d` (`Stands`).
-/

namespace Stencil

open AddressMap

/-- The address is none of an instruction of the code placed at `base`. -/
def Outside {I : Type} (base : Nat) (code : List I) (address : UInt32) : Prop :=
  ∀ k, k < code.length → address ≠ codeAddress (base + k)

theorem outside_end {I : Type} {base : Nat} {code : List I}
    (hend : base + code.length ≤ codeLimit) :
    Outside base code (codeAddress (base + code.length)) := by
  intro k hk heq
  have := (codeAddress_inj hend (by omega)).mp heq
  omega

/-- An address is that of one instruction of the code at most. -/
theorem index_inj {I : Type} {base j k : Nat} {code : List I} (hend : base + code.length ≤ codeLimit)
    (hj : j < code.length) (hk : k < code.length) (h : codeAddress (base + j) = codeAddress (base + k)) :
    j = k := by
  have := (codeAddress_inj (by omega) (by omega)).mp h
  omega

section Landing

variable {I : Type} [TargetInstr I] [LabelUse I]

/-- A label of unlabelled code followed by `rest` stands in `rest`. -/
theorem label_in_rest {code rest : List I} {used : List Label} {j : Nat} {instr : I} {l : Label}
    (hcode : HasLabels code [] used) (hat : (code ++ rest)[j]? = some instr)
    (hlabel : TargetInstr.asLabel? instr = some l) :
    ∃ k, j = code.length + k ∧ rest[k]? = some instr := by
  by_cases hj : j < code.length
  · rw [List.getElem?_append_left hj] at hat
    have hmem : l ∈ boundLabels code :=
      List.mem_filterMap.mpr ⟨instr, List.mem_of_getElem? hat, hlabel⟩
    rw [hcode.bound] at hmem
    cases hmem
  · rw [List.getElem?_append_right (by omega)] at hat
    exact ⟨j - code.length, by omega, hat⟩

variable [StackUse I] {heights : Label → UInt32}

/-- From a label on, the code is tracked from the distance of the label. -/
theorem Track.from_label {s t : Option UInt32} {code : List I} (h : Track heights s code t) {j : Nat}
    {instr : I} {l : Label} (hat : code[j]? = some instr)
    (hlabel : TargetInstr.asLabel? instr = some l) :
    Track heights (some (heights l)) (code.drop j) t := by
  induction h generalizing j with
  | nil => cases hat
  | move hmove _ ih =>
    cases j with
    | zero =>
      obtain rfl := Option.some.inj hat
      rw [StackUse.unbound_of_moves hmove] at hlabel
      cases hlabel
    | succ j => exact ih hat
  | label hlabel' hheight hrest ih =>
    cases j with
    | zero =>
      obtain rfl := Option.some.inj hat
      obtain rfl := Option.some.inj (hlabel.symm.trans hlabel')
      subst hheight
      exact .label hlabel rfl hrest
    | succ j => exact ih hat
  | land hlabel' hrest ih =>
    cases j with
    | zero =>
      obtain rfl := Option.some.inj hat
      obtain rfl := Option.some.inj (hlabel.symm.trans hlabel')
      exact .label hlabel rfl hrest
    | succ j => exact ih hat
  | branch hbranch _ _ ih =>
    obtain ⟨k, rfl, hk⟩ := label_in_rest (StackUse.labels_of_branches hbranch) hat hlabel
    rw [List.drop_length_add_append]
    exact ih hk
  | jump hjump _ _ ih =>
    obtain ⟨k, rfl, hk⟩ := label_in_rest (StackUse.labels_of_jumps hjump) hat hlabel
    rw [List.drop_length_add_append]
    exact ih hk
  | call hcall _ ih =>
    obtain ⟨k, rfl, hk⟩ := label_in_rest (StackUse.labels_of_calls hcall) hat hlabel
    rw [List.drop_length_add_append]
    exact ih hk
  | stop hstop _ ih =>
    obtain ⟨k, rfl, hk⟩ := label_in_rest (StackUse.labels_of_stops hstop) hat hlabel
    rw [List.drop_length_add_append]
    exact ih hk

end Landing

section Places

variable {I : Type} [TargetInstr I] [LabelUse I] [StackUse I]

/-- The template is tracked from its start on, and leaves at the distance `d` only. -/
structure Balanced (heights : Label → UInt32) (code : List I) (d : UInt32) : Prop where
  track : ∃ t, (t = none ∨ t = some d) ∧ Track heights (some 0) code t
  exits : ∀ l ∈ usedLabels code, l ∉ boundLabels code → heights l = d

/-- From place `k` on, the code is tracked from the distance `h`. -/
def Level (heights : Label → UInt32) (code : List I) (d : UInt32) (k : Nat) (h : UInt32) : Prop :=
  ∃ t, (t = none ∨ t = some d) ∧ Track heights (some h) (code.drop k) t

/-- Control stands at a place of the code that is tracked from the distance `h`, or it has left the
code at the distance `d`. -/
def Stands (heights : Label → UInt32) (base : Nat) (code : List I) (d address h : UInt32) : Prop :=
  (∃ k, k < code.length ∧ address = codeAddress (base + k) ∧ Level heights code d k h) ∨
    Outside base code address ∧ h = d

variable {heights : Label → UInt32} {code : List I} {d h : UInt32} {p : Program I} {base : Nat}

theorem Level.at_end (hlevel : Level heights code d code.length h) : h = d := by
  obtain ⟨t, ht, htrack⟩ := hlevel
  have hsame := htrack.of_nil List.drop_length
  rcases ht with rfl | rfl
  · cases hsame
  · exact Option.some.inj hsame

theorem Stands.of_level {k : Nat} (hend : base + code.length ≤ codeLimit) (hk : k ≤ code.length)
    (hlevel : Level heights code d k h) :
    Stands heights base code d (codeAddress (base + k)) h := by
  rcases Nat.lt_or_eq_of_le hk with hlt | rfl
  · exact .inl ⟨k, hlt, rfl, hlevel⟩
  · exact .inr ⟨outside_end hend, hlevel.at_end⟩

/-- Where control stands in the code, the rest of it is tracked. -/
theorem Stands.level {k : Nat} {address : UInt32} (h' : Stands heights base code d address h)
    (hend : base + code.length ≤ codeLimit) (haddress : address = codeAddress (base + k))
    (hk : k < code.length) : Level heights code d k h := by
  rcases h' with ⟨j, hj, heq, hlevel⟩ | ⟨hout, -⟩
  · obtain rfl := index_inj hend hj hk (heq.symm.trans haddress)
    exact hlevel
  · exact absurd haddress (hout k hk)

theorem Stands.eq_of_outside {address : UInt32} (h' : Stands heights base code d address h)
    (hout : Outside base code address) : h = d := by
  rcases h' with ⟨k, hk, heq, -⟩ | ⟨-, heq⟩
  · exact absurd heq (hout k hk)
  · exact heq

namespace Balanced

variable (hbalanced : Balanced heights code d)

include hbalanced

theorem stands_start (hend : base + code.length ≤ codeLimit) :
    Stands heights base code d (codeAddress base) 0 := by
  obtain ⟨t, ht, htrack⟩ := hbalanced.track
  exact .of_level (k := 0) hend (Nat.zero_le _) ⟨t, ht, htrack⟩

/-- Going to a label that the code uses leads to a place with the distance of the label. -/
theorem stands_label (hwf : p.WellFormed) (hplaced : Placed p base code)
    (hend : base + code.length ≤ codeLimit) {l : Label} {address : UInt32}
    (hused : l ∈ usedLabels code) (haddress : p.labelAddress l = .ok address) :
    Stands heights base code d address (heights l) := by
  unfold Program.labelAddress at haddress
  split at haddress
  · rename_i index hindex
    obtain rfl := Except.ok.inj haddress
    by_cases hbound : l ∈ boundLabels code
    · obtain ⟨instr, hmem, hlabel⟩ := List.mem_filterMap.mp hbound
      obtain ⟨k, hk⟩ := List.mem_iff_getElem?.mp hmem
      have hplace := hplaced.labels k instr l hk hlabel
      obtain rfl := Option.some.inj (hindex.symm.trans hplace)
      obtain ⟨t, ht, htrack⟩ := hbalanced.track
      have hlt : k < code.length := (List.getElem?_eq_some_iff.mp hk).1
      exact .of_level hend (Nat.le_of_lt hlt) ⟨t, ht, htrack.from_label hk hlabel⟩
    · refine .inr ⟨?_, hbalanced.exits l hused hbound⟩
      -- an instruction of the code at that index would bind the label
      intro k hk heq
      obtain ⟨instr, hinstr, hlabel⟩ := hwf.labels l index hindex
      have hlt : index < p.code.size := (Array.getElem?_eq_some_iff.mp hinstr).1
      have hfits := hwf.fits
      obtain rfl := (codeAddress_inj (by omega) (by omega)).mp heq
      have hfetch := hplaced.fetch k code[k] (List.getElem?_eq_getElem hk)
      obtain rfl := Option.some.inj (hinstr.symm.trans hfetch)
      exact hbound (List.mem_filterMap.mpr ⟨code[k], List.getElem_mem hk, hlabel⟩)
  · cases haddress

end Balanced

/-- A template that conserves `d` goes to labels outside of it at that distance only. -/
theorem Conserves.balanced {ctx : EmitContext} {i : Instruction} (h : Conserves code d)
    (hlabels : TemplateLabels ctx i code) : ∃ heights, Balanced heights code d := by
  obtain ⟨heights, t, houtside, ht, htrack⟩ := h
  refine ⟨heights, ⟨t, ht, htrack⟩, fun l hused hbound => houtside l ?_⟩
  exact isSynthetic_of_goesTo ((hlabels.closed l hused).resolve_left hbound)

end Places

end Stencil
