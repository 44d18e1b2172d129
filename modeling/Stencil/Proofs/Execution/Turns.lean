import Stencil.Proofs.Execution.Frame
import Stencil.Target.Basic

/-!
# What templates make of the stack

`Turns code words fp words' fp'` says that a template makes one stack into another, whatever the
registers hold. It composes, and loops that count up or down carry an invariant through. An instruction
`Trades` its operands on the stack for its results wherever its template is placed in a program.
-/

namespace Stencil

variable {R : Type}

/-- The stack and the frame pointer of a view. -/
structure View.At (v : View R) (words : List UInt32) (fp : UInt32) : Prop where
  words_eq : v.words = words
  fp_eq : v.fp = fp
  fits : words.length + v.free = stackCapacity

theorem View.At.push? {v : View R} {words : List UInt32} {fp : UInt32} (h : v.At words fp)
    (hroom : words.length < stackCapacity) (w : UInt32) :
    ∃ v', v.push? w = some v' ∧ v'.At (w :: words) fp ∧ v'.regs = v.regs := by
  have hfits := h.fits
  obtain ⟨free, hfree⟩ : ∃ free, v.free = free + 1 := ⟨v.free - 1, by omega⟩
  refine ⟨_, View.push?_of_free hfree w, ⟨?_, h.fp_eq, ?_⟩, rfl⟩
  · rw [h.words_eq]
  · rw [List.length_cons]
    dsimp only
    omega

section Exec

variable {I M : Type} [TargetInstr I] [LabelUse I] [Semantics I R M]

/-- From every view with this stack and frame pointer the template runs over its end or to a label, to a
view with that stack and frame pointer. -/
def Turns (code : List I) (words : List UInt32) (fp : UInt32) (x : Exit) (words' : List UInt32)
    (fp' : UInt32) : Prop :=
  ∀ v : View R, v.At words fp → ∃ v', Exec code v x v' ∧ v'.At words' fp'

namespace Turns

variable {code code' : List I} {words words' words'' : List UInt32} {fp fp' fp'' : UInt32} {x : Exit}

theorem nil : Turns ([] : List I) words fp .next words fp := fun v hv => ⟨v, .nil, hv⟩

theorem append (h : Turns code words fp .next words' fp') (h' : Turns code' words' fp' x words'' fp'') :
    Turns (code ++ code') words fp x words'' fp'' := by
  intro v hv
  obtain ⟨t, hfirst, ht⟩ := h v hv
  obtain ⟨v', hsecond, hv'⟩ := h' t ht
  exact ⟨v', hfirst.append hsecond, hv'⟩

theorem countUp (f : Nat → List I) (stack : Nat → List UInt32) {n : Nat}
    (hstep : ∀ k < n, Turns (f k) (stack k) fp .next (stack (k + 1)) fp) :
    Turns ((List.range n).flatMap f) (stack 0) fp .next (stack n) fp := by
  induction n with
  | zero => exact nil
  | succ n ih =>
    rw [List.range_succ, List.flatMap_append, List.flatMap_singleton]
    exact (ih fun k hk => hstep k (by omega)).append (hstep n (by omega))

theorem countDown (f : Nat → List I) (stack : Nat → List UInt32) {n : Nat}
    (hstep : ∀ k < n, Turns (f k) (stack (k + 1)) fp .next (stack k) fp) :
    Turns ((List.range n).reverse.flatMap f) (stack n) fp .next (stack 0) fp := by
  induction n with
  | zero => exact nil
  | succ n ih =>
    rw [List.range_succ, List.reverse_append, List.reverse_singleton, List.singleton_append,
      List.flatMap_cons]
    exact (hstep n (by omega)).append (ih fun k hk => hstep k (by omega))

theorem zeros (hpush : ∀ words : List UInt32, words.length < stackCapacity →
      Turns code words fp .next (0 :: words) fp) {count : Nat}
    (hroom : count + words.length ≤ stackCapacity) :
    Turns (List.replicate count code).flatten words fp .next (List.replicate count 0 ++ words) fp := by
  induction count generalizing words with
  | zero => exact nil
  | succ count ih =>
    have hwords : List.replicate (count + 1) 0 ++ words = List.replicate count 0 ++ 0 :: words := by
      rw [List.replicate_succ', List.append_assoc, List.singleton_append]
    rw [List.replicate_succ, List.flatten_cons, hwords]
    refine (hpush words (by omega)).append (ih ?_)
    rw [List.length_cons]
    omega

end Turns

/-! ## In a program -/

/-- The machine is about to run the instruction of this index, with these words on the stack and this
frame pointer. -/
def Poised (I : Type) {R M : Type} [TargetInstr I] [LabelUse I] [Semantics I R M] (m : M) (k : Nat)
    (words : List UInt32) (fp : UInt32) : Prop :=
  ∃ v : View R, Semantics.Stands I m k v ∧ v.words = words ∧ v.fp = fp

namespace Poised

variable {m : M} {k : Nat} {words words' : List UInt32} {fp fp' : UInt32}

theorem holds (h : Poised I m k words fp) : (Semantics.memory I m).Holds words := by
  obtain ⟨v, hstands, rfl, -⟩ := h
  exact (Semantics.shows_of_stands hstands).holds

/-- A machine that stands shows its stack and frame pointer. -/
theorem view (h : Poised I m k words fp) : ∃ v : View R, Semantics.Stands I m k v ∧ v.At words fp := by
  obtain ⟨v, hstands, rfl, rfl⟩ := h
  exact ⟨v, hstands, rfl, rfl, (Semantics.shows_of_stands hstands).length⟩

/-- A machine follows a template that is placed where it rests. -/
theorem leaves {p : Program I} {code : List I} {x : Exit} (h : Poised I m k words fp)
    (hturns : Turns code words fp x words' fp') (hfits : p.code.size ≤ codeLimit)
    (hplaced : Placed p k code) (hlabel : ∀ l, x = .goto l → ∃ j, p.labels[l]? = some j) :
    Reaches (Semantics.cycle p) m fun m' =>
      ∃ j, x.LeadsTo p (k + code.length) j ∧ Poised I m' j words' fp' := by
  obtain ⟨v, hstands, hv⟩ := h.view
  obtain ⟨v', hexec, hv'⟩ := hturns v hv
  obtain ⟨n, m', j, -, hcycles, hleads, hstands'⟩ := hexec.reaches hfits hplaced hlabel hstands
  exact ⟨n, m', hcycles, j, hleads, v', hstands', hv'.words_eq, hv'.fp_eq⟩

theorem turns {p : Program I} {code : List I} (h : Poised I m k words fp)
    (hturns : Turns code words fp .next words' fp') (hfits : p.code.size ≤ codeLimit)
    (hplaced : Placed p k code) :
    Reaches (Semantics.cycle p) m fun m' => Poised I m' (k + code.length) words' fp' := by
  refine (h.leaves hturns hfits hplaced fun l hl => by cases hl).mono fun m' hm' => ?_
  obtain ⟨j, rfl, hpoised⟩ := hm'
  exact hpoised

end Poised

end Exec

/-! ## What instructions make of their operands -/

section Trades

variable {I R M : Type} [TargetInstr I] [LabelUse I] [Semantics I R M]

/-- With the operands on the stack the template leads through the exit, with the results in their place.
What is deeper stays, and so does the frame pointer. -/
structure Trades (backend : Backend I) (ctx : EmitContext) (i : Instruction) (e : Effect)
    (operands : List UInt32) (x : Exit) (results : List UInt32) : Prop where
  emitted : (backend.emit ctx i e).failure = none
  reaches : ∀ {p : Program I} {base : Nat} {m : M} {deep : List UInt32} {fp : UInt32},
    p.code.size ≤ codeLimit → Placed p base (backend.emit ctx i e).code →
    (∀ l, x = .goto l → ∃ k, p.labels[l]? = some k) → Poised I m base (operands ++ deep) fp →
    Reaches (Semantics.cycle p) m fun m' => ∃ k,
      x.LeadsTo p (base + (backend.emit ctx i e).code.length) k ∧ Poised I m' k (results ++ deep) fp

/-- With the operands on the stack the template ends in a fault. -/
structure Stops (backend : Backend I) (ctx : EmitContext) (i : Instruction) (e : Effect)
    (operands : List UInt32) (fault : Fault) : Prop where
  emitted : (backend.emit ctx i e).failure = none
  ends : ∀ {p : Program I} {base : Nat} {m : M} {deep : List UInt32} {fp : UInt32},
    p.code.size ≤ codeLimit → Placed p base (backend.emit ctx i e).code →
    Poised I m base (operands ++ deep) fp → Ends (Semantics.cycle p) fault m

variable {backend : Backend I} {ctx : EmitContext} {i : Instruction} {e : Effect}
  {operands results : List UInt32} {x : Exit}

theorem Trades.of_turns (code : List I) (hemit : backend.emit ctx i e = { code })
    (h : ∀ deep fp, Turns code (operands ++ deep) fp x (results ++ deep) fp) :
    Trades backend ctx i e operands x results where
  emitted := by rw [hemit]
  reaches hfits hplaced hlabel hm := by
    rw [hemit] at hplaced ⊢
    exact hm.leaves (h _ _) hfits hplaced hlabel

/-- A machine meets what it needs to get to the end of a template. -/
theorem Trades.reaches_end (h : Trades backend ctx i e operands .next results) {p : Program I} {base : Nat}
    {m : M} {deep : List UInt32} {fp : UInt32} (hfits : p.code.size ≤ codeLimit)
    (hplaced : Placed p base (backend.emit ctx i e).code) (hm : Poised I m base (operands ++ deep) fp) :
    Reaches (Semantics.cycle p) m fun m' =>
      Poised I m' (base + (backend.emit ctx i e).code.length) (results ++ deep) fp := by
  refine (h.reaches hfits hplaced (fun l hl => by cases hl) hm).mono fun m' hm' => ?_
  obtain ⟨k, rfl, hpoised⟩ := hm'
  exact hpoised

end Trades

end Stencil
