import Stencil.Proofs.Labels.Basic
import Stencil.Proofs.Stateful
import Mathlib.Data.UInt
import Mathlib.Tactic.Ring

/-!
# Tracking the stack pointer through a template

`Track heights s code t` follows the distance of the stack pointer from where the template started.
Before `code` the distance is `s` and after it `t`, where no distance stands for a place that control
does not reach. At a label the distance is the one that `heights` gives, whatever way control came.
-/

namespace Stencil

/-- How the instructions of a target move the stack pointer. -/
class StackUse (I : Type) [TargetInstr I] [LabelUse I] where
  /-- What the instruction adds to the stack pointer when it goes on to the next one; nothing for an
  instruction that goes elsewhere or changes the frame pointer. -/
  moves? : I → Option UInt32
  /-- Code that goes to a label or goes on. -/
  Branches : List I → Label → Prop
  /-- Code that goes to a label. -/
  Jumps : List I → Label → Prop
  /-- Code that calls a routine. -/
  Calls : List I → Prop
  /-- Code that calls a routine which never returns. -/
  Stops : List I → Prop
  /-- What goes on to the next instruction binds no label. -/
  unbound_of_moves : ∀ {instr d}, moves? instr = some d → TargetInstr.asLabel? instr = none
  labels_of_branches : ∀ {code l}, Branches code l → HasLabels code [] [l]
  labels_of_jumps : ∀ {code l}, Jumps code l → HasLabels code [] [l]
  labels_of_calls : ∀ {code}, Calls code → Unlabelled code
  labels_of_stops : ∀ {code}, Stops code → Unlabelled code
  not_calls_nil : ¬Calls []
  not_stops_nil : ¬Stops []

section Track

variable {I : Type} [TargetInstr I] [LabelUse I] [StackUse I]

/-- The distance of the stack pointer from its start before and after `code`. -/
inductive Track (heights : Label → UInt32) :
    Option UInt32 → List I → Option UInt32 → Prop
  | nil {s : Option UInt32} : Track heights s [] s
  | move {instr : I} {rest : List I} {d h : UInt32} {t : Option UInt32}
      (hmove : StackUse.moves? instr = some d) (hrest : Track heights (some (h + d)) rest t) :
      Track heights (some h) (instr :: rest) t
  | label {instr : I} {rest : List I} {l : Label} {h : UInt32} {t : Option UInt32}
      (hlabel : TargetInstr.asLabel? instr = some l) (hheight : heights l = h)
      (hrest : Track heights (some h) rest t) : Track heights (some h) (instr :: rest) t
  | land {instr : I} {rest : List I} {l : Label} {t : Option UInt32}
      (hlabel : TargetInstr.asLabel? instr = some l)
      (hrest : Track heights (some (heights l)) rest t) : Track heights none (instr :: rest) t
  | branch {code rest : List I} {l : Label} {h : UInt32} {t : Option UInt32}
      (hbranch : StackUse.Branches code l) (hheight : heights l = h)
      (hrest : Track heights (some h) rest t) : Track heights (some h) (code ++ rest) t
  | jump {code rest : List I} {l : Label} {h : UInt32} {t : Option UInt32}
      (hjump : StackUse.Jumps code l) (hheight : heights l = h)
      (hrest : Track heights none rest t) : Track heights (some h) (code ++ rest) t
  | call {code rest : List I} {h : UInt32} {t : Option UInt32} (hcall : StackUse.Calls code)
      (hrest : Track heights (some h) rest t) : Track heights (some h) (code ++ rest) t
  | stop {code rest : List I} {h : UInt32} {t : Option UInt32} (hstop : StackUse.Stops code)
      (hrest : Track heights none rest t) : Track heights (some h) (code ++ rest) t

variable {heights : Label → UInt32}

theorem Track.of_nil {s t : Option UInt32} {code : List I} (h : Track heights s code t)
    (hcode : code = []) : s = t := by
  cases h with
  | nil => rfl
  | move | label | land => cases hcode
  | branch hbranch =>
    obtain ⟨rfl, -⟩ := List.append_eq_nil_iff.mp hcode
    cases (StackUse.labels_of_branches hbranch).used
  | jump hjump =>
    obtain ⟨rfl, -⟩ := List.append_eq_nil_iff.mp hcode
    cases (StackUse.labels_of_jumps hjump).used
  | call hcall =>
    obtain ⟨rfl, -⟩ := List.append_eq_nil_iff.mp hcode
    exact absurd hcall StackUse.not_calls_nil
  | stop hstop =>
    obtain ⟨rfl, -⟩ := List.append_eq_nil_iff.mp hcode
    exact absurd hstop StackUse.not_stops_nil

theorem Track.append {s t u : Option UInt32} {code code' : List I} (h : Track heights s code t)
    (h' : Track heights t code' u) : Track heights s (code ++ code') u := by
  induction h with
  | nil => exact h'
  | move hmove _ ih => exact .move hmove (ih h')
  | label hlabel hheight _ ih => exact .label hlabel hheight (ih h')
  | land hlabel _ ih => exact .land hlabel (ih h')
  | branch hbranch hheight _ ih =>
    rw [List.append_assoc]
    exact .branch hbranch hheight (ih h')
  | jump hjump hheight _ ih =>
    rw [List.append_assoc]
    exact .jump hjump hheight (ih h')
  | call hcall _ ih =>
    rw [List.append_assoc]
    exact .call hcall (ih h')
  | stop hstop _ ih =>
    rw [List.append_assoc]
    exact .stop hstop (ih h')

theorem Track.keep {instr : I} {rest : List I} {h : UInt32} {t : Option UInt32}
    (hmove : StackUse.moves? instr = some 0) (hrest : Track heights (some h) rest t) :
    Track heights (some h) (instr :: rest) t := by
  refine .move hmove ?_
  rwa [UInt32.add_zero]

theorem Track.branch_one {code : List I} {l : Label} {h : UInt32}
    (hbranch : StackUse.Branches code l) (hheight : heights l = h) :
    Track heights (some h) code (some h) := by
  rw [← List.append_nil code]
  exact .branch hbranch hheight .nil

theorem Track.jump_one {code : List I} {l : Label} {h : UInt32} (hjump : StackUse.Jumps code l)
    (hheight : heights l = h) : Track heights (some h) code none := by
  rw [← List.append_nil code]
  exact .jump hjump hheight .nil

theorem Track.stop_one {code : List I} {h : UInt32} (hstop : StackUse.Stops code) :
    Track heights (some h) code none := by
  rw [← List.append_nil code]
  exact .stop hstop .nil

end Track

/-! ## Straight code -/

section Shifts

variable {I : Type} [TargetInstr I] [LabelUse I] [StackUse I]

/-- What a list of instructions that go on one after another adds to the stack pointer. -/
def movesAll : List I → Option UInt32
  | [] => some 0
  | instr :: rest => do
    let d ← StackUse.moves? instr
    let e ← movesAll rest
    some (d + e)

/-- The code adds `d` to the stack pointer, wherever it stands. -/
def Shifts (code : List I) (d : UInt32) : Prop :=
  ∀ (heights : Label → UInt32) (h : UInt32), Track heights (some h) code (some (h + d))

theorem shifts_nil : Shifts ([] : List I) 0 := by
  intro heights h
  rw [UInt32.add_zero]
  exact .nil

theorem shifts_of_movesAll {code : List I} {d : UInt32} (h : movesAll code = some d) :
    Shifts code d := by
  induction code generalizing d with
  | nil =>
    obtain rfl := Option.some.inj h
    exact shifts_nil
  | cons instr rest ih =>
    intro heights height
    simp only [movesAll, Option.bind_eq_bind, Option.bind_eq_some_iff] at h
    obtain ⟨d', hmove, e, hrest, heq⟩ := h
    obtain rfl := Option.some.inj heq
    rw [← UInt32.add_assoc]
    exact .move hmove (ih hrest heights (height + d'))

theorem Shifts.append {code code' : List I} {d e : UInt32} (h : Shifts code d)
    (h' : Shifts code' e) : Shifts (code ++ code') (d + e) := by
  intro heights height
  rw [← UInt32.add_assoc]
  exact (h heights height).append (h' heights _)

theorem Shifts.track {code : List I} {d h h' : UInt32} (hshifts : Shifts code d) (hsum : h + d = h')
    {heights : Label → UInt32} : Track heights (some h) code (some h') := by
  rw [← hsum]
  exact hshifts heights h

theorem Shifts.keep {code : List I} {h : UInt32} (hshifts : Shifts code 0)
    {heights : Label → UInt32} : Track heights (some h) code (some h) :=
  hshifts.track (UInt32.add_zero h)

theorem Shifts.after {code code' : List I} {d : UInt32} (h : Shifts code 0) (h' : Shifts code' d) :
    Shifts (code ++ code') d := by
  have happend := h.append h'
  rwa [UInt32.zero_add] at happend

theorem Shifts.before {code code' : List I} {d : UInt32} (h : Shifts code d) (h' : Shifts code' 0) :
    Shifts (code ++ code') d := by
  have happend := h.append h'
  rwa [UInt32.add_zero] at happend

theorem shifts_call {code : List I} (h : StackUse.Calls code) : Shifts code 0 := by
  intro heights height
  rw [UInt32.add_zero, ← List.append_nil code]
  exact .call h .nil

theorem shifts_flatMap {α : Type} {f : α → List I} {d : UInt32} (xs : List α)
    (h : ∀ x ∈ xs, Shifts (f x) d) :
    Shifts (xs.flatMap f) (UInt32.ofNat xs.length * d) := by
  induction xs with
  | nil =>
    have hzero : UInt32.ofNat ([] : List α).length * d = 0 := UInt32.zero_mul
    rw [hzero]
    exact shifts_nil
  | cons x xs ih =>
    have hlength : UInt32.ofNat (x :: xs).length * d = d + UInt32.ofNat xs.length * d := by
      rw [List.length_cons, UInt32.ofNat_add, UInt32.add_mul, UInt32.add_comm]
      simp
    rw [List.flatMap_cons, hlength]
    exact (h x (by simp)).append (ih fun y hy => h y (by simp [hy]))

theorem shifts_map {α : Type} {f : α → I} {d : UInt32} (xs : List α)
    (h : ∀ x, Shifts [f x] d) : Shifts (xs.map f) (UInt32.ofNat xs.length * d) := by
  rw [List.map_eq_flatMap]
  exact shifts_flatMap xs fun x _ => h x

theorem shifts_replicate {code : List I} {d : UInt32} (n : Nat) (h : Shifts code d) :
    Shifts (List.replicate n code).flatten (UInt32.ofNat n * d) := by
  have hflat := shifts_flatMap (List.replicate n code) (f := id) (d := d) fun x hx => by
    rw [List.eq_of_mem_replicate hx]
    exact h
  rwa [List.flatMap_id, List.length_replicate] at hflat

end Shifts

theorem ofNat_mul_four (n : Nat) : UInt32.ofNat n * 4 = UInt32.ofNat (4 * n) := by
  rw [UInt32.ofNat_mul, UInt32.mul_comm]
  rfl

theorem ofNat_mul_neg_four (n : Nat) : UInt32.ofNat n * (-4) = -UInt32.ofNat (4 * n) := by
  rw [← ofNat_mul_four, UInt32.mul_neg]

/-! ## Templates -/

/-- The distance `c` at all labels inside a template and `d` at all others. -/
def levels (c d : UInt32) (l : Label) : UInt32 := if l.isSynthetic then c else d

theorem levels_inside (c d : UInt32) (ctx : EmitContext) (i : Instruction) (name : String) (n : Nat) :
    levels c d (ctx.inside i name n) = c := rfl

theorem levels_outside (c d : UInt32) {l : Label} (h : l.isSynthetic = false) : levels c d l = d := by
  rw [levels, if_neg (by simp [h])]

theorem levels_same (d : UInt32) (l : Label) : levels d d l = d := by
  rw [levels, ite_self]

/-- The distances at the labels of a comparison: its end comes after the answer is pushed. -/
def compareLevels (ctx : EmitContext) (i : Instruction) (c d : UInt32) (l : Label) : UInt32 :=
  if l = ctx.inside i "End" 2 then d else levels c d l

section CompareLevels

variable (ctx : EmitContext) (i : Instruction) (c d : UInt32)

theorem compareLevels_true : compareLevels ctx i c d (ctx.inside i "True" 0) = c := by
  rw [compareLevels, if_neg (by rw [inside_inj]; decide), levels_inside]

theorem compareLevels_false : compareLevels ctx i c d (ctx.inside i "False" 1) = c := by
  rw [compareLevels, if_neg (by rw [inside_inj]; decide), levels_inside]

theorem compareLevels_end : compareLevels ctx i c d (ctx.inside i "End" 2) = d := by
  rw [compareLevels, if_pos rfl]

theorem compareLevels_outside {l : Label} (h : l.isSynthetic = false) :
    compareLevels ctx i c d l = d := by
  unfold compareLevels
  split
  · rfl
  · exact levels_outside c d h

end CompareLevels

theorem isSynthetic_of_goesTo {ctx : EmitContext} {i : Instruction} {l : Label}
    (h : GoesTo ctx i l) : l.isSynthetic = false := by
  cases h <;> rfl

section Conserves

variable {I : Type} [TargetInstr I] [LabelUse I] [StackUse I]

/-- The code leaves with `d` added to the stack pointer, by its end or by a label that stands in no
template. -/
def Conserves (code : List I) (d : UInt32) : Prop :=
  ∃ heights t, (∀ l : Label, l.isSynthetic = false → heights l = d) ∧ (t = none ∨ t = some d) ∧
    Track heights (some 0) code t

theorem Conserves.of_levels {code : List I} {c d : UInt32}
    (h : Track (levels c d) (some 0) code (some d)) : Conserves code d :=
  ⟨levels c d, some d, fun _ => levels_outside c d, .inr rfl, h⟩

theorem Conserves.of_shifts {code : List I} {d : UInt32} (h : Shifts code d) : Conserves code d :=
  .of_levels (c := 0) (h.track (UInt32.zero_add d))

/-- Code whose labels all stand at the distance `c`, between code that goes straight on. -/
theorem Conserves.around {before middle after : List I} {c r d : UInt32} (hbefore : Shifts before c)
    (hmiddle : Track (levels c d) (some c) middle (some c)) (hafter : Shifts after r)
    (hsum : c + r = d) : Conserves (before ++ middle ++ after) d := by
  have hstart : Track (levels c d) (some 0) before (some c) := hbefore.track (UInt32.zero_add c)
  exact .of_levels ((hstart.append hmiddle).append (hafter.track hsum))

/-- Code that goes straight on and then may go to labels outside of it. -/
theorem Conserves.of_branches {before branches : List I} {d : UInt32} (hbefore : Shifts before d)
    (hbranches : Track (levels d d) (some d) branches (some d)) :
    Conserves (before ++ branches) d := by
  have hstart : Track (levels d d) (some 0) before (some d) := hbefore.track (UInt32.zero_add d)
  exact .of_levels (hstart.append hbranches)

theorem Conserves.of_jump {code jump : List I} {l : Label} {d : UInt32} (hcode : Shifts code d)
    (hjump : StackUse.Jumps jump l) : Conserves (code ++ jump) d := by
  have hstart : Track (levels d d) (some 0) code (some d) := hcode.track (UInt32.zero_add d)
  exact ⟨levels d d, none, fun _ => levels_outside d d, .inl rfl,
    hstart.append (.jump_one hjump (levels_same d l))⟩

theorem Conserves.ofExcept {answer : Except CompileError (List I)} {d : UInt32}
    (hfailure : (Template.ofExcept answer).failure = none)
    (h : ∀ code, answer = .ok code → Conserves code d) :
    Conserves (Template.ofExcept answer).code d := by
  cases answer with
  | error err => cases hfailure
  | ok code => exact h code rfl

theorem Conserves.ofExcept_shifts {answer : Except CompileError (List I)} {d d' : UInt32}
    (hfailure : (Template.ofExcept answer).failure = none) (hd : d' = d)
    (h : ∀ code, answer = .ok code → Shifts code d') :
    Conserves (Template.ofExcept answer).code d := by
  rw [← hd]
  exact .ofExcept hfailure fun code hcode => .of_shifts (h code hcode)

end Conserves

open Stateful

/-! ## Runs that add to the stack pointer

`Adds d x` says that the run `x` of a machine, when it succeeds, adds `d` to the stack pointer and
changes neither the frame pointer nor the place where control stands. -/

/-- A machine with a stack. -/
class StackMachine (M : Type) (P : outParam Type) where
  /-- The stack pointer. -/
  sp : M → UInt32
  /-- The frame pointer. -/
  fp : M → UInt32
  /-- Where control stands. -/
  place : M → P

section Adds

variable {M P ε α β : Type} [StackMachine M P] {d e : UInt32}

/-- The stack pointer has `d` added, and frame pointer and place are the same. -/
structure Moved (d : UInt32) (m m' : M) : Prop where
  sp : StackMachine.sp m' = StackMachine.sp m + d
  fp : StackMachine.fp m' = StackMachine.fp m
  place : StackMachine.place m' = StackMachine.place m

theorem Moved.refl (m : M) : Moved 0 m m := ⟨(UInt32.add_zero _).symm, rfl, rfl⟩

theorem Moved.trans {m m' m'' : M} (h : Moved d m m') (h' : Moved e m' m'') :
    Moved (d + e) m m'' :=
  ⟨by rw [h'.sp, h.sp, UInt32.add_assoc], by rw [h'.fp, h.fp], by rw [h'.place, h.place]⟩

/-- A run that succeeds adds `d` to the stack pointer. -/
def Adds (d : UInt32) (x : EStateM ε M α) : Prop :=
  ∀ m a m', x m = .ok a m' → Moved d m m'

namespace Adds

theorem pure (a : α) : Adds 0 (pure a : EStateM ε M α) := by
  intro m b m' h
  cases h
  exact .refl m

theorem bind {x : EStateM ε M α} {f : α → EStateM ε M β} (hx : Adds d x) (hf : ∀ a, Adds e (f a)) :
    Adds (d + e) (x >>= f) := by
  intro m b m' h
  obtain ⟨a, t, ha, hb⟩ := bind_eq_ok.mp h
  exact (hx m a t ha).trans (hf a t b m' hb)

theorem after {x : EStateM ε M α} {f : α → EStateM ε M β} (hx : Adds 0 x)
    (hf : ∀ a, Adds d (f a)) : Adds d (x >>= f) := by
  have h := hx.bind hf
  rwa [UInt32.zero_add] at h

theorem before {x : EStateM ε M α} {f : α → EStateM ε M β} (hx : Adds d x)
    (hf : ∀ a, Adds 0 (f a)) : Adds d (x >>= f) := by
  have h := hx.bind hf
  rwa [UInt32.add_zero] at h

theorem ite {p : Prop} [Decidable p] {x y : EStateM ε M α} (hx : Adds d x) (hy : Adds d y) :
    Adds d (if p then x else y) := by
  split
  · exact hx
  · exact hy

theorem throw (fault : ε) : Adds d (throw fault : EStateM ε M α) := by
  intro m a m' h
  cases h

theorem state : Adds 0 (EStateM.get : EStateM ε M M) := by
  intro m a m' h
  cases h
  exact .refl m

end Adds

end Adds

end Stencil
