import Stencil.Proofs.Machine.Code
import Stencil.Proofs.Machine.StackWords

/-!
# Running a template

A template works on a view of the machine: the words of the stack and the registers. `Exec` is its
big-step semantics; jumps go forward, to a label of the template or out of it. `Exec.reaches` brings
every execution to a machine that runs the program the template is placed in, in at most as many
cycles as the template has instructions.
-/

namespace Stencil

/-- What templates see of a machine. -/
structure View (R : Type) where
  /-- The words of the stack, the one at the stack pointer first. -/
  words : List UInt32
  /-- Words that can still be pushed. -/
  free : Nat
  /-- The frame pointer. -/
  fp : UInt32
  /-- The other registers. -/
  regs : R

namespace View

variable {R : Type}

/-- The words fill the stack up to what is free, as memory holds them. -/
structure Shows (v : View R) (memory : Memory) : Prop where
  length : v.words.length + v.free = stackCapacity
  holds : memory.Holds v.words

def push? (v : View R) (w : UInt32) : Option (View R) :=
  match v.free with
  | 0 => none
  | free + 1 => some { v with words := w :: v.words, free }

def drop (v : View R) (count : Nat) : View R :=
  { v with words := v.words.drop count, free := v.free + count }

theorem push?_eq_some {v v' : View R} {w : UInt32} (h : v.push? w = some v') :
    ∃ free, v.free = free + 1 ∧ v' = { v with words := w :: v.words, free } := by
  unfold push? at h
  split at h
  · cases h
  · rename_i free hfree
    exact ⟨free, hfree, (Option.some.inj h).symm⟩

theorem push?_of_free {v : View R} {free : Nat} (h : v.free = free + 1) (w : UInt32) :
    v.push? w = some { v with words := w :: v.words, free } := by
  unfold push?
  rw [h]

namespace Shows

variable {v : View R} {memory : Memory}

theorem length_lt (h : v.Shows memory) {free : Nat} (hfree : v.free = free + 1) :
    v.words.length < stackCapacity := by
  have := h.length
  omega

theorem drop {front words : List UInt32} (h : v.Shows memory) (hwords : v.words = front ++ words) :
    (v.drop front.length).Shows memory where
  length := by
    have hlength := h.length
    rw [hwords, List.length_append] at hlength
    show (v.words.drop front.length).length + (v.free + front.length) = _
    rw [hwords, List.drop_left]
    omega
  holds := by
    have hholds := h.holds
    rw [hwords] at hholds
    show memory.Holds (v.words.drop front.length)
    rw [hwords, List.drop_left]
    exact hholds.of_append

end Shows

end View

/-- How control leaves a template. -/
inductive Exit where
  /-- Over its end. -/
  | next
  /-- To a label. -/
  | goto (l : Label)

def branchExit (taken : Bool) (target : Label) : Exit := if taken then .goto target else .next

section Cycles

variable {M : Type}

/-- So many cycles of a machine succeed. -/
inductive Cycles (cycle : EStateM Fault M Unit) : Nat → M → M → Prop
  | zero {m : M} : Cycles cycle 0 m m
  | succ {n : Nat} {m t m' : M} (hcycle : cycle m = .ok () t) (hrest : Cycles cycle n t m') :
      Cycles cycle (n + 1) m m'

variable {cycle : EStateM Fault M Unit} {m t m' : M}

theorem Cycles.one (h : cycle m = .ok () m') : Cycles cycle 1 m m' := .succ h .zero

theorem Cycles.trans {n k : Nat} (h : Cycles cycle n m t) (h' : Cycles cycle k t m') :
    Cycles cycle (n + k) m m' := by
  induction h with
  | zero =>
    rw [Nat.zero_add]
    exact h'
  | succ hcycle _ ih =>
    rw [Nat.add_right_comm]
    exact .succ hcycle (ih h')

/-- The next cycle succeeds, and the machine is as asked behind it. -/
def Succeeds (cycle : EStateM Fault M Unit) (m : M) (Q : M → Prop) : Prop := ∃ t, cycle m = .ok () t ∧ Q t

/-- After some cycles that succeed the machine is as asked. -/
def Reaches (cycle : EStateM Fault M Unit) (m : M) (Q : M → Prop) : Prop :=
  ∃ n m', Cycles cycle n m m' ∧ Q m'

/-- After some cycles that succeed the next one faults. -/
def Ends (cycle : EStateM Fault M Unit) (fault : Fault) (m : M) : Prop :=
  Reaches cycle m fun m' => ∃ t, cycle m' = .error fault t

namespace Reaches

variable {P Q : M → Prop}

theorem here (h : Q m) : Reaches cycle m Q := ⟨0, m, .zero, h⟩

theorem step (hcycle : cycle m = .ok () t) (h : Reaches cycle t Q) : Reaches cycle m Q := by
  obtain ⟨n, m', hrest, hQ⟩ := h
  exact ⟨n + 1, m', .succ hcycle hrest, hQ⟩

theorem trans (h : Reaches cycle m P) (h' : ∀ t, P t → Reaches cycle t Q) : Reaches cycle m Q := by
  obtain ⟨n, t, hfirst, hP⟩ := h
  obtain ⟨k, m', hsecond, hQ⟩ := h' t hP
  exact ⟨n + k, m', hfirst.trans hsecond, hQ⟩

theorem mono (h : Reaches cycle m P) (hPQ : ∀ t, P t → Q t) : Reaches cycle m Q := by
  obtain ⟨n, t, hcycles, hP⟩ := h
  exact ⟨n, t, hcycles, hPQ t hP⟩

end Reaches

/-- A run ends with one fault at most. -/
theorem Ends.unique {fault fault' : Fault} (h : Ends cycle fault m) (h' : Ends cycle fault' m) :
    fault = fault' := by
  obtain ⟨n, t, hcycles, t₁, hfault⟩ := h
  obtain ⟨k, t', hcycles', t₂, hfault'⟩ := h'
  induction hcycles generalizing k with
  | zero =>
    cases hcycles' with
    | zero => exact (EStateM.Result.error.inj (hfault.symm.trans hfault')).1
    | succ hcycle _ => cases hfault.symm.trans hcycle
  | succ hcycle _ ih =>
    cases hcycles' with
    | zero => cases hfault'.symm.trans hcycle
    | succ hcycle' hrest' =>
      obtain rfl := (EStateM.Result.ok.inj (hcycle.symm.trans hcycle')).2
      exact ih hfault _ hrest'

theorem Succeeds.reaches {P Q : M → Prop} (h : Succeeds cycle m P) (hnext : ∀ t, P t → Reaches cycle t Q) :
    Reaches cycle m Q := by
  obtain ⟨t, hcycle, ht⟩ := h
  exact .step hcycle (hnext t ht)

end Cycles

/-- How groups of instructions act on views, and that machines follow. -/
class Semantics (I : Type) (R M : outParam Type) [TargetInstr I] [LabelUse I] where
  cycle : Program I → EStateM Fault M Unit
  memory : M → Memory
  /-- The machine is about to run the instruction of this index and shows the view. -/
  Stands : M → Nat → View R → Prop
  /-- The group runs through. -/
  Steps : List I → View R → View R → Prop
  /-- The group jumps to the label. -/
  Jumps : List I → View R → Label → Prop
  shows_of_stands : ∀ {m : M} {k : Nat} {v : View R}, Stands m k v → v.Shows (memory m)
  steps_label : ∀ l v, Steps [TargetInstr.label l] v v
  cycles_of_steps : ∀ {p : Program I} {base : Nat} {group : List I} {v v' : View R} {m : M},
    p.code.size ≤ codeLimit → Placed p base group → Steps group v v' → Stands m base v →
    ∃ m', Cycles (cycle p) group.length m m' ∧ Stands m' (base + group.length) v'
  cycles_of_jumps : ∀ {p : Program I} {base k : Nat} {group : List I} {v : View R} {l : Label}
    {m : M}, p.code.size ≤ codeLimit → Placed p base group → Jumps group v l →
    p.labels[l]? = some k → Stands m base v →
    ∃ n m', n ≤ group.length ∧ Cycles (cycle p) n m m' ∧ Stands m' k v

section Exec

variable {I R M : Type} [TargetInstr I] [LabelUse I] [Semantics I R M]

/-- The template runs from one view to another and leaves through the exit. -/
inductive Exec : List I → View R → Exit → View R → Prop
  | nil {v : View R} : Exec [] v .next v
  | steps {group rest : List I} {v v' v'' : View R} {x : Exit} (hsteps : Semantics.Steps group v v')
      (hrest : Exec rest v' x v'') : Exec (group ++ rest) v x v''
  | jump {group skipped rest : List I} {v v' : View R} {l : Label} {x : Exit}
      (hjumps : Semantics.Jumps group v l) (hrest : Exec rest v x v') :
      Exec (group ++ (skipped ++ TargetInstr.label l :: rest)) v x v'
  | leave {group rest : List I} {v : View R} {l : Label} (hjumps : Semantics.Jumps group v l) :
      Exec (group ++ rest) v (.goto l) v

namespace Exec

variable {code code' : List I} {v v' v'' : View R} {x : Exit} {l : Label}

theorem of_steps (h : Semantics.Steps code v v') : Exec code v .next v' := by
  have hall := steps h (Exec.nil (I := I) (v := v'))
  rwa [List.append_nil] at hall

theorem of_jumps (h : Semantics.Jumps code v l) : Exec code v (.goto l) v := by
  have hall : Exec (code ++ []) v (.goto l) v := leave h
  rwa [List.append_nil] at hall

/-- The rest of the code runs after an exit over the end. -/
theorem append (h : Exec code v .next v') (h' : Exec code' v' x v'') :
    Exec (code ++ code') v x v'' := by
  generalize hnext : Exit.next = y at h
  induction h with
  | nil => exact h'
  | steps hsteps _ ih =>
    rw [List.append_assoc]
    exact steps hsteps (ih h' hnext)
  | jump hjumps _ ih =>
    rw [List.append_assoc, List.append_assoc, List.cons_append]
    exact jump hjumps (ih h' hnext)
  | leave hjumps => cases hnext

theorem append_goto (h : Exec code v (.goto l) v') : Exec (code ++ code') v (.goto l) v' := by
  generalize hgoto : Exit.goto l = y at h
  induction h with
  | nil => cases hgoto
  | steps hsteps _ ih =>
    rw [List.append_assoc]
    exact steps hsteps (ih hgoto)
  | jump hjumps _ ih =>
    rw [List.append_assoc, List.append_assoc, List.cons_append]
    exact jump hjumps (ih hgoto)
  | leave hjumps =>
    rw [List.append_assoc]
    exact leave hjumps

theorem land (skipped : List I) (h : Exec code v (.goto l) v') (h' : Exec code' v' x v'') :
    Exec (code ++ (skipped ++ TargetInstr.label l :: code')) v x v'' := by
  generalize hgoto : Exit.goto l = y at h
  induction h with
  | nil => cases hgoto
  | steps hsteps _ ih =>
    rw [List.append_assoc]
    exact steps hsteps (ih h' hgoto)
  | jump hjumps _ ih =>
    rw [List.append_assoc, List.append_assoc, List.cons_append]
    exact jump hjumps (ih h' hgoto)
  | leave hjumps =>
    obtain rfl := Exit.goto.inj hgoto
    rw [List.append_assoc, ← List.append_assoc _ skipped]
    exact jump hjumps h'

end Exec

/-! ## In a program -/

/-- The index that an exit leads to, from a template that ends at `stop`. -/
def Exit.LeadsTo (p : Program I) (stop : Nat) : Exit → Nat → Prop
  | .next, k => k = stop
  | .goto l, k => p.labels[l]? = some k

/-- A machine follows the execution of a template that is placed where it stands. -/
theorem Exec.reaches {p : Program I} {code : List I} {v v' : View R} {x : Exit}
    (h : Exec code v x v') (hfits : p.code.size ≤ codeLimit) {base : Nat}
    (hplaced : Placed p base code) (hlabel : ∀ l, x = .goto l → ∃ k, p.labels[l]? = some k) {m : M}
    (hstands : Semantics.Stands I m base v) :
    ∃ n m' k, n ≤ code.length ∧ Cycles (Semantics.cycle p) n m m' ∧
      x.LeadsTo p (base + code.length) k ∧ Semantics.Stands I m' k v' := by
  induction h generalizing base m with
  | nil => exact ⟨0, m, base, Nat.le_refl _, .zero, rfl, hstands⟩
  | @steps group rest _ _ _ x hsteps _ ih =>
    obtain ⟨t, hgroup, ht⟩ := Semantics.cycles_of_steps hfits hplaced.front hsteps hstands
    obtain ⟨n, m', k, hn, hrest, hleads, hm'⟩ := ih hplaced.back hlabel ht
    refine ⟨group.length + n, m', k, ?_, hgroup.trans hrest, ?_, hm'⟩
    · rw [List.length_append]
      omega
    · rwa [List.length_append, ← Nat.add_assoc]
  | @jump group skipped rest _ _ l x hjumps _ ih =>
    -- the label lies behind what is skipped, and so does the rest
    have hback := hplaced.back.back
    have hat := hback.labels 0 _ l rfl (LabelUse.asLabel?_label l)
    obtain ⟨j, t, hj, hgroup, ht⟩ :=
      Semantics.cycles_of_jumps hfits hplaced.front hjumps hat hstands
    have hsplit : Placed p (base + group.length + skipped.length)
        ([TargetInstr.label l] ++ rest) := hback
    obtain ⟨u, hlabelled, hu⟩ := Semantics.cycles_of_steps hfits hsplit.front
      (Semantics.steps_label l _) ht
    obtain ⟨n, m', k, hn, hrest, hleads, hm'⟩ := ih hsplit.back hlabel hu
    have hlength : (group ++ (skipped ++ TargetInstr.label l :: rest)).length =
        group.length + skipped.length + 1 + rest.length := by
      simp only [List.length_append, List.length_cons]
      omega
    refine ⟨j + ([TargetInstr.label l] : List I).length + n, m', k, ?_,
      (hgroup.trans hlabelled).trans hrest, ?_, hm'⟩
    · rw [hlength, List.length_singleton]
      omega
    · rw [hlength]
      have hstop : base + (group.length + skipped.length + 1 + rest.length) =
          base + group.length + skipped.length + ([TargetInstr.label l] : List I).length +
            rest.length := by
        rw [List.length_singleton]
        omega
      rw [hstop]
      exact hleads
  | @leave group rest _ l hjumps =>
    obtain ⟨k, hk⟩ := hlabel l rfl
    obtain ⟨n, m', hn, hgroup, hm'⟩ :=
      Semantics.cycles_of_jumps hfits hplaced.front hjumps hk hstands
    refine ⟨n, m', k, ?_, hgroup, hk, hm'⟩
    rw [List.length_append]
    omega

end Exec

end Stencil
