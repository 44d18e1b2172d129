import Stencil.Machine.Invocation
import Stencil.Proofs.Access.Footprint
import Stencil.Proofs.Machine.Placement
import Stencil.Proofs.Stateful

/-!
# Invocations one after another

What an invocation shows to its caller (`outcome`), and what it means that a machine which has run before
shows the same as a new one (`Restarts`). Control may come to a span at its first instruction, from inside, or
where a call that it made returns to (`EntersSpans`). What a machine keeps makes no difference to a program
that `Ignores` it.
-/

namespace Stencil

open AddressMap Link Stateful

/-! ## Changes that make no difference -/

section Ignores

variable {M α β : Type}

/-- The program does not look at what `f` changes, and leaves it alone. -/
def Ignores (f : M → M) (x : EStateM Fault M α) : Prop := ∀ m, x (f m) = mapState f (x m)

namespace Ignores

variable {f : M → M} {x y : EStateM Fault M α} {m t : M}

theorem of_ok (h : Ignores f x) {a : α} (hx : x m = .ok a t) : x (f m) = .ok a (f t) := by
  rw [h m, hx]
  rfl

theorem of_error (h : Ignores f x) {fault : Fault} (hx : x m = .error fault t) : x (f m) = .error fault (f t) := by
  rw [h m, hx]
  rfl

theorem pure (a : α) : Ignores f (pure a : EStateM Fault M α) := fun _ => rfl

theorem throw (fault : Fault) : Ignores f (throw fault : EStateM Fault M α) := fun _ => rfl

theorem modify {g : M → M} (h : ∀ m, g (f m) = f (g m)) : Ignores f (modify g : EStateM Fault M PUnit) := by
  intro m
  rw [modify_apply, modify_apply, h m]
  rfl

theorem bind {g : α → EStateM Fault M β} (hx : Ignores f x) (hg : ∀ a, Ignores f (g a)) :
    Ignores f (x >>= g) := by
  intro m
  cases h : x m with
  | ok a t => rw [bind_of_ok h, bind_of_ok (hx.of_ok h), hg a t]
  | error fault t =>
    rw [bind_of_error h, bind_of_error (hx.of_error h)]
    rfl

theorem ite {p : Prop} [Decidable p] (hx : Ignores f x) (hy : Ignores f y) : Ignores f (if p then x else y) := by
  split
  · exact hx
  · exact hy

theorem forM {g : α → EStateM Fault M PUnit} (hg : ∀ a, Ignores f (g a)) (as : List α) :
    Ignores f (as.forM g) := by
  induction as with
  | nil => exact .pure _
  | cons a as ih => exact .bind (hg a) fun _ => ih

theorem mapM {g : α → EStateM Fault M β} (hg : ∀ a, Ignores f (g a)) (as : List α) : Ignores f (as.mapM g) := by
  induction as with
  | nil => exact .pure _
  | cons a as ih =>
    rw [List.mapM_cons]
    exact .bind (hg a) fun _ => .bind ih fun _ => .pure _

end Ignores

end Ignores

/-! ## Outcomes -/

/-- What an invocation shows: a value or a fault, the instructions that ran, and the store it leaves. -/
structure Outcome where
  answer : Except Fault (List UInt32)
  trace : Array TraceEntry
  store : Store

def outcome {I M : Type} (machine : MachineOps I M) : EStateM.Result Fault M (List UInt32) → Outcome
  | .ok value m => { answer := .ok value, trace := machine.trace m, store := machine.store m }
  | .error fault m => { answer := .error fault, trace := machine.trace m, store := machine.store m }

/-! ## Spans -/

section Together

variable {I : Type} [TargetInstr I] {backend : Backend I} {tables : Table} {options : Options}
  {methods : List (CompiledMethod I)} {config : RunConfig} {p : Program I}

/-- Both indices lie in one span. -/
def Together (methods : List (CompiledMethod I)) (j k : Nat) : Prop :=
  ∃ base span, SpanAt methods base span ∧ span.HoldsAt base j ∧ span.HoldsAt base k

variable {j k l : Nat}

variable (hcompiled : ∀ m ∈ methods, ∃ body, compileMethod backend tables options body = .ok m)

include hcompiled

theorem Together.trans (h : Together methods j k) (h' : Together methods k l) : Together methods j l := by
  obtain ⟨base, span, hspan, hj, hk⟩ := h
  obtain ⟨base', span', hspan', hk', hl⟩ := h'
  obtain ⟨rfl, rfl⟩ := hspan.unique hcompiled hspan' hk hk'
  exact ⟨base, span, hspan, hj, hl⟩

theorem Together.lt (hlinked : Linked methods tables options config p) (h : Together methods j k) :
    j < p.code.size := by
  obtain ⟨base, span, hspan, hj, -⟩ := h
  exact hspan.lt_size hcompiled hlinked hj

end Together

/-! ## Control -/

section Control

variable {I : Type} (methods : List (CompiledMethod I)) (p : Program I) (calls : I → Bool) (slots : Nat)

/-- Control comes to a span at its first instruction, from inside the span, or back from a call that it made;
behind a call there are `slots` instructions that run before it. -/
def EntersSpans (ran : List TraceEntry) : Prop :=
  ∀ before entry after, ran = before ++ entry :: after →
    ∀ base span, SpanAt methods base span → span.HoldsAt base entry.index →
      entry.index = base + span.start ∨
      (∃ last, before.getLast? = some last ∧ span.HoldsAt base last.index) ∨
      ∃ call ∈ before, ∃ instr, span.HoldsAt base call.index ∧ p.code[call.index]? = some instr ∧
        calls instr = true ∧ entry.index = call.index + slots + 1

end Control

/-- The invocation shows the same on a machine that has run before as on a new one with the same store. -/
def Restarts {I M : Type} (machine : MachineOps I M) (p : Program I) (entry : Symbol) (args : List StackValue)
    (returnBytes : UInt32) (used : M) : Prop :=
  outcome machine (machine.invoke p entry args returnBytes used) =
    outcome machine (machine.invoke p entry args returnBytes (machine.start (machine.store used)))

end Stencil
