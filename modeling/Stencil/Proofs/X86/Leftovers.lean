import Stencil.Proofs.Reuse.Basic
import Stencil.Proofs.X86.Invocation

/-!
# What the x86 machine keeps between invocations

An invocation sets registers, flags and the trace anew, and the program counter before the first instruction
runs. So of a machine that has run before nothing but its store matters (`invoke_start`).
-/

namespace Stencil.X86.Machine

open AddressMap Invocation Stateful

def elsewhere (pc : UInt32) (m : Machine) : Machine := { m with pc }

section Primitives

variable {pc : UInt32}

theorem get_elsewhere (r : Reg) : Ignores (elsewhere pc) (get r) := fun _ => rfl

theorem put_elsewhere (r : Reg) (value : UInt32) : Ignores (elsewhere pc) (put r value) := fun _ => rfl

theorem lift_elsewhere {α : Type} (answer : Except Fault α) : Ignores (elsewhere pc) (lift answer) := by
  intro m
  cases answer <;> rfl

theorem onStore_elsewhere {α : Type} (action : StoreM α) : Ignores (elsewhere pc) (onStore action) := by
  intro m
  unfold onStore elsewhere mapState
  dsimp only
  cases action m.store <;> rfl

theorem push_elsewhere (value : UInt32) : Ignores (elsewhere pc) (push value) :=
  .bind (get_elsewhere _) fun _ => .bind (onStore_elsewhere _) fun _ => put_elsewhere _ _

end Primitives

/-- An invocation is prepared before it is known where it starts. -/
theorem prepare_elsewhere (p : Program Instr) (entry : Symbol) (args : List StackValue) (returnBytes pc : UInt32)
    (m : Machine) :
    prepare p entry args returnBytes (m.elsewhere pc) = prepare p entry args returnBytes m ∨
      ∃ fault t, prepare p entry args returnBytes m = .error fault t ∧
        prepare p entry args returnBytes (m.elsewhere pc) = .error fault (t.elsewhere pc) := by
  let front : Run UInt32 := do
    modify fun m => { m with trace := #[], regs := Vector.replicate 8 0, flags := {} }
    put .esp stackTop
    (argumentWords args).forM push
    put .esp ((← get .esp) - returnBytes)
    push returnSentinel
    lift (p.resolve entry)
  have hfront : Ignores (elsewhere pc) front :=
    .bind (fun _ => rfl) fun _ => .bind (put_elsewhere _ _) fun _ => .bind (.forM push_elsewhere _) fun _ =>
      .bind (get_elsewhere _) fun _ => .bind (put_elsewhere _ _) fun _ => .bind (push_elsewhere _) fun _ =>
      lift_elsewhere _
  have hprepare : prepare p entry args returnBytes = front >>= goto := by
    simp only [prepare, front, bind_assoc]
  rw [hprepare]
  cases hrun : front m with
  | ok start t =>
    rw [bind_of_ok hrun, bind_of_ok (hfront.of_ok hrun)]
    exact .inl rfl
  | error fault t => exact .inr ⟨fault, t, bind_of_error hrun, bind_of_error (hfront.of_error hrun)⟩

/-- An invocation on a machine that has run before shows the same as one on a new machine with the same
store. -/
theorem invoke_start (p : Program Instr) (entry : Symbol) (args : List StackValue) (returnBytes : UInt32)
    (m : Machine) :
    Restarts ops p entry args returnBytes m := by
  show outcome ops (invoke p entry args returnBytes m) =
    outcome ops (invoke p entry args returnBytes (ops.start m.store))
  -- registers, flags and trace are set anew at once
  have hstart : prepare p entry args returnBytes (ops.start m.store) =
      prepare p entry args returnBytes (m.elsewhere returnSentinel) := rfl
  rw [invoke_eq]
  rcases prepare_elsewhere p entry args returnBytes returnSentinel m with hsame | ⟨fault, t, hfails, hfails'⟩
  · rw [bind_apply, bind_apply, hstart, hsame]
  · rw [bind_of_error hfails, bind_of_error (hstart.trans hfails')]
    rfl

end Stencil.X86.Machine
