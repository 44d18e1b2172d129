import Stencil.Proofs.Running.Invocation
import Stencil.Proofs.Walk.Regular
import Stencil.Proofs.Walk.Soundness

/-!
# Operands of whole words

Types of any size take whole words on the operand stack, so every operand that a compilation meets takes
whole words (`Compilation.operands_whole`), and the slots of its frame are word-aligned
(`ofMethod_slots`).
-/

namespace Stencil

open Stateful

def StackItem.Whole (item : StackItem) : Prop := 4 ∣ item.size

/-! ## Compilations -/

theorem four_dvd_toInt_ofInt {n : Int} (h : 4 ∣ n) : 4 ∣ (Int32.ofInt n).toInt := by
  have hmod : n.bmod Int32.size % 4294967296 = n % 4294967296 := Int.bmod_emod
  rw [Int32.toInt_ofInt]
  omega

theorem argSlots_offsets {returnBytes : Nat} {items : List StackItem} (hreturn : 4 ∣ returnBytes)
    (h : ∀ item ∈ items, item.Whole) : ∀ slot ∈ Frame.argSlots returnBytes items, 4 ∣ slot.offset.toInt := by
  induction items with
  | nil => exact fun slot hslot => absurd hslot List.not_mem_nil
  | cons item items ih =>
    rw [List.forall_mem_cons] at h
    have hoffset : Frame.returnSlot + Int32.ofNat (returnBytes + totalBytes items) =
        Int32.ofInt (8 + (returnBytes + totalBytes items : Nat)) := by
      rw [Int32.ofInt_add, Int32.ofInt_eq_ofNat]
      rfl
    have hbytes := dvd_totalBytes h.2
    rw [Frame.argSlots, List.forall_mem_cons]
    refine ⟨?_, ih h.2⟩
    rw [hoffset]
    exact four_dvd_toInt_ofInt (by omega)

theorem localSlots_offsets {depth : Nat} {items : List StackItem} (hdepth : 4 ∣ depth)
    (h : ∀ item ∈ items, item.Whole) : ∀ slot ∈ Frame.localSlots depth items, 4 ∣ slot.offset.toInt := by
  induction items generalizing depth with
  | nil => exact fun slot hslot => absurd hslot List.not_mem_nil
  | cons item items ih =>
    rw [List.forall_mem_cons] at h
    have hsize : 4 ∣ depth + item.size := Nat.dvd_add hdepth h.1
    have hoffset : -Int32.ofNat (depth + item.size) = Int32.ofInt (-(depth + item.size : Nat)) := by
      rw [Int32.ofInt_neg, Int32.ofInt_eq_ofNat]
    rw [Frame.localSlots, List.forall_mem_cons]
    refine ⟨?_, ih hsize h.2⟩
    rw [hoffset]
    exact four_dvd_toInt_ofInt (by omega)

/-- The slots of a frame take whole words and are word-aligned. -/
theorem ofMethod_slots {tables : Table} {method : MethodDescriptor} {frame : Frame}
    (h : Frame.ofMethod tables 4 method = .ok frame) (isArg : Bool) :
    ∀ slot ∈ (if isArg then frame.args else frame.locals), slot.item.Whole ∧ 4 ∣ slot.offset.toInt := by
  obtain ⟨hargs, hlocals, hreturn⟩ := ofMethod_sizes h
  obtain ⟨this, params, locals, hof, -⟩ := ofMethod_ok h
  have hwhole : ∀ {slots : List FrameSlot}, (∀ slot ∈ slots, slot.item.size % 4 = 0) →
      ∀ item ∈ slots.map FrameSlot.item, item.Whole := fun hsizes item hitem => by
    obtain ⟨slot, hslot, rfl⟩ := List.mem_map.mp hitem
    exact Nat.dvd_of_mod_eq_zero (hsizes slot hslot)
  cases isArg with
  | true =>
    have hoffsets := argSlots_offsets (Nat.dvd_of_mod_eq_zero hreturn) (hwhole hargs)
    rw [hof.args, map_item_argSlots, ← hof.args] at hoffsets
    exact fun slot hslot => ⟨Nat.dvd_of_mod_eq_zero (hargs slot hslot), hoffsets slot hslot⟩
  | false =>
    have hoffsets := localSlots_offsets (Nat.dvd_zero 4) (hwhole hlocals)
    rw [hof.locals, map_item_localSlots, ← hof.locals] at hoffsets
    exact fun slot hslot => ⟨Nat.dvd_of_mod_eq_zero (hlocals slot hslot), hoffsets slot hslot⟩

section Compilation

variable {I : Type} [TargetInstr I] {backend : Backend I} {tables : Table} {options : Options}
  {body : MethodBody} {m : CompiledMethod I} (c : Compilation backend tables options body m)

/-- Every instruction is compiled for operands of whole words. -/
theorem Compilation.operands_whole {pair : Instruction × WalkStep} (hpair : pair ∈ c.marked.zip c.steps) :
    (∀ item ∈ pair.2.effect.popped, item.Whole) ∧ ∀ item ∈ pair.2.effect.pushed, item.Whole := by
  have hpointer := c.pointerSize_eq
  have hframe := c.framed
  rw [hpointer] at hframe
  obtain ⟨k, hk⟩ := List.mem_iff_getElem?.mp hpair
  obtain ⟨hi, hstep⟩ := List.getElem?_zip_eq_some.mp hk
  obtain ⟨targets, step, w, u, w', hvisit⟩ := Walk.visit_of_getElem? c.rewalked hi
  obtain rfl : step = pair.2 := Option.some.inj (hvisit.reported.symm.trans hstep)
  have henv : c.env.Allows (4 ∣ ·) := SimEnv.allows_words hpointer hframe
  have hkeeps : ∀ {i : Instruction}, KeepsKind c.env (StackItem.Regular (4 ∣ ·)) i := by
    intro i stack stack' e h
    exact henv.keepsRegular.simulated h
  have hstack : u.stack.Only (StackItem.Regular (4 ∣ ·)) := hvisit.only fun i _ => hkeeps
  have hstack' := hkeeps hvisit.stepped.simulate hstack
  obtain ⟨rest, hbefore, hafter⟩ := (simulate_exchange hvisit.stepped.simulate).below
  rw [hbefore, OperandStack.Only.append_iff] at hstack
  rw [hafter, OperandStack.Only.append_iff] at hstack'
  constructor
  · intro item hitem
    exact (hstack.1 item hitem).size
  · intro item hitem
    exact (hstack'.1 item (List.mem_reverse.mpr hitem)).size

end Compilation

end Stencil
