import Stencil.Proofs.Calls.Agreement
import Stencil.Proofs.Simulation.Regular
import Stencil.Walk
import Mathlib.Data.Int.ModEq

/-!
# Regular items on every stack of a walk

A walk starts with the empty stack and gets every other stack from simulations. So the items on all stacks
that it ever holds have the sizes that the simulation allows and are no floats, also when it goes on after errors
(`Walk.along_regular`).

Bytes are counted in words. So the height follows the effect modulo `2 ^ 32` (`Exchange.height`), and exactly as
long as both stacks have less than `2 ^ 32` bytes.
-/

namespace Stencil

open Stateful

/-! ## Frames -/

/-- The sizes of all types of the table can be rounded up to words. -/
def Table.Rounds (tables : Table) : Prop := ∀ id t, tables.type? id = some t → t.Rounds

theorem Table.rounds_empty : Table.Rounds {} := fun id t ht => by simp [Table.type?] at ht

theorem Table.Rounds.addType {tables : Table} (h : tables.Rounds) {t : TypeDescriptor} (ht : t.Rounds) :
    (tables.addType t).Rounds := by
  intro id t' ht'
  have hat : (tables.typeMap.insert t.id t)[id]? = some t' := ht'
  rw [Std.TreeMap.getElem?_insert] at hat
  split at hat
  · obtain rfl := Option.some.inj hat
    exact ht
  · exact h id t' hat

section Frame

variable {tables : Table} {m : MethodDescriptor} {frame : Frame} {sizes : Nat → Prop}

theorem SimEnv.allows {env : SimEnv} (hpointer : env.pointerSize = 4)
    (hframe : Frame.ofMethod tables 4 m = .ok env.frame) (hintegers : ∀ {size}, IntegerSize size → sizes size)
    (hown : ∀ id t, env.tables.type? id = some t → sizes (t.stackItem 4).size)
    (htypes : ∀ id t, tables.type? id = some t → sizes (t.stackItem 4).size) : env.Allows sizes where
  pointerSize := hpointer
  integers := hintegers
  args := ofMethod_argSizes hframe (hintegers (.inl rfl)) fun id _ => htypes id
  locals := ofMethod_localSizes hframe fun id _ => htypes id
  types := hown

theorem SimEnv.allows_words {env : SimEnv} (hpointer : env.pointerSize = 4)
    (hframe : Frame.ofMethod tables 4 m = .ok env.frame) : env.Allows (4 ∣ ·) :=
  SimEnv.allows hpointer hframe (fun h => h.positiveWords.2) (fun _ t _ => t.stackItem_size_dvd)
    fun _ t _ => t.stackItem_size_dvd

/-- Positive numbers of words are allowed if the sizes of the types can be rounded. -/
theorem SimEnv.allows_positiveWords {env : SimEnv} (hpointer : env.pointerSize = 4)
    (hframe : Frame.ofMethod tables 4 m = .ok env.frame) (hown : env.tables.Rounds) (htypes : tables.Rounds) :
    env.Allows PositiveWords :=
  SimEnv.allows hpointer hframe (fun h => h.positiveWords)
    (fun id t ht => TypeDescriptor.stackItem_positive (hown id t ht))
    fun id t ht => TypeDescriptor.stackItem_positive (htypes id t ht)

end Frame

/-! ## Walks -/

namespace Walk

/-- All stacks that the walk holds have regular items: the present one, those that wait at later positions
and those with which positions were entered. -/
structure Regular (sizes : Nat → Prop) (w : Walk) : Prop where
  stack : w.stack.Only (StackItem.Regular sizes)
  pending : ∀ (p : Nat) (stack : OperandStack), w.pending[p]? = some stack →
    stack.Only (StackItem.Regular sizes)
  entries : ∀ (p : Nat) (stack : OperandStack), w.entries[p]? = some stack →
    stack.Only (StackItem.Regular sizes)

variable {sizes : Nat → Prop}

theorem regular_start : Regular sizes {} := ⟨.nil, by simp, by simp⟩

section Maps

variable {map : Std.TreeMap Nat OperandStack} {kind : StackItem → Prop}
  (h : ∀ (p : Nat) (stack : OperandStack), map[p]? = some stack → stack.Only kind)

include h

theorem only_erase (q : Nat) (p : Nat) (stack : OperandStack) (hp : (map.erase q)[p]? = some stack) :
    stack.Only kind := by
  rw [Std.TreeMap.getElem?_erase] at hp
  split at hp
  · cases hp
  · exact h p stack hp

theorem only_insert {new : OperandStack} (hnew : new.Only kind) (q : Nat) (p : Nat) (stack : OperandStack)
    (hp : (map.insert q new)[p]? = some stack) : stack.Only kind := by
  rw [Std.TreeMap.getElem?_insert] at hp
  split at hp
  · obtain rfl := Option.some.inj hp
    exact hnew
  · exact h p stack hp

end Maps

variable {env : WalkEnv} {w : Walk}

theorem enter_regular (i : Instruction) : Maintains (Regular sizes) (enter i) := by
  refine .bind .get fun w hw => ?_
  have hpending := only_erase hw.pending i.position
  have hempty : OperandStack.Only [] (StackItem.Regular sizes) := .nil
  apply Preserves.ite
  · intro _
    apply Preserves.ite
    · intro _
      exact .set ⟨hempty, hw.pending, hw.entries⟩
    · intro _
      exact .pure trivial
  · intro _
    apply Preserves.ite
    · intro _
      have hstack : OperandStack.Only (w.pending[i.position]?.getD []) (StackItem.Regular sizes) := by
        cases hrecorded : w.pending[i.position]? with
        | none => exact hempty
        | some stack => exact hw.pending _ _ hrecorded
      exact .set ⟨hstack, hpending, only_insert hw.entries hstack _⟩
    · intro _
      have hset : Regular sizes { w with
          pending := w.pending.erase i.position, entries := w.entries.insert i.position w.stack } :=
        ⟨hw.stack, hpending, only_insert hw.entries hw.stack _⟩
      dsimp only
      split
      · exact .check fun _ => .set hset
      · exact .set hset

theorem simulateHere_regular (henv : env.Allows sizes) (i : Instruction) :
    Maintains (Regular sizes) (simulateHere env.toSimEnv i) := by
  intro w hw
  refine ⟨?_, fun _ _ _ => trivial⟩
  have hafter := (simulate_regular henv i).inv hw.stack
  cases hrun : simulate env.toSimEnv i w.stack with
  | ok e stack =>
    rw [stateAfter_of_ok hrun] at hafter
    have hstate : stateAfter (simulateHere env.toSimEnv i) w = { w with stack } := by
      simp [stateAfter, simulateHere, hrun]
    rw [hstate]
    exact ⟨hafter, hw.pending, hw.entries⟩
  | error e stack =>
    rw [stateAfter_of_error hrun] at hafter
    have hstate : stateAfter (simulateHere env.toSimEnv i) w = { w with stack } := by
      simp [stateAfter, simulateHere, hrun]
    rw [hstate]
    exact ⟨hafter, hw.pending, hw.entries⟩

theorem record_regular (i : Instruction) (target : Int) : Maintains (Regular sizes) (record env i target) := by
  refine .check fun _ => .bind (.modify fun w hw => ⟨hw.stack, hw.pending, hw.entries⟩) fun _ _ => ?_
  refine .bind .get fun w hw => ?_
  split
  · exact .ite (fun _ => .throw _) fun _ => .pure trivial
  · exact .set ⟨hw.stack, only_insert hw.pending hw.stack _, hw.entries⟩

/-- One step keeps the items on all stacks regular, also where it fails. -/
theorem step_regular (henv : env.Allows sizes) (i : Instruction) : Maintains (Regular sizes) (step env i) := by
  refine .bind (enter_regular i) fun _ _ => .bind .get fun _ _ => ?_
  refine .bind (simulateHere_regular henv i) fun effect _ => ?_
  have hend : Maintains (Regular sizes) (modify fun w => { w with unreachable := true } : WalkM PUnit) :=
    .modify fun w hw => ⟨hw.stack, hw.pending, hw.entries⟩
  cases i.targets with
  | ok targets =>
    refine .bind (.forM (fun target => record_regular i target) _) fun _ _ => .ite (fun _ => ?_) fun _ => ?_
    · exact .bind hend fun _ _ => .pure trivial
    · exact .pure trivial
  | error e =>
    intro w hw
    exact ⟨hw, fun _ _ _ => trivial⟩

/-- The walk over these instructions, which goes on after errors. -/
def along (env : WalkEnv) (instructions : List Instruction) : Walk :=
  instructions.foldl (fun w i => stateAfter (step env i) w) {}

theorem along_regular (henv : env.Allows sizes) (instructions : List Instruction) :
    (along env instructions).Regular sizes := by
  have hfold : ∀ (rest : List Instruction) (w : Walk), w.Regular sizes →
      (rest.foldl (fun w i => stateAfter (step env i) w) w).Regular sizes := by
    intro rest
    induction rest with
    | nil => exact fun _ hw => hw
    | cons i rest ih => exact fun w hw => ih _ ((step_regular henv i).inv hw)
  exact hfold instructions {} regular_start

end Walk

/-! ## Effects -/

section Heights

variable {env : SimEnv} {i : Instruction} {stack stack' : OperandStack} {e : Effect}
  (h : Exchange env i stack e stack')

include h

theorem Exchange.totalBytes :
    totalBytes stack' + totalBytes e.popped = totalBytes stack + totalBytes e.pushed := by
  obtain ⟨base, rfl, rfl⟩ := h.below
  rw [totalBytes_append, totalBytes_append, totalBytes_reverse]
  omega

/-- The height changes by what the effect says, as a word does. -/
theorem Exchange.height : (stack'.height : Int) ≡ stack.height + e.delta [ZMOD 2 ^ 32] := by
  have hbytes := h.totalBytes
  simp only [Int.ModEq, OperandStack.height, Effect.delta, Effect.pushedBytes, Effect.poppedBytes, countBytes_eq]
  omega

/-- Nothing wraps around while both stacks can be counted in a word. -/
theorem Exchange.height_of_lt (hbefore : Stencil.totalBytes stack < 2 ^ 32)
    (hafter : Stencil.totalBytes stack' < 2 ^ 32) : (stack'.height : Int) = stack.height + e.delta := by
  have hbytes := h.totalBytes
  obtain ⟨base, hstack, hstack'⟩ := h.below
  have hpopped : Stencil.totalBytes e.popped ≤ Stencil.totalBytes stack := by
    rw [hstack, totalBytes_append]
    omega
  have hpushed : Stencil.totalBytes e.pushed ≤ Stencil.totalBytes stack' := by
    rw [hstack', totalBytes_append, totalBytes_reverse]
    omega
  rw [OperandStack.height, OperandStack.height, Effect.delta, Effect.pushedBytes, Effect.poppedBytes,
    countBytes_of_lt hbefore, countBytes_of_lt hafter, countBytes_of_lt (by omega), countBytes_of_lt (by omega)]
  omega

end Heights

/-- No instruction brings an item of another size, or a float, onto a stack without them, and a walk holds
no stack with one. -/
structure SimEnv.KeepsRegular (env : SimEnv) (sizes : Nat → Prop) : Prop where
  simulated : ∀ {i : Instruction} {stack stack' : OperandStack} {e : Effect},
    simulate env i stack = .ok e stack' → stack.Only (StackItem.Regular sizes) →
    stack'.Only (StackItem.Regular sizes)
  walked : ∀ (positions : Std.TreeSet Nat) (instructions : List Instruction),
    (Walk.along { env with positions } instructions).Regular sizes

theorem SimEnv.Allows.keepsRegular {env : SimEnv} {sizes : Nat → Prop} (henv : env.Allows sizes) :
    env.KeepsRegular sizes where
  simulated {i stack stack' e} h hstack := by
    have hafter := (simulate_regular henv i).inv hstack
    rwa [stateAfter_of_ok h] at hafter
  walked positions instructions := Walk.along_regular henv instructions

/-- In the frame of a method an instruction replaces the popped items by the pushed ones. The height changes
by as much, but for what wraps around. Items of whole words stay items of whole words, and none is empty
unless a type is too large to be rounded; so a walk holds nothing else on any stack. -/
theorem effects_reported_but_for_wrapping {env : SimEnv} {tables : Table} {m : MethodDescriptor}
    (hpointer : env.pointerSize = 4) (hframe : Frame.ofMethod tables 4 m = .ok env.frame) :
    (∀ {i : Instruction} {stack stack' : OperandStack} {e : Effect}, simulate env i stack = .ok e stack' →
      (∃ base, stack = e.popped ++ base ∧ stack' = e.pushed.reverse ++ base) ∧
      (stack'.height : Int) ≡ stack.height + e.delta [ZMOD 2 ^ 32] ∧
      (totalBytes stack < 2 ^ 32 → totalBytes stack' < 2 ^ 32 →
        (stack'.height : Int) = stack.height + e.delta)) ∧
    env.KeepsRegular (4 ∣ ·) ∧ (env.tables.Rounds → tables.Rounds → env.KeepsRegular PositiveWords) := by
  refine ⟨fun h => ?_, (SimEnv.allows_words hpointer hframe).keepsRegular, fun hown htypes => ?_⟩
  · have hexchange := simulate_exchange h
    exact ⟨hexchange.below, hexchange.height, hexchange.height_of_lt⟩
  · exact (SimEnv.allows_positiveWords hpointer hframe hown htypes).keepsRegular

/-! ## A call, and what wraps around -/

def tripleMethod : MethodDescriptor :=
  { MethodDescriptor.ofName ⟨1, by decide⟩ 2 "triple" with params := [2, 1], returnType := some 2 }

def tripleTable : Table :=
  ((Table.addType {} (.primitive 1 "Int64" 8 true)).addType (.composite 2 "Triple" 10)).addMethod tripleMethod

def tripleEnv : SimEnv where
  tables := tripleTable
  frame := {
    args := [⟨28, .value 12⟩, ⟨20, .int64⟩], locals := [], returnItem := some (.value 12)
    argBytes := 20, localBytes := 0 }
  pointerSize := 4

def callTriple : Instruction :=
  { Instruction.placed 4 .call [0, 0, 0, 0] with methodRef := some tripleMethod.id }

/-- A call with two arguments above an integer, and a walk that goes on after an addition of structures. -/
theorem effects_reported_but_for_wrapping_call :
    Frame.ofMethod tripleTable 4 tripleMethod = .ok tripleEnv.frame ∧
    (∃ e stack', simulate tripleEnv callTriple [.int64, .value 12, .int32] = .ok e stack' ∧
      (∃ base, [.int64, .value 12, .int32] = e.popped ++ base ∧ stack' = e.pushed.reverse ++ base) ∧
      (stack'.height : Int) = OperandStack.height [.int64, .value 12, .int32] + e.delta ∧
      stack'.Only (StackItem.Regular PositiveWords)) ∧
    (Walk.along { tripleEnv with positions := ∅ } [.placed 0 .ldarg0 [], .placed 1 .dup [], .placed 2 .add [],
      .placed 3 .ldarg1 [], callTriple]).Regular PositiveWords := by
  have hframe : Frame.ofMethod tripleTable 4 tripleMethod = .ok tripleEnv.frame := by rfl
  have hcall : simulate tripleEnv callTriple [.int64, .value 12, .int32] =
      .ok { popped := [.int64, .value 12], pushed := [.value 12] } [.value 12, .int32] := by rfl
  have hrounds : tripleTable.Rounds := (Table.rounds_empty.addType (by decide)).addType (by decide)
  obtain ⟨hreported, -, hregular⟩ := @effects_reported_but_for_wrapping tripleEnv tripleTable tripleMethod rfl hframe
  have hkeeps := hregular hrounds hrounds
  have hstack : OperandStack.Only [.int64, .value 12, .int32] (StackItem.Regular PositiveWords) := by
    rintro item hitem
    simp only [List.mem_cons, List.not_mem_nil, or_false] at hitem
    rcases hitem with rfl | rfl | rfl <;> exact ⟨by decide, rfl⟩
  obtain ⟨hbase, -, hexact⟩ := hreported hcall
  exact ⟨hframe, ⟨_, _, hcall, hbase, hexact (by decide) (by decide), hkeeps.simulated hcall hstack⟩,
    hkeeps.walked ∅ _⟩

def hugeType : TypeDescriptor := .composite 1 "Huge" 0xFFFFFFFD

def hugeField : FieldDescriptor := .ofStatic 1 "huge" 1 1

def hugeEnv : SimEnv where
  tables := (Table.addType {} hugeType).addField hugeField
  frame := { args := [], locals := [], returnItem := none, argBytes := 0, localBytes := 0 }
  pointerSize := 4

/-- The height of two values of `2 ^ 31` bytes is zero, although the copy has added `2 ^ 31`. A value of
`2 ^ 32 - 3` bytes takes no words. -/
theorem effects_wrap_around :
    (∃ stack stack' e, OperandStack.Only stack (StackItem.Regular PositiveWords) ∧
      simulate hugeEnv (.placed 0 .dup []) stack = .ok e stack' ∧
      (stack'.height : Int) ≠ stack.height + e.delta) ∧
    ∃ stack' e, simulate hugeEnv { Instruction.placed 0 .ldsfld [0, 0, 0, 0] with fieldRef := some hugeField.id } [] =
        .ok e stack' ∧ ¬stack'.Only (StackItem.Regular PositiveWords) := by
  constructor
  · refine ⟨[.value (2 ^ 31)], [.value (2 ^ 31), .value (2 ^ 31)], { pushed := [.value (2 ^ 31)] }, ?_, rfl, by decide⟩
    exact OperandStack.Only.cons_iff.mpr ⟨⟨⟨by decide, by decide⟩, rfl⟩, .nil⟩
  · refine ⟨[.value 0], { pushed := [.value 0] }, by rfl, fun honly => ?_⟩
    exact absurd (honly _ List.mem_cons_self).size.1 (Nat.lt_irrefl 0)

end Stencil
