import Stencil.Proofs.Execution.Block
import Stencil.Frame
import Mathlib.Data.List.Forall2

/-!
# Frames in the stack

The words of a frame, from the operand stack up: the locals, the saved frame pointer, the return address,
the return slot and the arguments. Each argument and local lies at the offset of its slot
(`lies_argument`, `lies_local`).
-/

namespace Stencil

/-! ## Values that were pushed -/

/-- The values have the sizes of the items. -/
def Fill (items : List StackItem) (values : List (List UInt32)) : Prop :=
  List.Forall₂ (fun item value => item.size = 4 * value.length) items values

/-- The words of values that were pushed in order, so that the last one lies lowest. -/
def pushedWords (values : List (List UInt32)) : List UInt32 := values.reverse.flatten

@[simp] theorem pushedWords_nil : pushedWords [] = [] := rfl

@[simp] theorem pushedWords_cons (value : List UInt32) (values : List (List UInt32)) :
    pushedWords (value :: values) = pushedWords values ++ value := by
  simp [pushedWords]

theorem Fill.totalBytes {items : List StackItem} {values : List (List UInt32)} (h : Fill items values) :
    totalBytes items = 4 * (pushedWords values).length := by
  induction h with
  | nil => rfl
  | cons hsize _ ih =>
    rw [Stencil.totalBytes, pushedWords_cons, List.length_append, ih, hsize]
    omega

theorem ofNat_four_mul (n : Nat) : UInt32.ofNat (4 * n) = 4 * UInt32.ofNat n := UInt32.ofNat_mul 4 n

/-! ## Values at an offset from the frame pointer -/

/-- A value lies among the words, at an offset from the frame pointer. -/
structure Lies (words : List UInt32) (fp : UInt32) (offset : Int32) (front value rest : List UInt32) :
    Prop where
  words : words = front ++ (value ++ rest)
  address : fp + offset.toUInt32 = stackPointer (value ++ rest)

namespace Lies

variable {words front value rest : List UInt32} {fp : UInt32} {offset : Int32}

theorem below (h : Lies words fp offset front value rest) (more : List UInt32) :
    Lies (more ++ words) fp offset (more ++ front) value rest :=
  ⟨by rw [h.words, List.append_assoc], h.address⟩

theorem word (h : Lies words fp offset front value rest) {before after : List UInt32} {w : UInt32}
    (hvalue : value = before ++ w :: after) :
    words = front ++ before ++ w :: (after ++ rest) ∧
      fp + (offset + Int32.ofNat (4 * before.length)).toUInt32 = wordAddress (after ++ rest).length := by
  constructor
  · rw [h.words, hvalue]
    simp only [List.append_assoc, List.cons_append]
  · have hpointer := stackPointer_append before (w :: after ++ rest)
    rw [List.cons_append, stackPointer_cons] at hpointer
    rw [← hpointer, Int32.toUInt32_add, ← UInt32.add_assoc, h.address, hvalue, List.append_assoc,
      List.cons_append]
    exact congrArg _ (ofNat_four_mul _)

/-- While the value is pushed, high word first: the next word and its address. -/
theorem push_step (h : Lies words fp offset front value rest) {k : Nat} (hk : k < value.length) :
    ∃ gap tail, value.drop (k + 1) ++ words = gap ++ value[k] :: tail ∧
      value.drop k ++ words = value[k] :: (value.drop (k + 1) ++ words) ∧
      fp + (offset + Int32.ofNat (4 * k)).toUInt32 = wordAddress tail.length := by
  have hvalue : value = value.take k ++ value[k] :: value.drop (k + 1) := by simp
  have htake : (value.take k).length = k := List.length_take_of_le (by omega)
  obtain ⟨hwords, haddress⟩ := (h.below (value.drop (k + 1))).word hvalue
  rw [htake] at haddress
  exact ⟨_, _, hwords, by rw [List.drop_eq_getElem_cons hk, List.cons_append], haddress⟩

/-- The stack while a value is popped into a place, low word first: words that were popped replace those
at the start of the place. -/
def popping (front old rest value : List UInt32) (k : Nat) : List UInt32 :=
  value.drop k ++ (front ++ ((value.take k ++ old.drop k) ++ rest))

theorem pop_step {old : List UInt32} (h : Lies words fp offset front old rest)
    (hlength : value.length = old.length) {k : Nat} (hk : k < value.length) :
    ∃ gap w tail, popping front old rest value k = value[k] :: (gap ++ w :: tail) ∧
      popping front old rest value (k + 1) = gap ++ value[k] :: tail ∧
      fp + (offset + Int32.ofNat (4 * k)).toUInt32 = wordAddress tail.length := by
  have htake : (value.take k).length = k := List.length_take_of_le (by omega)
  have hold : old.drop k = old[k] :: old.drop (k + 1) := List.drop_eq_getElem_cons (by omega)
  have hplace : Lies (front ++ ((value.take k ++ old.drop k) ++ rest)) fp offset front
      (value.take k ++ old.drop k) rest := by
    refine ⟨rfl, ?_⟩
    rw [h.address, stackPointer, stackPointer, List.length_append, List.length_append,
      List.length_append, htake, List.length_drop]
    congr 3
    omega
  obtain ⟨-, haddress⟩ := hplace.word (by rw [hold])
  rw [htake] at haddress
  refine ⟨value.drop (k + 1) ++ (front ++ value.take k), old[k], old.drop (k + 1) ++ rest, ?_, ?_,
    haddress⟩
  · rw [popping, List.drop_eq_getElem_cons hk, hold]
    simp only [List.append_assoc, List.cons_append]
  · rw [popping, List.take_succ_eq_append_getElem hk]
    simp only [List.append_assoc, List.cons_append, List.nil_append]

theorem popping_zero {old : List UInt32} (h : Lies words fp offset front old rest) :
    popping front old rest value 0 = value ++ words := by
  rw [popping, List.drop_zero, List.take_zero, List.drop_zero, List.nil_append, h.words]

theorem popping_length {old : List UInt32} (hlength : value.length = old.length) :
    popping front old rest value value.length = front ++ (value ++ rest) := by
  rw [popping, List.drop_length, List.nil_append, List.take_length, hlength, List.drop_length,
    List.append_nil]

end Lies

theorem stackPointer_of_length {words words' : List UInt32} (h : words.length = words'.length) :
    stackPointer words = stackPointer words' := by
  rw [stackPointer, stackPointer, h]

/-! ## Results that move up -/

theorem stackPointer_word (front : List UInt32) (w : UInt32) (rest : List UInt32) :
    stackPointer (front ++ w :: rest) + 4 * UInt32.ofNat front.length = wordAddress rest.length := by
  rw [stackPointer_append, stackPointer_cons]

theorem Memory.Holds.read_word {memory : Memory} {front rest : List UInt32} {w : UInt32}
    (h : memory.Holds (front ++ w :: rest)) :
    memory.read (stackPointer (front ++ w :: rest) + 4 * UInt32.ofNat front.length) 4 = .ok w := by
  rw [stackPointer_word]
  exact h.read

/-- The stack while a result is copied up over the arguments below it, high word first: the words from
the `k`-th on are in their new place. -/
def sliding (value args deep : List UInt32) (k : Nat) : List UInt32 :=
  (value ++ args).take (args.length + k) ++ (value.drop k ++ deep)

section Sliding

variable (value args deep : List UInt32)

theorem sliding_length : sliding value args deep value.length = value ++ (args ++ deep) := by
  rw [sliding, List.take_of_length_le (by rw [List.length_append]; omega), List.drop_length,
    List.nil_append, List.append_assoc]

theorem sliding_zero :
    sliding value args deep 0 = (value ++ args).take args.length ++ (value ++ deep) := by
  rw [sliding, Nat.add_zero, List.drop_zero]

variable {value}

/-- The next word to copy is still in its old place. -/
theorem sliding_read {k : Nat} (hk : k < value.length) :
    ∃ front tail, sliding value args deep (k + 1) = front ++ value[k] :: tail ∧ front.length = k := by
  have hlt : k < ((value ++ args).take (args.length + (k + 1))).length := by
    rw [List.length_take, List.length_append]
    omega
  have hword : ((value ++ args).take (args.length + (k + 1)))[k] = value[k] := by
    rw [List.getElem_take, List.getElem_append_left hk]
  refine ⟨((value ++ args).take (args.length + (k + 1))).take k,
    ((value ++ args).take (args.length + (k + 1))).drop (k + 1) ++ (value.drop (k + 1) ++ deep), ?_,
    List.length_take_of_le (by omega)⟩
  rw [← hword, ← List.cons_append, List.getElem_cons_drop, ← List.append_assoc (List.take k _),
    List.take_append_drop, sliding]

/-- Its new place is the last one that is not taken yet. -/
theorem sliding_write {k : Nat} (hk : k < value.length) :
    ∃ gap w tail, sliding value args deep (k + 1) = gap ++ w :: tail ∧
      sliding value args deep k = gap ++ value[k] :: tail ∧ gap.length = args.length + k := by
  have hlt : args.length + k < (value ++ args).length := by
    rw [List.length_append]
    omega
  refine ⟨(value ++ args).take (args.length + k), (value ++ args)[args.length + k],
    value.drop (k + 1) ++ deep, ?_, ?_, List.length_take_of_le (by omega)⟩
  · rw [sliding, ← Nat.add_assoc, List.take_succ_eq_append_getElem hlt, List.append_assoc,
      List.singleton_append]
  · rw [sliding, List.drop_eq_getElem_cons hk, List.cons_append]

end Sliding

/-! ## The words of a frame -/

/-- What lies from the frame pointer up: the saved frame pointer, the return address, the return slot,
the arguments, and what is deeper. -/
def frameWords (saved back : UInt32) (slot : List UInt32) (args : List (List UInt32))
    (deep : List UInt32) : List UInt32 :=
  saved :: back :: (slot ++ (pushedWords args ++ deep))

theorem frameWords_cons (saved back : UInt32) (slot : List UInt32) (arg : List UInt32)
    (args : List (List UInt32)) (deep : List UInt32) :
    frameWords saved back slot (arg :: args) deep = frameWords saved back slot args (arg ++ deep) := by
  rw [frameWords, frameWords, pushedWords_cons, List.append_assoc]

theorem lies_returnSlot (own : List UInt32) (saved back : UInt32) (slot rest : List UInt32) :
    Lies (own ++ saved :: back :: (slot ++ rest)) (stackPointer (saved :: back :: (slot ++ rest)))
      Frame.returnSlot (own ++ [saved, back]) slot rest where
  words := by simp only [List.append_assoc, List.cons_append, List.nil_append]
  address := stackPointer_append [saved, back] (slot ++ rest)

/-- How a result gets from a return to the end of the method: up to two words in registers, a larger one
in the return slot. -/
def Carries (low high : UInt32) (value slot : List UInt32) : Prop :=
  match value with
  | [] => True
  | [w] => low = w
  | [w, w'] => low = w ∧ high = w'
  | _ => slot = value

section Slots

variable {items : List StackItem} {saved back : UInt32} {slot deep : List UInt32}

theorem lies_argument {args : List (List UInt32)} (hfill : Fill items args) {index : Nat}
    {place : FrameSlot} (hplace : (Frame.argSlots (4 * slot.length) items)[index]? = some place) :
    ∃ value front rest, args[index]? = some value ∧ place.item.size = 4 * value.length ∧
      Lies (frameWords saved back slot args deep) (stackPointer (frameWords saved back slot args deep))
        place.offset front value rest ∧
      ∀ value', frameWords saved back slot (args.set index value') deep =
        front ++ (value' ++ rest) := by
  induction hfill generalizing index deep with
  | nil => cases hplace
  | @cons item value items args hsize hrest ih =>
    rw [frameWords_cons]
    cases index with
    | zero =>
      obtain rfl := Option.some.inj hplace
      have hwords : ∀ value' : List UInt32, frameWords saved back slot args (value' ++ deep) =
          (saved :: back :: (slot ++ pushedWords args)) ++ (value' ++ deep) := by
        intro value'
        simp [frameWords]
      refine ⟨value, saved :: back :: (slot ++ pushedWords args), deep, rfl, hsize, ⟨hwords value, ?_⟩,
        fun value' => ?_⟩
      · rw [hwords, ← stackPointer_append (saved :: back :: (slot ++ pushedWords args)) (value ++ deep)]
        congr 1
        rw [Fill.totalBytes hrest, Int32.toUInt32_add]
        show UInt32.ofNat 8 + UInt32.ofNat (4 * slot.length + 4 * (pushedWords args).length) = _
        rw [List.length_cons, List.length_cons, List.length_append, ← ofNat_four_mul, ← UInt32.ofNat_add]
        congr 1
        omega
      · rw [List.set_cons_zero, frameWords_cons, hwords]
    | succ index =>
      obtain ⟨value', front, rest, hget, hsize', hlies, hset⟩ := @ih (value ++ deep) index hplace
      refine ⟨value', front, rest, hget, hsize', hlies, fun value'' => ?_⟩
      rw [List.set_cons_succ, frameWords_cons, hset]

theorem lies_local {locals : List (List UInt32)} (hfill : Fill items locals) {above : List UInt32}
    {fp : UInt32} {depth index : Nat} (hfp : stackPointer above + UInt32.ofNat depth = fp)
    {place : FrameSlot} (hplace : (Frame.localSlots depth items)[index]? = some place) :
    ∃ value front rest, locals[index]? = some value ∧ place.item.size = 4 * value.length ∧
      Lies (pushedWords locals ++ above) fp place.offset front value rest ∧
      ∀ value', pushedWords (locals.set index value') ++ above = front ++ (value' ++ rest) := by
  induction hfill generalizing index above depth with
  | nil => cases hplace
  | @cons item value items locals hsize hrest ih =>
    rw [pushedWords_cons, List.append_assoc]
    cases index with
    | zero =>
      obtain rfl := Option.some.inj hplace
      refine ⟨value, pushedWords locals, above, rfl, hsize, ⟨rfl, ?_⟩, fun value' => ?_⟩
      · rw [← hfp, ← stackPointer_append value above, hsize, Int32.toUInt32_neg]
        show _ + -UInt32.ofNat (depth + 4 * value.length) = _
        rw [UInt32.ofNat_add, ofNat_four_mul]
        grind
      · rw [List.set_cons_zero, pushedWords_cons, List.append_assoc]
    | succ index =>
      have hfp' : stackPointer (value ++ above) + UInt32.ofNat (depth + item.size) = fp := by
        rw [← hfp, ← stackPointer_append value above, hsize, UInt32.ofNat_add, ofNat_four_mul]
        grind
      obtain ⟨value', front, rest, hget, hsize', hlies, hset⟩ := ih hfp' hplace
      refine ⟨value', front, rest, hget, hsize', hlies, fun value'' => ?_⟩
      rw [List.set_cons_succ, pushedWords_cons, List.append_assoc, hset]

end Slots

end Stencil
