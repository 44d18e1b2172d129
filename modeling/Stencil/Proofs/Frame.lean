import Stencil.Proofs.Walk.Regular
import Mathlib.Data.Set.Lattice

/-!
# Slots of a frame

Arguments and locals both lie downwards from a bound, each slot where the one before it begins (`Descend`).
So the slots of each kind cover their part of the frame and do not meet.
-/

namespace Stencil

/-- The bytes from `low` on that lie below `high`, counted from the frame pointer. -/
def Frame.between (low high : Int) : Set Int := {x | low ≤ x ∧ x < high}

theorem Frame.between_union {low mid high : Int} (hlow : low ≤ mid) (hhigh : mid ≤ high) :
    between low mid ∪ between mid high = between low high := by
  ext x
  simp only [between, Set.mem_union, Set.mem_ofPred_eq]
  omega

def FrameSlot.bytes (slot : FrameSlot) : Set Int :=
  Frame.between slot.offset.toInt (slot.offset.toInt + slot.item.size)

/-- The first slot ends at `high`, each other one where the one before it begins, and the last one begins at
`low`. -/
def Descend (high low : Int) : List FrameSlot → Prop
  | [] => high = low
  | slot :: rest => slot.offset.toInt + slot.item.size = high ∧ Descend slot.offset.toInt low rest

namespace Descend

variable {high low : Int} {slots : List FrameSlot}

theorem low_le_high (h : Descend high low slots) : low ≤ high := by
  induction slots generalizing high with
  | nil => exact h.ge
  | cons slot rest ih =>
    obtain ⟨hend, hrest⟩ := h
    have hle := ih hrest
    omega

theorem bounds (h : Descend high low slots) {slot : FrameSlot} (hslot : slot ∈ slots) :
    low ≤ slot.offset.toInt ∧ slot.offset.toInt + slot.item.size ≤ high := by
  induction slots generalizing high with
  | nil => cases hslot
  | cons first rest ih =>
    obtain ⟨hend, hrest⟩ := h
    have hle := hrest.low_le_high
    rcases List.mem_cons.mp hslot with rfl | hslot
    · omega
    · have hbounds := ih hrest hslot
      omega

theorem inter_of_le {slot : FrameSlot} {a b : Int}
    (h : slot.offset.toInt + slot.item.size ≤ a ∨ b ≤ slot.offset.toInt) :
    slot.bytes ∩ Frame.between a b = ∅ := by
  refine Set.eq_empty_iff_forall_notMem.mpr ?_
  rintro x ⟨⟨hfrom, hto⟩, ha, hb⟩
  omega

theorem pairwise (h : Descend high low slots) : slots.Pairwise fun a b => a.bytes ∩ b.bytes = ∅ := by
  induction slots generalizing high with
  | nil => exact .nil
  | cons slot rest ih =>
    obtain ⟨-, hrest⟩ := h
    refine List.pairwise_cons.mpr ⟨fun other hother => ?_, ih hrest⟩
    exact inter_of_le (.inr (hrest.bounds hother).2)

theorem cover (h : Descend high low slots) : ⋃ slot ∈ slots, slot.bytes = Frame.between low high := by
  induction slots generalizing high with
  | nil =>
    obtain rfl : high = low := h
    ext x
    simp only [List.not_mem_nil, Set.iUnion_of_empty, Set.iUnion_empty, Frame.between, Set.mem_ofPred_eq,
      Set.mem_empty_iff_false, false_iff]
    omega
  | cons slot rest ih =>
    obtain ⟨hend, hrest⟩ := h
    have hle := hrest.low_le_high
    have hsplit : (⋃ s ∈ slot :: rest, s.bytes) = slot.bytes ∪ ⋃ s ∈ rest, s.bytes := by
      simp [Set.iUnion_or, Set.iUnion_union_distrib]
    rw [hsplit, ih hrest, FrameSlot.bytes, hend, Set.union_comm, Frame.between_union hle (by omega)]

theorem adjacent (h : Descend high low slots) {k : Nat} {slot next : FrameSlot} (hslot : slots[k]? = some slot)
    (hnext : slots[k + 1]? = some next) : next.offset.toInt + next.item.size = slot.offset.toInt := by
  induction slots generalizing high k with
  | nil => cases hslot
  | cons first rest ih =>
    obtain ⟨-, hrest⟩ := h
    cases k with
    | succ k => exact ih hrest hslot hnext
    | zero =>
      obtain rfl := Option.some.inj hslot
      cases rest with
      | nil => cases hnext
      | cons second rest =>
        obtain rfl := Option.some.inj hnext
        exact hrest.1

theorem aligned (h : Descend high low slots) (hhigh : 4 ∣ high) (hsizes : ∀ slot ∈ slots, 4 ∣ slot.item.size)
    {slot : FrameSlot} (hslot : slot ∈ slots) : 4 ∣ slot.offset.toInt := by
  induction slots generalizing high with
  | nil => cases hslot
  | cons first rest ih =>
    obtain ⟨hend, hrest⟩ := h
    have hsize := hsizes first List.mem_cons_self
    have hfirst : 4 ∣ first.offset.toInt := by omega
    rcases List.mem_cons.mp hslot with rfl | hslot
    · exact hfirst
    · exact ih hrest hfirst (fun s hs => hsizes s (List.mem_cons_of_mem _ hs)) hslot

end Descend

namespace Frame

theorem argSlots_descend {returnBytes : Nat} {items : List StackItem} (hpositive : ∀ item ∈ items, 0 < item.size)
    (hfits : 8 + returnBytes + totalBytes items ≤ 2 ^ 31) :
    Descend (8 + returnBytes + totalBytes items) (8 + returnBytes) (argSlots returnBytes items) := by
  induction items with
  | nil => simp [argSlots, Descend, totalBytes]
  | cons item rest ih =>
    have hitem := hpositive item List.mem_cons_self
    rw [totalBytes] at hfits ⊢
    have hoffset : (returnSlot + Int32.ofNat (returnBytes + totalBytes rest)).toInt =
        8 + returnBytes + totalBytes rest := by
      rw [Int32.toInt_add, Int32.toInt_ofNat_of_lt (by omega)]
      have hslot : returnSlot.toInt = 8 := rfl
      rw [hslot, Int.bmod_eq_of_le] <;> push_cast <;> omega
    refine ⟨?_, ?_⟩
    · rw [hoffset]
      push_cast
      omega
    · rw [hoffset]
      exact ih (fun s hs => hpositive s (List.mem_cons_of_mem _ hs)) (by omega)

theorem localSlots_descend {depth : Nat} {items : List StackItem} (hfits : depth + totalBytes items < 2 ^ 31) :
    Descend (-depth) (-(depth + totalBytes items)) (localSlots depth items) := by
  induction items generalizing depth with
  | nil => simp [localSlots, Descend, totalBytes]
  | cons item rest ih =>
    rw [totalBytes] at hfits ⊢
    have hoffset : (-Int32.ofNat (depth + item.size)).toInt = -(depth + item.size) := by
      rw [Int32.toInt_neg, Int32.toInt_ofNat_of_lt (by omega), Int.bmod_eq_of_le] <;> push_cast <;> omega
    have hlast : (-(depth + (item.size + totalBytes rest : Nat)) : Int) =
        -((depth + item.size : Nat) + totalBytes rest) := by
      push_cast
      omega
    refine ⟨?_, ?_⟩
    · dsimp only
      rw [hoffset]
      omega
    · rw [hoffset, hlast]
      have hrest := @ih (depth + item.size) (by omega)
      exact_mod_cast hrest

/-- The slots of a frame: those of the locals cover the bytes below the frame pointer, those of the arguments
the bytes above the return slot, one ending where the next one begins. All are made of whole words, and
none meets what lies between: the saved frame pointer, the return address and the return slot. -/
structure Tiled (frame : Frame) : Prop where
  localsApart : frame.locals.Pairwise fun a b => a.bytes ∩ b.bytes = ∅
  localsCover : ⋃ slot ∈ frame.locals, slot.bytes = between (-frame.localBytes) 0
  argsApart : frame.args.Pairwise fun a b => a.bytes ∩ b.bytes = ∅
  argsCover : ⋃ slot ∈ frame.args, slot.bytes =
    between (8 + frame.returnBytes) (8 + frame.returnBytes + frame.argBytes)
  argsAdjacent : ∀ {k : Nat} {slot next : FrameSlot}, frame.args[k]? = some slot →
    frame.args[k + 1]? = some next → next.offset.toInt + next.item.size = slot.offset.toInt
  aligned : ∀ slot ∈ frame.args ++ frame.locals, 4 ∣ slot.offset.toInt ∧ 4 ∣ slot.item.size
  apart : ∀ slot ∈ frame.args ++ frame.locals, slot.bytes ∩ between 0 (8 + frame.returnBytes) = ∅

variable {tables : Table} {m : MethodDescriptor} {frame : Frame}

section Fits

variable (h : ofMethod tables 4 m = .ok frame)
  (hrounds : ∀ id ∈ m.params, ∀ t, tables.type? id = some t → t.Rounds)
  (hargs : frame.argSpan < 2 ^ 30) (hreturn : frame.returnBytes < 2 ^ 30) (hlocals : frame.localSpan < 2 ^ 30)

include h

theorem argBytes_eq_span (hargs : frame.argSpan < 2 ^ 30) : frame.argBytes = frame.argSpan := by
  obtain ⟨this, params, locals, hof, -⟩ := ofMethod_ok h
  rw [hof.argBytes_eq, Nat.mod_eq_of_lt (by omega)]

theorem localBytes_eq_span (hlocals : frame.localSpan < 2 ^ 30) : frame.localBytes = frame.localSpan := by
  obtain ⟨this, params, locals, hof, -⟩ := ofMethod_ok h
  rw [hof.localSpan] at hlocals ⊢
  rw [hof.localBytes, countBytes_of_lt (by omega)]

include hrounds hargs hreturn in
theorem args_descend :
    Descend (8 + frame.returnBytes + frame.argBytes) (8 + frame.returnBytes) frame.args := by
  have hbytes := argBytes_eq_span h hargs
  have hpositive := ofMethod_argSizes h (by decide) fun id hid t ht =>
    TypeDescriptor.stackItem_positive (hrounds id hid t ht)
  have hwords : 4 ∣ frame.argSpan :=
    dvd_totalBytes (List.forall_mem_map.mpr (whole_of_ofMethod h).1)
  obtain ⟨⟨items, localItems, hof⟩, -, hresult⟩ := words_of_ofMethod h
  have hitems : ∀ item ∈ items, PositiveWords item.size := by
    rw [← map_item_argSlots frame.returnBytes items, ← hof.args]
    exact List.forall_mem_map.mpr hpositive
  rw [hbytes]
  rw [hof.argSpan] at hargs hwords ⊢
  rw [hof.args]
  -- the end of the highest slot may be one past the largest offset, its start is a word below
  refine argSlots_descend (fun item hitem => (hitems item hitem).1) ?_
  omega

include hlocals in
theorem locals_descend : Descend 0 (-frame.localBytes) frame.locals := by
  rw [localBytes_eq_span h hlocals]
  obtain ⟨this, params, locals, hof, -⟩ := ofMethod_ok h
  rw [hof.localSpan] at hlocals ⊢
  rw [hof.locals]
  have hdescend := @localSlots_descend 0 locals (by omega)
  simpa using hdescend

end Fits

/-- In the frame of a method the slots lie side by side, in their own parts of the frame. The totals are less than
`2 ^ 30` bytes, and so is what each argument has of it: a type that cannot be rounded up to words has more bytes
than that by itself, although its slot has none. -/
theorem slots_tile_frame (h : ofMethod tables 4 m = .ok frame)
    (hrounds : ∀ id ∈ m.params, ∀ t, tables.type? id = some t → t.Rounds) (hargs : frame.argSpan < 2 ^ 30)
    (hreturn : frame.returnBytes < 2 ^ 30) (hlocals : frame.localSpan < 2 ^ 30) :
    frame.Tiled ∧ frame.args.length = m.argCount ∧ frame.locals.length = m.locals.length := by
  have hargsDescend := args_descend h hrounds hargs hreturn
  have hlocalsDescend := locals_descend h hlocals
  obtain ⟨hargsWhole, hlocalsWhole⟩ := whole_of_ofMethod h
  refine ⟨⟨hlocalsDescend.pairwise, hlocalsDescend.cover, hargsDescend.pairwise, hargsDescend.cover,
    hargsDescend.adjacent, ?_, ?_⟩, ?_⟩
  · intro slot hslot
    rcases List.mem_append.mp hslot with hmem | hmem
    · have hhigh : (4 : Int) ∣ 8 + frame.returnBytes + frame.argBytes := by
        have hwords : 4 ∣ frame.argSpan := dvd_totalBytes (List.forall_mem_map.mpr hargsWhole)
        obtain ⟨-, -, hresult⟩ := words_of_ofMethod h
        rw [argBytes_eq_span h hargs]
        omega
      exact ⟨hargsDescend.aligned hhigh hargsWhole hmem, hargsWhole slot hmem⟩
    · exact ⟨hlocalsDescend.aligned (dvd_zero 4) hlocalsWhole hmem, hlocalsWhole slot hmem⟩
  · intro slot hslot
    rcases List.mem_append.mp hslot with hmem | hmem
    · exact Descend.inter_of_le (.inr (hargsDescend.bounds hmem).1)
    · exact Descend.inter_of_le (.inl (hlocalsDescend.bounds hmem).2)
  · obtain ⟨this, params, locals, hof, hthis, hparams, hlocals, -⟩ := ofMethod_ok h
    have hargCount : frame.args.length = (this ++ params).length := by
      rw [← map_item_argSlots frame.returnBytes (this ++ params), ← hof.args, List.length_map]
    have hlocalCount : frame.locals.length = locals.length := by
      rw [← map_item_localSlots 0 locals, ← hof.locals, List.length_map]
    have hreceiver := congrArg List.length hthis
    rw [List.length_map] at hreceiver
    rw [hargCount, hlocalCount, List.length_append, ← hparams.length_eq, ← hlocals.length_eq, hreceiver]
    refine ⟨?_, rfl⟩
    cases hstatic : m.isStatic <;> simp [MethodDescriptor.argCount, hstatic, Nat.add_comm]

/-- A byte, two words and a structure of ten bytes, under and over the frame pointer. -/
def mixedTable : Table :=
  ((Table.addType {} (.primitive 1 "Byte" 1 false)).addType (.primitive 2 "Int64" 8 true)).addType
    (.composite 3 "Triple" 10)

def mixedMethod : MethodDescriptor :=
  { (MethodDescriptor.ofName ⟨1, Nat.one_pos⟩ 3 "mix").onInstance with
    params := [1, 3], returnType := some 2, locals := [3, 1] }

theorem slots_tile_frame_mixed :
    ∃ frame, ofMethod mixedTable 4 mixedMethod = .ok frame ∧ frame.Tiled ∧
      frame.args.map (·.offset) = [32, 28, 16] ∧ frame.locals.map (·.offset) = [-12, -16] := by
  have h : ofMethod mixedTable 4 mixedMethod = .ok {
      args := [⟨32, .nativeInt 4⟩, ⟨28, .value 4⟩, ⟨16, .value 12⟩]
      locals := [⟨-12, .value 12⟩, ⟨-16, .value 4⟩]
      returnItem := some (.value 8), argBytes := 20, localBytes := 16 } := by
    rfl
  have hrounds : mixedTable.Rounds :=
    ((Table.rounds_empty.addType (by decide)).addType (by decide)).addType (by decide)
  exact ⟨_, h, (slots_tile_frame h (fun id _ => hrounds id) (by decide) (by decide) (by decide)).1, rfl, rfl⟩

end Frame

end Stencil
