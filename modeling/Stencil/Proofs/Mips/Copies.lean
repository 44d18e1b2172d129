import Stencil.Proofs.Access.Copies
import Stencil.Proofs.Mips.Touch
import Stencil.Mips.Transfer

/-!
# Values between memory and the stack on MIPS32

A value of any size is pushed as the words it spells and popped into exactly its bytes, at every address
that is aligned as the code counts on. One access and byte by byte come to the same.
-/

namespace Stencil.Mips

open AddressMap

/-- Where a value lies for the code: at an address from a register that the code leaves alone, aligned
as the code counts on. -/
structure Located (base : Reg) (offset : Int32) (align : Nat) (s : Snapshot Reg) (a : UInt32) : Prop where
  steady : base ∉ [Reg.sp, .t6, .t7]
  place : s.regs base + offset.toUInt32 = a
  known : align ∈ [1, 2, 4]
  aligned : a.toNat % align = 0

namespace Located

variable {base : Reg} {offset : Int32} {align : Nat} {s t : Snapshot Reg} {a : UInt32}

theorem add (h : Located base offset align s a) (n : Nat) :
    s.regs base + (offset + Int32.ofNat n).toUInt32 = a + UInt32.ofNat n := by
  rw [Int32.toUInt32_add, ← UInt32.add_assoc, h.place]
  rfl

theorem word (h : Located base offset align s a) (k : Nat) (hfits : a.toNat + 4 * k < 0x100000000) :
    Located base (offset + Int32.ofNat (4 * k)) align s (a + UInt32.ofNat (4 * k)) := by
  refine ⟨h.steady, h.add _, h.known, ?_⟩
  have haligned := h.aligned
  rw [toNat_add_ofNat hfits]
  obtain rfl | rfl | rfl : align = 1 ∨ align = 2 ∨ align = 4 := by simpa using h.known
  all_goals omega

theorem congr (h : Located base offset align s a) (hregs : t.regs base = s.regs base) :
    Located base offset align t a := ⟨h.steady, by rw [hregs, h.place], h.known, h.aligned⟩

theorem whole (h : Located base offset align s a) {bytes : Nat} {width : Width}
    (hwidth : wholeWidth? bytes align = some width) : width.bytes = bytes ∧ a.toNat % width.bytes = 0 := by
  have haligned := h.aligned
  unfold wholeWidth? at hwidth
  split at hwidth
  · rename_i hle
    have hbytes : width.bytes = bytes := by
      unfold Width.ofBytes? at hwidth
      split at hwidth <;> cases hwidth <;> rfl
    refine ⟨hbytes, ?_⟩
    obtain rfl | rfl | rfl : align = 1 ∨ align = 2 ∨ align = 4 := by simpa using h.known
    all_goals cases width <;> simp only [Width.bytes] at hbytes ⊢ <;> omega
  · cases hwidth

end Located

theorem shiftBy_sll (w : UInt32) {n : UInt32} (hn : n.toNat < 32) :
    shiftBy .sll w n = UInt32.ofNat (w.toNat * 2 ^ n.toNat) := by
  show w <<< (n % 32) = _
  rw [← UInt32.toNat_inj, UInt32.toNat_shiftLeft, UInt32.toNat_mod, UInt32.toNat_ofNat', Nat.shiftLeft_eq]
  simp only [UInt32.reduceToNat, Nat.mod_eq_of_lt hn]

theorem shiftBy_srl (w : UInt32) {k : Nat} (hk : k < 4) :
    (shiftBy .srl w (UInt8.ofNat (8 * k)).toUInt32).toNat = w.toNat / 256 ^ k := by
  show (w >>> ((UInt8.ofNat (8 * k)).toUInt32 % 32)).toNat = _
  have hcount : ((UInt8.ofNat (8 * k)).toUInt32 % 32).toNat = 8 * k := by
    rw [UInt32.toNat_mod, UInt8.toNat_toUInt32, UInt8.toNat_ofNat_of_lt' (by rw [UInt8.size]; omega)]
    simp only [UInt32.reduceToNat]
    omega
  rw [UInt32.toNat_shiftRight, hcount, Nat.mod_eq_of_lt (by omega), Nat.shiftRight_eq_div_pow, Nat.pow_mul]

section Copies

variable {p : Program Instr} {touched : Set Nat} {s : Snapshot Reg} {E : Fault → Snapshot Reg → Prop}
  {base : Reg} {offset : Int32} {align : Nat} {a : UInt32} (hfits : p.code.size ≤ codeLimit)

include hfits

/-! ## Loads -/

theorem steps_loadWhole (width : Width) (signed : Bool) (hplace : s.regs base + offset.toUInt32 = a)
    (haligned : a.toNat % width.bytes = 0) (hmapped : Memory.mapped a width.bytes = true)
    (htouched : Set.Ico a.toNat (a.toNat + width.bytes) ⊆ touched) :
    StepsWithin p touched (.load width signed .t6 offset base) s (s.set .t6
      (UInt32.ofInt (extended signed width.bytes (s.memory.valueAt a.toNat width.bytes)))) := by
  have hload : StepsWithin p touched (.load width signed .t6 offset base) s (s.set .t6
      (extendLoad width signed (UInt32.ofNat (s.memory.valueAt a.toNat width.bytes)))) :=
    steps_load hfits signed (by decide) hplace haligned (Memory.read_eq_ofNat hmapped) htouched
  cases signed with
  | false => rwa [extendLoad, if_neg (by decide), ofNat_eq_extended width.bytes] at hload
  | true =>
    have hvalue : s.memory.valueAt a.toNat width.bytes < 0x100000000 := by
      refine Nat.lt_of_lt_of_le (s.memory.valueAt_lt a.toNat width.bytes) ?_
      cases width <;> decide
    rwa [extendLoad, if_pos rfl, signExtend_eq_extended hvalue] at hload

theorem runs_loadByte (signed : Bool) {n : Nat} (hn : 0 < n) (hsteady : base ≠ .t6)
    (hplace : s.regs base + offset.toUInt32 = a) (hmapped : Memory.mapped a 1 = true)
    (htouched : Set.Ico a.toNat (a.toNat + 1) ⊆ touched)
    (hvalue : s.regs .t6 = UInt32.ofInt (extended signed n (s.memory.valueAt (a.toNat + 1) n))) :
    Runs p touched (loadByte base offset) s (fun s' => Scratched [.t6, .t7] s s' ∧
      s'.regs .t6 = UInt32.ofInt (extended signed (n + 1) (s.memory.valueAt a.toNat (n + 1)))) E := by
  refine .cons (steps_shift hfits .sll .t6 8 (by decide)) <|
    .cons (steps_load hfits false (by decide) ?_ (Nat.mod_one _) (Memory.read_eq_ofNat hmapped) htouched) <|
    .one (steps_alu hfits .or .t6 .t7 (by decide)) ⟨?_, ?_⟩
  · rw [Snapshot.set_of_ne _ hsteady, hplace]
  · exact .set (.set (.set .refl (by decide) _) (by decide) _) (by decide) _
  · let high := UInt32.ofInt (extended signed n (s.memory.valueAt (a.toNat + 1) n))
    let low := UInt32.ofNat (s.memory.valueAt a.toNat 1)
    have hlow : low.toNat < 2 ^ 8 := Nat.lt_of_le_of_lt (Nat.mod_le _ _) (s.memory.valueAt_lt a.toNat 1)
    have hb := (s.memory.byte a.toNat).toNat_lt
    calc alu .or (shiftBy .sll (s.regs .t6) 8) low
      _ = UInt32.ofNat (high.toNat * 2 ^ 8) ||| low := by
        rw [hvalue, shiftBy_sll high (by decide : (8 : UInt32).toNat < 32)]
        rfl
      _ = low + 256 * high := shiftLeft_or_eq (by decide) hlow
      _ = UInt32.ofInt (extended signed (n + 1) (s.memory.valueAt a.toNat (n + 1))) := by
        rw [Memory.valueAt, extended_succ signed hn hb, UInt32.ofInt_add, UInt32.ofInt_mul,
          Meaning.ofInt_natCast, ← Memory.valueAt_one]
        rfl

theorem runs_loadValue {bytes : Nat} (signed : Bool) (hpos : 0 < bytes) (h : Located base offset align s a)
    (hmapped : Memory.mapped a bytes = true) (htouched : Set.Ico a.toNat (a.toNat + bytes) ⊆ touched) :
    Runs p touched (loadValue base offset bytes signed align) s (fun s' => Scratched [.t6, .t7] s s' ∧
      s'.regs .t6 = UInt32.ofInt (extended signed bytes (s.memory.valueAt a.toNat bytes))) E := by
  obtain ⟨hlow, hhigh⟩ := Memory.mapped_iff.mp hmapped
  unfold loadValue
  split
  · rename_i width hwidth
    obtain ⟨rfl, haligned⟩ := h.whole hwidth
    refine .one (steps_loadWhole hfits width signed h.place haligned hmapped htouched)
      ⟨.set .refl (by decide) _, Snapshot.set_self ..⟩
  · obtain ⟨top, rfl⟩ : ∃ top, bytes = top + 1 := ⟨bytes - 1, by omega⟩
    have hbyte : ∀ k ≤ top, (a + UInt32.ofNat k).toNat = a.toNat + k ∧
        Memory.mapped (a + UInt32.ofNat k) 1 = true ∧
        Set.Ico (a + UInt32.ofNat k).toNat ((a + UInt32.ofNat k).toNat + 1) ⊆ touched := fun k hk => by
      have hplace : (a + UInt32.ofNat k).toNat = a.toNat + k := toNat_add_ofNat (by omega)
      refine ⟨hplace, Memory.mapped_iff.mpr (by omega), ?_⟩
      rw [hplace]
      exact (Set.Ico_subset_Ico (by omega) (by omega)).trans htouched
    -- the bytes from the top one down to byte `k` are loaded
    let Inv (k : Nat) (t : Snapshot Reg) : Prop := Scratched [.t6, .t7] s t ∧
      t.regs .t6 = UInt32.ofInt (extended signed (top + 1 - k) (s.memory.valueAt (a.toNat + k) (top + 1 - k)))
    obtain ⟨hplace, hmapped', htouched'⟩ := hbyte top (Nat.le_refl _)
    refine .cons (steps_loadWhole hfits .byte signed (h.add top) (Nat.mod_one _) hmapped' htouched')
      (Runs.countDown _ Inv (fun k hk t ht => ?_) ⟨.set .refl (by decide) _, ?_⟩)
    · obtain ⟨hscratched, hvalue⟩ := ht
      obtain ⟨hplace, hmapped', htouched'⟩ := hbyte k (Nat.le_of_lt hk)
      have hmemory : t.memory = s.memory := hscratched.memory_eq
      have hbase : t.regs base = s.regs base := hscratched.regs base fun hmem =>
        h.steady (List.mem_cons_of_mem _ hmem)
      have hcount : top + 1 - k = top - k + 1 := by omega
      refine (runs_loadByte hfits signed (n := top - k) (by omega) ?_ ((h.congr hbase).add k) hmapped' htouched'
        ?_).mono ?_
      · rintro rfl
        exact h.steady (by decide)
      · rw [hvalue, hmemory, hplace, Nat.add_sub_add_right, Nat.add_assoc]
      · rintro t' ⟨hscratched', hvalue'⟩
        refine ⟨hscratched.trans hscratched', ?_⟩
        rw [hvalue', hmemory, hplace, hcount]
    · rw [Snapshot.set_self, hplace, Nat.add_sub_cancel, Nat.add_sub_cancel_left]
      rfl

/-- A value is pushed as the words it spells, whatever the alignment. -/
theorem runs_pushFromMemory {storage : Nat} (signed : Bool) (h : Located base offset align s a)
    (hpointer : (s.regs .sp).toNat % 4 = 0) (hpushable : Pushable .sp touched a storage s) :
    Runs p touched (pushFromMemory base offset storage signed align) s (Pushed .sp [.t6, .t7]
      (loadedWords signed storage (s.memory.valueAt a.toNat storage)) s) E := by
  obtain ⟨hmapped, htouched, hroom, hstack, hdisjoint⟩ := hpushable
  obtain ⟨hlow, hhigh⟩ := Memory.mapped_iff.mp hmapped
  obtain ⟨-, htop, hdeep⟩ := hroom.toNat
  refine Runs.pushWords _ (fun h => ?_) hroom hdisjoint fun k hk t hplace hregs => ?_
  · exact of_decide_eq_true (Bool.and_eq_true_iff.mp h).2
  · have hword : (a + UInt32.ofNat (4 * k)).toNat = a.toNat + 4 * k := toNat_add_ofNat (by omega)
    have hbytes : wordBytes storage k = min (storage - 4 * k) 4 := rfl
    have hbase : t.regs base = s.regs base := by
      refine hregs base ?_ fun hmem => h.steady (List.mem_cons_of_mem _ hmem)
      rintro rfl
      exact h.steady List.mem_cons_self
    rw [← hword, ← hbytes]
    refine (runs_loadValue hfits (signed && decide (storage < 4)) (by omega)
      ((h.word k (by omega)).congr hbase) (Memory.mapped_iff.mpr (by omega))
      ((Set.Ico_subset_Ico (by omega) (by omega)).trans htouched)).append ?_
    rintro t' ⟨hscratched, hvalue⟩
    have hsp : t'.regs .sp = t.regs .sp := hscratched.regs .sp (by decide)
    have hroom' : Room (t'.regs .sp) 1 := by
      rw [hsp]
      exact .one (by omega) (by omega)
    have hslot : (t'.regs .sp - 4).toNat + 4 = (t.regs .sp).toNat := by
      rw [← hsp]
      exact hroom'.toNat.1
    rw [← List.append_nil (Instr.push .t6)]
    refine Runs.push hfits (by decide) ?_ hroom' ?_ (.nil ?_)
    · rw [hsp]
      omega
    · exact (Set.Ico_subset_Ico (by omega) (by omega)).trans hstack
    · rw [hvalue]
      exact .after hscratched (.one hroom') (by decide)

/-! ## Stores -/

/-- One to four bytes of `$t6` are stored behind the bytes that are stored. -/
theorem runs_storeValue {t : Snapshot Reg} {count start n bytes src : Nat} {w : UInt32} (hpos : 0 < bytes)
    (hbytes : bytes ≤ 4) (h : Located base offset align t a) (hplace : a.toNat = start + n)
    (ht : Stored .sp [.t6, .t7] count start n (fun j => s.memory.byte (src + j)) s t)
    (hvalue : t.regs .t6 = w) (hw : w.toNat = s.memory.valueAt (src + n) 4)
    (hmapped : Memory.mapped a bytes = true) (htouched : Set.Ico a.toNat (a.toNat + bytes) ⊆ touched) :
    Runs p touched (storeValue base offset bytes align) t
      (Stored .sp [.t6, .t7] count start (n + bytes) (fun j => s.memory.byte (src + j)) s) E := by
  obtain ⟨hlow, hhigh⟩ := Memory.mapped_iff.mp hmapped
  have hpart : ∀ k ≤ 4, (t.regs .t6).toNat % 256 ^ k = s.memory.valueAt (src + n) k := fun k hk => by
    rw [hvalue, hw, Memory.valueAt_mod _ _ hk]
  unfold storeValue
  split
  · rename_i width hwidth
    obtain ⟨rfl, haligned⟩ := h.whole hwidth
    refine .one (steps_store hfits h.place haligned hmapped htouched) ?_
    exact ht.put_copy hplace (hpart _ hbytes) (by show _ ≤ 0x400000; omega)
  · obtain ⟨more, rfl⟩ : ∃ more, bytes = more + 1 := ⟨bytes - 1, by omega⟩
    rw [Nat.add_sub_cancel, List.range'_eq_map_range, List.flatMap_map]
    -- the bytes up to byte `k` are stored, and the value is still in the register
    let Inv (k : Nat) (t' : Snapshot Reg) : Prop := t'.regs base = t.regs base ∧ t'.regs .t6 = w ∧
      Stored .sp [.t6, .t7] count start (n + (1 + k)) (fun j => s.memory.byte (src + j)) s t'
    have hfirst : Inv 0 (t.put a Width.byte.bytes (t.regs .t6)) :=
      ⟨rfl, hvalue, ht.put_copy hplace (hpart 1 (by decide)) (by show _ ≤ 0x400000; omega)⟩
    refine .cons (steps_store hfits h.place (Nat.mod_one _) (Memory.mapped_iff.mpr ?_) ?_) <|
      (Runs.countUp (fun k => storeByte base offset (1 + k)) Inv (fun k hk t' ht' => ?_) hfirst).mono
        fun t' ht' => ?_
    · simp only [Width.bytes]
      omega
    · exact (Set.Ico_subset_Ico (Nat.le_refl _) (by simp only [Width.bytes]; omega)).trans htouched
    · obtain ⟨hbase, hvalue', hstored⟩ := ht'
      let shifted := shiftBy .srl (t'.regs .t6) (UInt8.ofNat (8 * (1 + k))).toUInt32
      have hplace' : (a + UInt32.ofNat (1 + k)).toNat = a.toNat + (1 + k) := toNat_add_ofNat (by omega)
      have hshifted : shifted.toNat % 256 ^ 1 = s.memory.valueAt (src + (n + (1 + k))) 1 := by
        have hsplit : 4 = 1 + k + (3 - k) := by omega
        rw [shiftBy_srl _ (by omega), hvalue', hw, hsplit, Memory.valueAt_div,
          Memory.valueAt_mod _ _ (by omega), Nat.add_assoc]
      have hsteady : base ≠ .t7 := by
        rintro rfl
        exact h.steady (by decide)
      refine .cons (steps_shift hfits .srl .t6 _ (by decide)) <|
        .one (steps_store hfits (a := a + UInt32.ofNat (1 + k)) ?_ (Nat.mod_one _)
          (Memory.mapped_iff.mpr ?_) ?_) ⟨?_, ?_, ?_⟩
      · rw [Snapshot.set_of_ne _ hsteady, hbase]
        exact h.add (1 + k)
      · simp only [Width.bytes]
        omega
      · rw [hplace']
        exact (Set.Ico_subset_Ico (by omega) (by simp only [Width.bytes]; omega)).trans htouched
      · rw [Snapshot.put_regs, Snapshot.set_of_ne _ hsteady, hbase]
      · rw [Snapshot.put_regs, Snapshot.set_of_ne _ (by decide), hvalue']
      · have hscratch := hstored.setScratch (r := .t7) (by decide) (by decide) shifted
        rw [Snapshot.set_self]
        exact hscratch.put_copy (by omega) hshifted (by show _ ≤ 0x400000; omega)
    · rw [Nat.add_comm more]
      exact ht'.2.2

/-- The words of a value are popped into exactly its bytes, whatever the alignment. -/
theorem runs_popToMemory {storage : Nat} (h : Located base offset align s a)
    (hpointer : (s.regs .sp).toNat % 4 = 0) (hpoppable : Poppable .sp touched a storage s) :
    Runs p touched (popToMemory base offset storage align) s (Stored .sp [.t6, .t7] (wordCount storage)
      a.toNat storage (fun j => s.memory.byte ((s.regs .sp).toNat + j)) s) E := by
  obtain ⟨hmapped, htouched, hpopped, hstack, hdisjoint⟩ := hpoppable
  obtain ⟨hlow, hhigh⟩ := Memory.mapped_iff.mp hmapped
  refine Runs.popWords _ hpopped hdisjoint fun k hk t w ht hplace hread hvalue => ?_
  have hword : (a + UInt32.ofNat (4 * k)).toNat = a.toNat + 4 * k := toNat_add_ofNat (by omega)
  have hbytes : wordBytes storage k = min (storage - 4 * k) 4 := rfl
  have hsteady : base ≠ .sp ∧ base ≠ .t6 := by
    constructor <;> rintro rfl <;> exact h.steady (by decide)
  have hbase : t.regs base = s.regs base :=
    ht.regs base hsteady.1 fun hmem => h.steady (List.mem_cons_of_mem _ hmem)
  refine Runs.pop hfits (by decide) (by decide) (by omega) hread
    ((Set.Ico_subset_Ico (by omega) (by omega)).trans hstack) ?_
  have hpop := (ht.setScratch (r := .t6) (by decide) (by decide) w).pop
  rw [Snapshot.set_of_ne _ (by decide)] at hpop
  rw [← hbytes]
  refine runs_storeValue hfits (by omega) (Nat.min_le_right _ _) ((h.word k (by omega)).congr ?_) hword hpop ?_
    hvalue (Memory.mapped_iff.mpr (by omega)) ((Set.Ico_subset_Ico (by omega) (by omega)).trans htouched)
  · rw [Snapshot.set_of_ne _ hsteady.1, Snapshot.set_of_ne _ hsteady.2, hbase]
  · rw [Snapshot.set_of_ne _ (by decide), Snapshot.set_self]

omit hfits in
/-- The widest store that is left is aligned. -/
theorem zeroWidth_aligned {done left n : Nat} (hknown : align ∈ [1, 2, 4]) (haligned : n % align = 0)
    (hword : 4 ≤ align → 4 ≤ left → done % 4 = 0) (hhalf : 2 ≤ align → 2 ≤ left → done % 2 = 0) :
    (n + done) % (zeroWidth align left).bytes = 0 := by
  obtain rfl | rfl | rfl : align = 1 ∨ align = 2 ∨ align = 4 := by simpa using hknown
  all_goals
    unfold zeroWidth
    split_ifs <;> simp only [Width.bytes] <;> omega

omit hfits in
/-- The widest store fits, and those that follow are aligned too. -/
theorem zeroWidth_next {done left : Nat} (hword : 4 ≤ align → 4 ≤ left → done % 4 = 0)
    (hhalf : 2 ≤ align → 2 ≤ left → done % 2 = 0) (hleft : 0 < left) :
    (zeroWidth align left).bytes ≤ left ∧
      (4 ≤ align → 4 ≤ left - (zeroWidth align left).bytes → (done + (zeroWidth align left).bytes) % 4 = 0) ∧
      (2 ≤ align → 2 ≤ left - (zeroWidth align left).bytes → (done + (zeroWidth align left).bytes) % 2 = 0) := by
  unfold zeroWidth
  split_ifs <;> simp only [Width.bytes] <;> omega

theorem runs_zeroFrom {t : Snapshot Reg} {done left : Nat} (hplace : s.regs base + offset.toUInt32 = a)
    (hknown : align ∈ [1, 2, 4]) (haligned : a.toNat % align = 0) (hzero : s.regs .zero = 0)
    (hword : 4 ≤ align → 4 ≤ left → done % 4 = 0) (hhalf : 2 ≤ align → 2 ≤ left → done % 2 = 0)
    (h : Stored .sp [] 0 a.toNat done (fun _ => 0) s t) (hmapped : Memory.mapped a (done + left) = true)
    (htouched : Set.Ico a.toNat (a.toNat + (done + left)) ⊆ touched) :
    Runs p touched (zeroFrom base offset align done left) t
      (Stored .sp [] 0 a.toNat (done + left) (fun _ => 0) s) E := by
  obtain ⟨hlow, hhigh⟩ := Memory.mapped_iff.mp hmapped
  fun_induction zeroFrom base offset align done left generalizing t with
  | case1 done left hleft width =>
    rename_i ih
    obtain ⟨hwidth, hword', hhalf'⟩ : width.bytes ≤ left ∧ _ ∧ _ := zeroWidth_next hword hhalf hleft
    have hsum : done + width.bytes + (left - width.bytes) = done + left := by omega
    have hdone : (a + UInt32.ofNat done).toNat = a.toNat + done := toNat_add_ofNat (by omega)
    have hregs : t.regs base + offset.toUInt32 = a ∧ t.regs .zero = 0 := by
      rw [h.regs_eq]
      exact ⟨hplace, hzero⟩
    rw [hsum] at ih
    refine .cons (steps_store hfits (a := a + UInt32.ofNat done) ?_ ?_ (Memory.mapped_iff.mpr (by omega)) ?_)
      (ih hword' hhalf' ?_ hmapped htouched hhigh)
    · rw [Int32.toUInt32_add, ← UInt32.add_assoc, hregs.1]
      rfl
    · rw [hdone]
      exact zeroWidth_aligned hknown haligned hword hhalf
    · rw [hdone]
      exact (Set.Ico_subset_Ico (by omega) (by omega)).trans htouched
    · refine h.put ?_
      rw [hdone, hregs.2]
      refine h.memory.put (fun j _ => ?_) (by show _ ≤ 0x400000; omega)
      rw [show (0 : UInt32).toNat = 0 from rfl, Nat.zero_div]
      rfl
  | case2 done left hleft =>
    obtain rfl : left = 0 := by omega
    exact .nil h

/-- Exactly the bytes of a value are cleared, whatever the alignment. -/
theorem runs_zeroMemory {storage : Nat} (hplace : s.regs base + offset.toUInt32 = a) (hknown : align ∈ [1, 2, 4])
    (haligned : a.toNat % align = 0) (hmapped : Memory.mapped a storage = true)
    (htouched : Set.Ico a.toNat (a.toNat + storage) ⊆ touched) :
    Runs p touched (zeroMemory base offset storage align) s
      (Stored .sp [] 0 a.toNat storage (fun _ => 0) s) E := by
  intro k m hplaced hat hm
  have hzero : s.regs .zero = 0 := hm ▸ hat.2.2
  have hall : 0 + storage = storage := Nat.zero_add storage
  rw [← hall] at hmapped htouched
  have hrun : Runs p touched (zeroFrom base offset align 0 storage) s
      (Stored .sp [] 0 a.toNat (0 + storage) (fun _ => 0) s) E :=
    runs_zeroFrom hfits hplace hknown haligned hzero (fun _ _ => rfl) (fun _ _ => rfl) .zero hmapped htouched
  rw [hall] at hrun
  exact hrun k m hplaced hat hm

end Copies

end Stencil.Mips
