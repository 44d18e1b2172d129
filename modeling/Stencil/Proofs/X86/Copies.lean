import Stencil.Proofs.Access.Copies
import Stencil.Proofs.X86.Touch
import Stencil.X86.Transfer

/-!
# Values between memory and the stack on x86

A value of any size is pushed as the words it spells and popped into exactly its bytes. A narrow value
is extended by its sign where that is asked for, except that a value of three bytes never is.
-/

namespace Stencil.X86

open AddressMap Meaning

/-- The operand depends neither on the stack pointer nor on a scratch register. -/
def Mem.Steady (mem : Mem) : Prop := ∀ r ∈ [Reg.esp, .edx, .esi], mem.base ≠ some r

theorem Mem.Steady.offset {mem : Mem} (h : mem.Steady) (delta : Int32) : (mem.offset delta).Steady := h

theorem shiftBits_shl (w : UInt32) (n : Nat) :
    UInt32.ofNat (shiftBits .shl 32 w n).1 = UInt32.ofNat (w.toNat * 2 ^ n) := by
  show UInt32.ofNat (w.toNat <<< n % Word.modulus 32) = _
  rw [← UInt32.toNat_inj, UInt32.toNat_ofNat', UInt32.toNat_ofNat', Nat.shiftLeft_eq, modulus_word,
    Nat.mod_mod]

section Copies

variable {p : Program Instr} {touched : Set Nat} {s : Snapshot Reg} {E : Fault → Snapshot Reg → Prop}
  {mem : Mem} {a : UInt32} (hfits : p.code.size ≤ codeLimit)

include hfits

/-! ## Loads -/

theorem runs_extend (signed : Bool) (width : Width) (hnames : mem.Names p s.regs a)
    (hmapped : Memory.mapped a width.bytes = true)
    (htouched : Set.Ico a.toNat (a.toNat + width.bytes) ⊆ touched) :
    Runs p touched [if signed then .movsx .edx (.mem width mem) else .movzx .edx (.mem width mem)] s
      (fun s' => s' = s.set .edx
        (UInt32.ofInt (extended signed width.bytes (s.memory.valueAt a.toNat width.bytes)))) E := by
  have hread := Memory.read_eq_ofNat (m := s.memory) hmapped
  cases signed with
  | false =>
    refine .one (steps_movzx hfits hnames hread htouched) ?_
    rw [ofNat_eq_extended]
  | true =>
    have hvalue : s.memory.valueAt a.toNat width.bytes < 0x100000000 := by
      refine Nat.lt_of_lt_of_le (s.memory.valueAt_lt a.toNat width.bytes) ?_
      cases width <;> decide
    refine .one (steps_movsx hfits hnames hread htouched) ?_
    rw [signExtend_eq_extended hvalue]

theorem runs_loadTail {bytes : Nat} (signed : Bool) (hpos : 0 < bytes) (hbytes : bytes < 4)
    (hsteady : mem.Steady) (hnames : mem.Names p s.regs a) (hmapped : Memory.mapped a bytes = true)
    (htouched : Set.Ico a.toNat (a.toNat + bytes) ⊆ touched) :
    Runs p touched (loadTail mem bytes signed) s (fun s' => Scratched [.edx, .esi] s s' ∧
      s'.regs .edx = UInt32.ofInt (extended (signed && decide (bytes ≠ 3)) bytes
        (s.memory.valueAt a.toNat bytes))) E := by
  obtain rfl | rfl | rfl : bytes = 1 ∨ bytes = 2 ∨ bytes = 3 := by omega
  · refine (runs_extend hfits signed .byte hnames hmapped htouched).mono ?_
    rintro s' rfl
    rw [Snapshot.set_self, show (signed && decide (1 ≠ 3)) = signed from Bool.and_true _]
    exact ⟨.set .refl (by decide) _, rfl⟩
  · refine (runs_extend hfits signed .word hnames hmapped htouched).mono ?_
    rintro s' rfl
    rw [Snapshot.set_self, show (signed && decide (2 ≠ 3)) = signed from Bool.and_true _]
    exact ⟨.set .refl (by decide) _, rfl⟩
  · obtain ⟨hlow, hhigh⟩ := Memory.mapped_iff.mp hmapped
    have hplace : (a + 2).toNat = a.toNat + 2 := toNat_add_ofNat (n := 2) (by omega)
    have hthird := Memory.read_eq_ofNat (m := s.memory) (a := a + 2) (n := 1)
      (Memory.mapped_iff.mpr (by omega))
    have hfirst := Memory.read_eq_ofNat (m := s.memory) (a := a) (n := 2)
      (Memory.mapped_iff.mpr (by omega))
    have hthirdTouched : Set.Ico (a + 2).toNat ((a + 2).toNat + 1) ⊆ touched := by
      rw [hplace]
      exact (Set.Ico_subset_Ico (by omega) (by omega)).trans htouched
    have hfirstTouched : Set.Ico a.toNat (a.toNat + 2) ⊆ touched :=
      (Set.Ico_subset_Ico (Nat.le_refl _) (by omega)).trans htouched
    refine .cons (steps_movzx hfits (hnames.offset 2) hthird hthirdTouched) <|
      .cons (steps_shiftImm hfits .shl .edx (by decide)) <|
      .cons (steps_movzx hfits (hnames.congr fun r hr => ?_) hfirst hfirstTouched) <|
      .one (steps_aluReg hfits .or (by decide) .edx .esi (alu_or _ _)) ⟨?_, ?_⟩
    · have hne : r ≠ .edx := by
        rintro rfl
        exact hsteady .edx (by decide) hr
      rw [Snapshot.set_of_ne _ hne, Snapshot.set_of_ne _ hne]
    · exact .set (.set (.set (.set .refl (by decide) _) (by decide) _) (by decide) _) (by decide) _
    · rw [Snapshot.set_self, Snapshot.set_self, Snapshot.set_of_ne _ (by decide), Snapshot.set_self,
        Snapshot.set_self, shiftBits_shl, hplace, show UInt8.toNat 16 % 32 = 16 from rfl, join_three,
        ofNat_eq_extended 3]
      exact congrArg (fun signed => UInt32.ofInt (extended signed 3 _)) (Bool.and_false signed).symm

theorem runs_pushWord {bytes : Nat} (signed : Bool) (hpos : 0 < bytes) (hbytes : bytes ≤ 4)
    (hsigned : signed = true → bytes < 4) (hsteady : mem.Steady) (hnames : mem.Names p s.regs a)
    (hmapped : Memory.mapped a bytes = true) (htouched : Set.Ico a.toNat (a.toNat + bytes) ⊆ touched)
    (hroom : Room (s.regs .esp) 1)
    (hstack : Set.Ico ((s.regs .esp).toNat - 4) (s.regs .esp).toNat ⊆ touched) :
    Runs p touched (pushWord mem bytes signed) s (Pushed .esp [.edx, .esi]
      [UInt32.ofInt (extended (signed && decide (bytes ≠ 3)) bytes (s.memory.valueAt a.toNat bytes))] s)
      E := by
  have hpushed : Memory.mapped (s.regs .esp - 4) 4 = true := hroom
  have hplace : (s.regs .esp - 4).toNat + 4 = (s.regs .esp).toNat := hroom.toNat.1
  have hslot : Set.Ico (s.regs .esp - 4).toNat ((s.regs .esp - 4).toNat + 4) ⊆ touched :=
    (Set.Ico_subset_Ico (by omega) (by omega)).trans hstack
  unfold pushWord
  split
  · rename_i hfour
    subst hfour
    have hplain : signed = false := by
      cases signed with
      | false => rfl
      | true => exact absurd (hsigned rfl) (by decide)
    subst hplain
    refine .one (steps_pushMem hfits hnames (Memory.read_eq_ofNat hmapped) htouched hpushed hslot) ?_
    rw [ofNat_eq_extended 4]
    exact .one hroom
  · refine (runs_loadTail hfits signed hpos (by omega) hsteady hnames hmapped htouched).append ?_
    rintro t ⟨hscratched, hedx⟩
    have hesp : t.regs .esp = s.regs .esp := hscratched.regs .esp (by decide)
    rw [← hesp] at hroom hpushed hslot
    refine .one (steps_pushReg hfits hpushed hslot) ?_
    rw [hedx]
    exact .after hscratched (.one hroom) (by decide)

/-- A value is pushed as the words it spells; only one of three bytes is not extended by its sign. -/
theorem runs_pushFromMemory {storage : Nat} (signed : Bool) (hsteady : mem.Steady)
    (hnames : mem.Names p s.regs a) (h : Pushable .esp touched a storage s) :
    Runs p touched (pushFromMemory mem storage signed) s (Pushed .esp [.edx, .esi]
      (loadedWords (signed && decide (storage ≠ 3)) storage (s.memory.valueAt a.toNat storage)) s) E := by
  obtain ⟨hmapped, htouched, hroom, hstack, hdisjoint⟩ := h
  obtain ⟨hlow, hhigh⟩ := Memory.mapped_iff.mp hmapped
  obtain ⟨-, htop, hdeep⟩ := hroom.toNat
  refine Runs.pushWords _ (fun h => ?_) hroom hdisjoint fun k hk t hpointer hregs => ?_
  · exact of_decide_eq_true (Bool.and_eq_true_iff.mp h).2
  · have hplace : (a + UInt32.ofNat (4 * k)).toNat = a.toNat + 4 * k := toNat_add_ofNat (by omega)
    have hnames' : (mem.word k).Names p t.regs (a + UInt32.ofNat (4 * k)) := by
      refine (hnames.congr fun r hr => ?_).word k
      refine hregs r ?_ fun hmem => hsteady r (List.mem_cons_of_mem _ hmem) hr
      rintro rfl
      exact hsteady .esp List.mem_cons_self hr
    have hbytes : wordBytes storage k = min (storage - 4 * k) 4 := rfl
    have hsign : (signed && decide (storage < 4) && decide (wordBytes storage k ≠ 3)) =
        (signed && decide (storage ≠ 3) && decide (storage < 4)) := by
      rcases Nat.lt_or_ge storage 4 with hlt | hge
      · rw [show wordBytes storage k = storage by omega, Bool.and_right_comm]
      · rw [decide_eq_false (Nat.not_lt.mpr hge), Bool.and_false, Bool.and_false, Bool.false_and]
    rw [← hsign, ← hplace, ← hbytes]
    refine runs_pushWord hfits (signed && decide (storage < 4)) (by omega) (Nat.min_le_right _ _)
      (fun h => ?_) (hsteady.offset _) hnames' (Memory.mapped_iff.mpr (by omega))
      ((Set.Ico_subset_Ico (by omega) (by omega)).trans htouched) (.one (by omega) (by omega))
      ((Set.Ico_subset_Ico (by omega) (by omega)).trans hstack)
    have hnarrow : storage < 4 := of_decide_eq_true (Bool.and_eq_true_iff.mp h).2
    omega

/-! ## Stores -/

/-- The low part of `edx` is stored behind the bytes that are stored. -/
theorem steps_storePart_copy (width : Width) {t : Snapshot Reg} {count n src : Nat} {place : UInt32}
    (h : Stored .esp [.edx] count a.toNat n (fun j => s.memory.byte (src + j)) s t)
    (hnames : mem.Names p t.regs place) (hplace : place.toNat = a.toNat + n)
    (hvalue : (t.regs .edx).toNat % 256 ^ width.bytes = s.memory.valueAt (src + n) width.bytes)
    (hlow : 0x1000 ≤ a.toNat) (hhigh : a.toNat + n + width.bytes ≤ 0x400000)
    (htouched : Set.Ico (a.toNat + n) (a.toNat + n + width.bytes) ⊆ touched) :
    ∃ t', StepsWithin p touched (.storePart width mem .edx) t t' ∧ t'.regs = t.regs ∧
      Stored .esp [.edx] count a.toNat (n + width.bytes) (fun j => s.memory.byte (src + j)) s t' := by
  refine ⟨_, steps_storePart hfits hnames (Memory.mapped_iff.mpr (by omega)) (by rwa [hplace]), rfl, ?_⟩
  refine h.put_copy hplace ?_ hhigh
  have hlt := s.memory.valueAt_lt (src + n) width.bytes
  have hwidth : 256 ^ width.bytes ≤ 0x100000000 := by cases width <;> decide
  rw [modulus_bytes, hvalue, UInt32.toNat_ofNat_of_lt' (Nat.lt_of_lt_of_le hlt hwidth), Nat.mod_eq_of_lt hlt]

theorem runs_popWord {t : Snapshot Reg} {k bytes src : Nat} {w : UInt32} (hpos : 0 < bytes) (hbytes : bytes ≤ 4)
    (h : Stored .esp [.edx] k a.toNat (4 * k) (fun j => s.memory.byte (src + j)) s t)
    (hbase : mem.base ≠ some .esp ∧ mem.base ≠ some .edx) (hnames : mem.Names p s.regs a)
    (hread : t.memory.read (t.regs .esp) 4 = .ok w) (hvalue : w.toNat = s.memory.valueAt (src + 4 * k) 4)
    (hstack : Set.Ico (t.regs .esp).toNat ((t.regs .esp).toNat + 4) ⊆ touched)
    (hlow : 0x1000 ≤ a.toNat) (hhigh : a.toNat + 4 * k + bytes ≤ 0x400000)
    (htouched : Set.Ico (a.toNat + 4 * k) (a.toNat + 4 * k + bytes) ⊆ touched) :
    Runs p touched (popWord (mem.word k) bytes) t
      (Stored .esp [.edx] (k + 1) a.toNat (4 * k + bytes) (fun j => s.memory.byte (src + j)) s) E := by
  have hplace : (a + UInt32.ofNat (4 * k)).toNat = a.toNat + 4 * k := toNat_add_ofNat (by omega)
  have hnames' : ∀ {t' : Snapshot Reg} {count n : Nat} {f : Nat → UInt8},
      Stored .esp [.edx] count a.toNat n f s t' → (mem.word k).Names p t'.regs (a + UInt32.ofNat (4 * k)) := by
    intro t' count n f ht'
    refine (hnames.congr fun r hr => ht'.regs r ?_ ?_).word k
    · rintro rfl
      exact hbase.1 hr
    · intro hmem
      rw [List.mem_singleton.mp hmem] at hr
      exact hbase.2 hr
  have hpart : ∀ n ≤ 4, w.toNat % 256 ^ n = s.memory.valueAt (src + 4 * k) n := fun n hn => by
    rw [hvalue, Memory.valueAt_mod _ _ hn]
  let popped := (t.set .esp (t.regs .esp + 4)).set .edx w
  have hpopped : Stored .esp [.edx] (k + 1) a.toNat (4 * k) (fun j => s.memory.byte (src + j)) s popped :=
    h.pop.setScratch (by decide) (by decide) w
  have hedx : popped.regs .edx = w := Snapshot.set_self ..
  obtain rfl | rfl | rfl | rfl : bytes = 1 ∨ bytes = 2 ∨ bytes = 3 ∨ bytes = 4 := by omega
  · obtain ⟨t', hstep, -, ht'⟩ := steps_storePart_copy hfits .byte hpopped (hnames' hpopped) hplace
      (by rw [hedx]; exact hpart 1 (by decide)) hlow hhigh htouched
    exact .cons (steps_popReg hfits hread hstack) (.one hstep ht')
  · obtain ⟨t', hstep, -, ht'⟩ := steps_storePart_copy hfits .word hpopped (hnames' hpopped) hplace
      (by rw [hedx]; exact hpart 2 (by decide)) hlow hhigh htouched
    exact .cons (steps_popReg hfits hread hstack) (.one hstep ht')
  · -- two bytes, then the third one shifted down
    obtain ⟨t₁, hfirst, hregs, ht₁⟩ := steps_storePart_copy hfits .word hpopped (hnames' hpopped) hplace
      (by rw [hedx]; exact hpart 2 (by decide)) hlow (by simp only [Width.bytes]; omega)
      ((Set.Ico_subset_Ico (Nat.le_refl _) (by simp only [Width.bytes]; omega)).trans htouched)
    let high := UInt32.ofNat (shiftBits .shr 32 (t₁.regs .edx) 16).1
    have ht₂ := ht₁.setScratch (r := .edx) (by decide) (by decide) high
    have hhighValue : high.toNat = s.memory.valueAt (src + 4 * k + 2) 2 := by
      have hshift : (t₁.regs .edx).toNat >>> 16 = s.memory.valueAt (src + 4 * k + 2) 2 := by
        rw [hregs, hedx, hvalue, Nat.shiftRight_eq_div_pow]
        exact s.memory.valueAt_div (src + 4 * k) 2 2
      have hlt := s.memory.valueAt_lt (src + 4 * k + 2) 2
      show (UInt32.ofNat ((t₁.regs .edx).toNat >>> 16)).toNat = _
      rw [hshift]
      exact UInt32.toNat_ofNat_of_lt' (Nat.lt_trans hlt (by decide))
    have hplace₂ : (a + UInt32.ofNat (4 * k) + 2).toNat = a.toNat + (4 * k + 2) := by
      have hsum := toNat_add_ofNat (a := a + UInt32.ofNat (4 * k)) (n := 2) (by omega)
      rw [show UInt32.ofNat 2 = 2 from rfl] at hsum
      omega
    obtain ⟨t₃, hsecond, -, ht₃⟩ := steps_storePart_copy hfits .byte ht₂ ((hnames' ht₂).offset 2) hplace₂
      (by
        rw [Snapshot.set_self, hhighValue, ← Nat.add_assoc]
        exact Memory.valueAt_mod _ _ (by decide))
      hlow (by simp only [Width.bytes]; omega)
      ((Set.Ico_subset_Ico (by simp only [Width.bytes]; omega) (by simp only [Width.bytes]; omega)).trans htouched)
    exact .cons (steps_popReg hfits hread hstack) <| .cons hfirst <|
      .cons (steps_shiftImm hfits .shr .edx (by decide)) (.one hsecond ht₃)
  · refine .one (steps_popMem hfits hread hstack (hnames' h.pop) (Memory.mapped_iff.mpr (by omega)) ?_)
      (h.pop.put_copy hplace (hpart 4 (by decide)) hhigh)
    rw [hplace]
    exact htouched

/-- The words of a value are popped into exactly its bytes. -/
theorem runs_popToMemory {storage : Nat} (hbase : mem.base ≠ some .esp ∧ mem.base ≠ some .edx)
    (hnames : mem.Names p s.regs a) (h : Poppable .esp touched a storage s) :
    Runs p touched (popToMemory mem storage) s (Stored .esp [.edx] (wordCount storage) a.toNat storage
      (fun j => s.memory.byte ((s.regs .esp).toNat + j)) s) E := by
  obtain ⟨hmapped, htouched, hpopped, hstack, hdisjoint⟩ := h
  obtain ⟨hlow, hhigh⟩ := Memory.mapped_iff.mp hmapped
  refine Runs.popWords _ hpopped hdisjoint fun k hk t w ht hplace hread hvalue => ?_
  have hbytes : wordBytes storage k = min (storage - 4 * k) 4 := rfl
  refine runs_popWord hfits (by omega) (Nat.min_le_right _ _) ht hbase hnames hread hvalue ?_ hlow (by omega) ?_
  · exact (Set.Ico_subset_Ico (by omega) (by omega)).trans hstack
  · exact (Set.Ico_subset_Ico (by omega) (by omega)).trans htouched

theorem steps_zero (width : Width) {t : Snapshot Reg} {n : Nat}
    (h : Stored .esp [] 0 a.toNat n (fun _ => 0) s t) (hnames : mem.Names p s.regs a)
    (hlow : 0x1000 ≤ a.toNat) (hhigh : a.toNat + n + width.bytes ≤ 0x400000)
    (htouched : Set.Ico (a.toNat + n) (a.toNat + n + width.bytes) ⊆ touched) :
    ∃ t', StepsWithin p touched (.mov (.mem width (mem.offset (Int32.ofNat n))) (.imm 0)) t t' ∧
      Stored .esp [] 0 a.toNat (n + width.bytes) (fun _ => 0) s t' := by
  have hplace : (a + UInt32.ofNat n).toNat = a.toNat + n := toNat_add_ofNat (by omega)
  have hnames' : (mem.offset (Int32.ofNat n)).Names p t.regs (a + UInt32.ofNat n) := by
    rw [h.regs_eq]
    exact hnames.offset _
  refine ⟨_, steps_storeImm hfits hnames' (Memory.mapped_iff.mpr (by omega)) (by rwa [hplace]), ?_⟩
  refine h.put ?_
  rw [hplace]
  refine h.memory.put (fun j _ => ?_) hhigh
  rw [show (Int32.toUInt32 0).toNat = 0 from rfl, Nat.zero_div]
  rfl

/-- Exactly the bytes of a value are cleared. -/
theorem runs_zeroMemory {storage : Nat} (hnames : mem.Names p s.regs a)
    (hmapped : Memory.mapped a storage = true) (htouched : Set.Ico a.toNat (a.toNat + storage) ⊆ touched) :
    Runs p touched (zeroMemory mem storage) s (Stored .esp [] 0 a.toNat storage (fun _ => 0) s) E := by
  obtain ⟨hlow, hhigh⟩ := Memory.mapped_iff.mp hmapped
  have hzero : ∀ {t : Snapshot Reg} (width : Width) (n : Nat), n + width.bytes ≤ storage →
      Stored .esp [] 0 a.toNat n (fun _ => 0) s t →
      ∃ t', StepsWithin p touched (.mov (.mem width (mem.offset (Int32.ofNat n))) (.imm 0)) t t' ∧
        Stored .esp [] 0 a.toNat (n + width.bytes) (fun _ => 0) s t' := fun width n hn h =>
    steps_zero hfits width h hnames hlow (by omega)
      ((Set.Ico_subset_Ico (by omega) (by omega)).trans htouched)
  unfold zeroMemory
  dsimp only
  rw [← List.flatMap_pure_eq_map]
  refine (Runs.countUp _ (fun k => Stored .esp [] 0 a.toNat (4 * k) (fun _ => 0) s) (fun k hk t ht => ?_)
    .zero).append fun t ht => ?_
  · obtain ⟨t', hstep, ht'⟩ := hzero .dword (4 * k) (by simp only [Width.bytes]; omega) ht
    exact .one hstep ht'
  · -- the tail that is left
    obtain hmod | hmod | hmod | hmod : storage % 4 = 0 ∨ storage % 4 = 1 ∨ storage % 4 = 2 ∨ storage % 4 = 3 := by
      omega
    all_goals rw [hmod]
    · have hall : 4 * (storage / 4) = storage := by omega
      rw [hall] at ht
      exact .nil ht
    · have hall : 4 * (storage / 4) + Width.byte.bytes = storage := by simp only [Width.bytes]; omega
      obtain ⟨t', hstep, ht'⟩ := hzero .byte _ (Nat.le_of_eq hall) ht
      rw [hall] at ht'
      exact .one hstep ht'
    · have hall : 4 * (storage / 4) + Width.word.bytes = storage := by simp only [Width.bytes]; omega
      obtain ⟨t', hstep, ht'⟩ := hzero .word _ (Nat.le_of_eq hall) ht
      rw [hall] at ht'
      exact .one hstep ht'
    · have hall : 4 * (storage / 4) + Width.word.bytes + Width.byte.bytes = storage := by
        simp only [Width.bytes]
        omega
      obtain ⟨t₁, hfirst, ht₁⟩ := hzero .word _ (by omega) ht
      obtain ⟨t₂, hsecond, ht₂⟩ := hzero .byte _ (Nat.le_of_eq hall) ht₁
      rw [hall] at ht₂
      exact .cons hfirst (.one hsecond ht₂)

end Copies

end Stencil.X86
