import Stencil.Proofs.Access.Places
import Stencil.Proofs.Mips.Copies
import Stencil.Mips.Guard

/-!
# Checks on MIPS32

A check that passes changes nothing but scratch registers; one that fails raises its exception after
nothing but a push. The address of an element is formed only behind both checks of it, and a shift comes to
the same as a product.
-/

namespace Stencil.Mips

open AddressMap

section Checks

variable {p : Program Instr} {touched : Set Nat} {s : Snapshot Reg} {code : List Instr}
  {Q : Snapshot Reg → Prop} {E : Fault → Snapshot Reg → Prop} (ctx : EmitContext) (i : Instruction)
  (hwf : p.WellFormed)

include hwf

theorem runs_throwHere {intrinsic : Intrinsic} {fault : UInt32 → Fault} (hraises : Raises intrinsic fault)
    (haligned : (s.regs .sp).toNat % 4 = 0) (hroom : Room (s.regs .sp) 1)
    (htouched : Set.Ico ((s.regs .sp).toNat - 4) (s.regs .sp).toNat ⊆ touched)
    (hE : ∀ raised s', Raised fault (Set.Ico ((s.regs .sp).toNat - 4) (s.regs .sp).toNat) s raised s' →
      E raised s') :
    Runs p touched (throwHere intrinsic ++ code) s Q E := by
  rw [throwHere, List.append_assoc, List.append_assoc]
  refine Runs.callSite hwf fun ra site => ?_
  let told := (s.set .ra ra).set .v0 site
  have htold : Scratched [.ra, .v0] s told := .set (.set .refl (by decide) ra) (by decide) site
  have hsp : told.regs .sp = s.regs .sp := htold.regs .sp (by decide)
  have hroom' : Room (told.regs .sp) 1 := by rwa [hsp]
  have hpushed := Pushed.after htold (Pushed.one (w := site) hroom') (by decide)
  have hslot : Set.Ico (told.regs .sp - 4).toNat ((told.regs .sp - 4).toNat + 4) ⊆ touched := by
    rw [hroom'.slot, hsp]
    exact htouched
  refine Runs.push hwf.fits (by decide) (by rwa [hsp]) hroom' hslot ?_
  rw [Snapshot.set_self]
  refine Runs.raise hwf hraises (hpushed.top hroom).2 ?_ fun ra' => hE _ _ (hpushed.raised hroom fault rfl)
  rwa [Snapshot.set_self]

theorem runs_nullCheck {r : Reg} (hzero : s.regs .zero = 0) (hr : s.regs r ≠ 0)
    (h : Runs p touched code s Q E) : Runs p touched (nullCheck ctx i r ++ code) s Q E := by
  have hbranch := branches_bne (p := p) (s := s) r .zero (ctx.inside i "NotNull" 0)
  rw [hzero, bne_iff_ne.mpr hr] at hbranch
  exact Runs.land (throwHere .throwNullReference) (jumps_branch hwf.fits hbranch)
    (.cons (steps_label hwf.fits _) h)

theorem runs_nullCheck_null {r : Reg} (hzero : s.regs .zero = 0) (hr : s.regs r = 0)
    (haligned : (s.regs .sp).toNat % 4 = 0) (hroom : Room (s.regs .sp) 1)
    (htouched : Set.Ico ((s.regs .sp).toNat - 4) (s.regs .sp).toNat ⊆ touched)
    (hE : ∀ raised s', Raised .nullReference (Set.Ico ((s.regs .sp).toNat - 4) (s.regs .sp).toNat) s
      raised s' → E raised s') :
    Runs p touched (nullCheck ctx i r ++ code) s Q E := by
  have hbranch := branches_bne (p := p) (s := s) r .zero (ctx.inside i "NotNull" 0)
  rw [hzero, hr] at hbranch
  have hraise : Runs p touched (throwHere .throwNullReference ++ .label (ctx.inside i "NotNull" 0) :: code) s Q E :=
    runs_throwHere hwf .nullReference haligned hroom htouched hE
  exact Runs.passed hwf.fits hbranch hraise

/-- The test of a raw pointer, where the policy asks for it. -/
theorem runs_guardIndirect {r : Reg} (hzero : s.regs .zero = 0)
    (hr : ctx.policy.guardIndirect = true → s.regs r ≠ 0) (h : Runs p touched code s Q E) :
    Runs p touched (guardIndirect ctx i r ++ code) s Q E := by
  unfold guardIndirect
  split
  · rename_i hguard
    exact runs_nullCheck ctx i hwf hzero (hr hguard) h
  · exact h

theorem runs_compareLength {length : UInt32}
    (hlength : s.memory.read (lengthAddress ctx (s.regs .t0)) 4 = .ok length)
    (haligned : (lengthAddress ctx (s.regs .t0)).toNat % 4 = 0)
    (htouched : lengthBytes ctx (s.regs .t0) ⊆ touched)
    (h : ∀ s', Scratched [.t4, .t8] s s' →
      (s'.regs .t8 != 0) = decide ((s.regs .t2).toInt32 < length.toInt32) → Runs p touched code s' Q E) :
    Runs p touched (.lw .t4 (Int32.ofNat ctx.options.layout.arrayLength) .t0 ::
      .setLess false .t8 .t2 .t4 :: code) s Q E := by
  refine .cons (steps_lw hwf.fits (by decide) rfl haligned hlength htouched) <|
    .cons (steps_alu hwf.fits .slt .t2 .t4 (by decide)) (h _ ?_ ?_)
  · exact .set (.set .refl (by decide) _) (by decide) _
  · rw [Snapshot.set_self, Snapshot.set_self, Snapshot.set_of_ne _ (by decide)]
    by_cases hless : (s.regs .t2).toInt32 < length.toInt32
    · rw [alu, if_pos hless, decide_eq_true hless]
      rfl
    · rw [alu, if_neg hless, decide_eq_false hless]
      rfl

theorem runs_boundsCheck {length : UInt32} (hzero : s.regs .zero = 0)
    (hlength : s.memory.read (lengthAddress ctx (s.regs .t0)) 4 = .ok length)
    (haligned : (lengthAddress ctx (s.regs .t0)).toNat % 4 = 0)
    (htouched : lengthBytes ctx (s.regs .t0) ⊆ touched) (hindex : InRange (s.regs .t2) length)
    (h : ∀ s', Scratched [.t4, .t8] s s' → Runs p touched code s' Q E) :
    Runs p touched (boundsCheck ctx i .t0 .t2 ++ code) s Q E := by
  have hlow := branches_bltz (p := p) (s := s) .t2 (ctx.inside i "OutOfRange" 1)
  rw [decide_eq_false (Int32.not_lt.mpr hindex.1)] at hlow
  refine Runs.passed hwf.fits hlow (runs_compareLength ctx hwf hlength haligned htouched fun s' hs' ht8 => ?_)
  have hhigh := branches_bne (p := p) (s := s') .t8 .zero (ctx.inside i "InRange" 2)
  rw [hs'.regs .zero (by decide), hzero, ht8, decide_eq_true hindex.2] at hhigh
  exact Runs.land (.label (ctx.inside i "OutOfRange" 1) :: throwHere .throwIndexOutOfRange)
    (jumps_branch hwf.fits hhigh) (.cons (steps_label hwf.fits (ctx.inside i "InRange" 2)) (h s' hs'))

theorem runs_boundsCheck_outside {length : UInt32} (hzero : s.regs .zero = 0)
    (hlength : s.memory.read (lengthAddress ctx (s.regs .t0)) 4 = .ok length)
    (haligned : (lengthAddress ctx (s.regs .t0)).toNat % 4 = 0)
    (hbytes : lengthBytes ctx (s.regs .t0) ⊆ touched) (hindex : ¬InRange (s.regs .t2) length)
    (hpointer : (s.regs .sp).toNat % 4 = 0) (hroom : Room (s.regs .sp) 1)
    (htouched : Set.Ico ((s.regs .sp).toNat - 4) (s.regs .sp).toNat ⊆ touched)
    (hE : ∀ raised s', Raised .indexOutOfRange (Set.Ico ((s.regs .sp).toNat - 4) (s.regs .sp).toNat) s
      raised s' → E raised s') :
    Runs p touched (boundsCheck ctx i .t0 .t2 ++ code) s Q E := by
  have hraise : ∀ s', Scratched [.t4, .t8] s s' → Runs p touched (.label (ctx.inside i "OutOfRange" 1) ::
      (throwHere .throwIndexOutOfRange ++ ([.label (ctx.inside i "InRange" 2)] ++ code))) s' Q E := by
    intro s' hs'
    have hsp : s'.regs .sp = s.regs .sp := hs'.regs .sp (by decide)
    rw [← hsp] at hpointer hroom htouched hE
    refine .cons (steps_label hwf.fits _) (runs_throwHere hwf .indexOutOfRange hpointer hroom htouched ?_)
    exact fun raised t ht => hE raised t (ht.after hs'.store.symm subset_rfl)
  have hlow := branches_bltz (p := p) (s := s) .t2 (ctx.inside i "OutOfRange" 1)
  by_cases hnegative : (s.regs .t2).toInt32 < 0
  · rw [decide_eq_true hnegative] at hlow
    exact Runs.land (.lw .t4 (Int32.ofNat ctx.options.layout.arrayLength) .t0 ::
      .setLess false .t8 .t2 .t4 :: Instr.bne .t8 .zero (ctx.inside i "InRange" 2))
      (jumps_branch hwf.fits hlow) (hraise s .refl)
  · rw [decide_eq_false hnegative] at hlow
    refine Runs.passed hwf.fits hlow (runs_compareLength ctx hwf hlength haligned hbytes fun s' hs' ht8 => ?_)
    have hhigh := branches_bne (p := p) (s := s') .t8 .zero (ctx.inside i "InRange" 2)
    rw [hs'.regs .zero (by decide), hzero, ht8,
      decide_eq_false fun hless => hindex ⟨Int32.not_lt.mp hnegative, hless⟩] at hhigh
    exact Runs.passed hwf.fits hhigh (hraise s' hs')

omit hwf in
theorem log2?_eq_some {n k : Nat} (h : log2? n = some k) : n = 2 ^ k := by
  unfold log2? at h
  split at h
  · rename_i hpow
    rw [← Option.some.inj h, ← Nat.one_shiftLeft, hpow]
  · cases h

/-- The index is scaled and added, by a shift or by a product. -/
theorem runs_scaleIndex {stride : Nat} (hstride : stride < 0x100000000) :
    Runs p touched (scaleIndex .t0 .t2 stride) s (fun s' => Scratched [.t0, .t2, .t5] s s' ∧
      s'.regs .t0 = s.regs .t0 + s.regs .t2 * UInt32.ofNat stride) E := by
  unfold scaleIndex
  split
  · rename_i k hk
    have hpow := log2?_eq_some hk
    split
    · rename_i hnone
      refine .one (steps_alu hwf.fits .addu .t0 .t2 (by decide)) ⟨.set .refl (by decide) _, ?_⟩
      rw [Snapshot.set_self, hpow, hnone, show UInt32.ofNat (2 ^ 0) = 1 from rfl, UInt32.mul_one]
      rfl
    · refine .cons (steps_shift hwf.fits .sll .t2 (UInt8.ofNat k) (by decide)) <|
        .one (steps_alu hwf.fits .addu .t0 .t2 (by decide))
          ⟨.set (.set .refl (by decide) _) (by decide) _, ?_⟩
      have hlt : k < 32 := by
        rw [hpow] at hstride
        exact (Nat.pow_lt_pow_iff_right (by decide)).mp hstride
      have hcount : (UInt8.ofNat k).toUInt32.toNat = k := by
        rw [UInt8.toNat_toUInt32, UInt8.toNat_ofNat_of_lt' (by rw [UInt8.size]; omega)]
      rw [Snapshot.set_self, Snapshot.set_self, Snapshot.set_of_ne _ (by decide),
        shiftBy_sll _ (by rw [hcount]; exact hlt), hcount, hpow, UInt32.ofNat_mul, UInt32.ofNat_toNat]
      rfl
  · refine .cons (steps_li hwf.fits (Int32.ofNat stride) (by decide)) <|
      Runs.product hwf.fits true (by decide) <| .one (steps_alu hwf.fits .addu .t0 .t5 (by decide)) ⟨?_, ?_⟩
    · exact .set (.set (.set .refl (by decide) _) (by decide) _) (by decide) _
    · rw [Snapshot.set_self, Snapshot.set_self, Snapshot.set_self, Snapshot.set_of_ne _ (by decide),
        Snapshot.set_of_ne _ (by decide), Snapshot.set_of_ne _ (by decide)]
      rfl

/-- A checked array and index become the address of the element less the header. -/
theorem runs_elementBase {length : UInt32} {stride : Nat} (hzero : s.regs .zero = 0) (harray : s.regs .t0 ≠ 0)
    (hlength : s.memory.read (lengthAddress ctx (s.regs .t0)) 4 = .ok length)
    (haligned : (lengthAddress ctx (s.regs .t0)).toNat % 4 = 0)
    (htouched : lengthBytes ctx (s.regs .t0) ⊆ touched) (hindex : InRange (s.regs .t2) length)
    (hstride : stride < 0x100000000) :
    Runs p touched (elementBase ctx i .t0 .t2 stride) s (fun s' => Scratched [.t0, .t2, .t4, .t5, .t8] s s' ∧
      s'.regs .t0 = s.regs .t0 + s.regs .t2 * UInt32.ofNat stride) E := by
  rw [elementBase, List.append_assoc]
  refine runs_nullCheck ctx i hwf hzero harray
    (runs_boundsCheck ctx i hwf hzero hlength haligned htouched hindex fun s' hs' => ?_)
  refine (runs_scaleIndex hwf hstride).mono ?_
  rintro t ⟨ht, haddress⟩
  refine ⟨(hs'.mono (by decide)).trans (ht.mono (by decide)), ?_⟩
  rw [haddress, hs'.regs .t0 (by decide), hs'.regs .t2 (by decide)]

/-- A check of an element that fails, whatever comes behind it. -/
theorem runs_elementBase_null {stride : Nat} (hzero : s.regs .zero = 0) (harray : s.regs .t0 = 0)
    (hpointer : (s.regs .sp).toNat % 4 = 0) (hroom : Room (s.regs .sp) 1)
    (htouched : Set.Ico ((s.regs .sp).toNat - 4) (s.regs .sp).toNat ⊆ touched)
    (hE : ∀ raised s', Raised .nullReference (Set.Ico ((s.regs .sp).toNat - 4) (s.regs .sp).toNat) s
      raised s' → E raised s') :
    Runs p touched (elementBase ctx i .t0 .t2 stride ++ code) s Q E := by
  rw [elementBase, List.append_assoc, List.append_assoc]
  exact runs_nullCheck_null ctx i hwf hzero harray hpointer hroom htouched hE

theorem runs_elementBase_outside {length : UInt32} {stride : Nat} (hzero : s.regs .zero = 0)
    (harray : s.regs .t0 ≠ 0) (hlength : s.memory.read (lengthAddress ctx (s.regs .t0)) 4 = .ok length)
    (haligned : (lengthAddress ctx (s.regs .t0)).toNat % 4 = 0)
    (hbytes : lengthBytes ctx (s.regs .t0) ⊆ touched) (hindex : ¬InRange (s.regs .t2) length)
    (hpointer : (s.regs .sp).toNat % 4 = 0) (hroom : Room (s.regs .sp) 1)
    (htouched : Set.Ico ((s.regs .sp).toNat - 4) (s.regs .sp).toNat ⊆ touched)
    (hE : ∀ raised s', Raised .indexOutOfRange (Set.Ico ((s.regs .sp).toNat - 4) (s.regs .sp).toNat) s
      raised s' → E raised s') :
    Runs p touched (elementBase ctx i .t0 .t2 stride ++ code) s Q E := by
  rw [elementBase, List.append_assoc, List.append_assoc]
  exact runs_nullCheck ctx i hwf hzero harray
    (runs_boundsCheck_outside ctx i hwf hzero hlength haligned hbytes hindex hpointer hroom htouched hE)

end Checks

end Stencil.Mips
