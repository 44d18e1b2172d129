import Stencil.Proofs.Access.Places
import Stencil.Proofs.X86.Copies
import Stencil.X86.Guard

/-!
# Checks on x86

A check that passes changes nothing; one that fails raises its exception after nothing but a push. The
address of an element is formed only behind both checks of it.
-/

namespace Stencil.X86

open AddressMap

section Checks

variable {p : Program Instr} {touched : Set Nat} {s : Snapshot Reg} {code : List Instr}
  {Q : Snapshot Reg → Prop} {E : Fault → Snapshot Reg → Prop} (ctx : EmitContext) (i : Instruction)
  (hwf : p.WellFormed)

include hwf

theorem runs_throwHere {intrinsic : Intrinsic} {fault : UInt32 → Fault} (hraises : Raises intrinsic fault)
    (hroom : Room (s.regs .esp) 1)
    (htouched : Set.Ico ((s.regs .esp).toNat - 4) (s.regs .esp).toNat ⊆ touched)
    (hE : ∀ raised s', Raised fault (Set.Ico ((s.regs .esp).toNat - 4) (s.regs .esp).toNat) s raised s' →
      E raised s') :
    Runs p touched (throwHere intrinsic ++ code) s Q E := by
  refine Runs.callSite hwf fun site => ?_
  let told := s.set .eax site
  have htold : Scratched [.eax] s told := .set .refl (by decide) site
  have hesp : told.regs .esp = s.regs .esp := htold.regs .esp (by decide)
  have hroom' : Room (told.regs .esp) 1 := by rwa [hesp]
  have hpushed := Pushed.after htold (Pushed.one (w := site) hroom') (by decide)
  have hslot : Set.Ico (told.regs .esp - 4).toNat ((told.regs .esp - 4).toNat + 4) ⊆ touched := by
    rw [hroom'.slot, hesp]
    exact htouched
  refine .cons (steps_pushReg hwf.fits hroom' hslot) ?_
  rw [Snapshot.set_self]
  refine .fault (faults_raise hwf hraises (hpushed.top hroom).2 ?_) (hE _ _ (hpushed.raised hroom fault rfl))
  rwa [Snapshot.set_self]

theorem runs_nullCheck {r : Reg} (hr : s.regs r ≠ 0) (h : Runs p touched code s Q E) :
    Runs p touched (nullCheck ctx i r ++ code) s Q E := by
  have hjump : JumpsWithin p touched [.testReg r, .jcc .ne (ctx.inside i "NotNull" 0)] s
      (ctx.inside i "NotNull" 0) s := by
    refine jumps_jcc hwf.fits ?_
    rw [← bne_iff_ne.mpr hr]
    exact tests_testReg r
  exact Runs.land (throwHere .throwNullReference) hjump (.cons (steps_label hwf.fits _) h)

theorem runs_nullCheck_null {r : Reg} (hr : s.regs r = 0) (hroom : Room (s.regs .esp) 1)
    (htouched : Set.Ico ((s.regs .esp).toNat - 4) (s.regs .esp).toNat ⊆ touched)
    (hE : ∀ raised s', Raised .nullReference (Set.Ico ((s.regs .esp).toNat - 4) (s.regs .esp).toNat) s
      raised s' → E raised s') :
    Runs p touched (nullCheck ctx i r ++ code) s Q E := by
  have htest : Tests p touched (.testReg r) s .ne (s.regs r != 0) := tests_testReg r
  rw [hr] at htest
  have hraise : Runs p touched (throwHere .throwNullReference ++ .label (ctx.inside i "NotNull" 0) :: code) s Q E :=
    runs_throwHere hwf .nullReference hroom htouched hE
  exact Runs.passed hwf.fits htest hraise

/-- The test of a raw pointer, where the policy asks for it. -/
theorem runs_guardIndirect {r : Reg} (hr : ctx.policy.guardIndirect = true → s.regs r ≠ 0)
    (h : Runs p touched code s Q E) : Runs p touched (guardIndirect ctx i r ++ code) s Q E := by
  unfold guardIndirect
  split
  · rename_i hguard
    exact runs_nullCheck ctx i hwf (hr hguard) h
  · exact h

omit hwf in
theorem tests_length {array : Reg} (index : Reg) {length : UInt32}
    (hlength : s.memory.read (lengthAddress ctx (s.regs array)) 4 = .ok length)
    (htouched : lengthBytes ctx (s.regs array) ⊆ touched) :
    Tests p touched
      (.alu .cmp (.reg index) (.mem .dword (.based array (Int32.ofNat ctx.options.layout.arrayLength)))) s .l
      (decide ((s.regs index).toInt32 < length.toInt32)) := by
  refine tests_cmp fun m hm => ?_
  subst hm
  exact acts_readMem (Mem.Names.based ..) hlength htouched

omit hwf in
theorem tests_negative (index : Reg) :
    Tests p touched (.aluImm .cmp index 0) s .l (decide ((s.regs index).toInt32 < 0)) :=
  tests_cmp fun _ _ => .pure _

theorem runs_boundsCheck {array index : Reg} {length : UInt32}
    (hlength : s.memory.read (lengthAddress ctx (s.regs array)) 4 = .ok length)
    (htouched : lengthBytes ctx (s.regs array) ⊆ touched) (hindex : InRange (s.regs index) length)
    (h : Runs p touched code s Q E) :
    Runs p touched (boundsCheck ctx i array index ++ code) s Q E := by
  have hlow : Tests p touched (.aluImm .cmp index 0) s .l (decide ((s.regs index).toInt32 < 0)) :=
    tests_negative index
  rw [decide_eq_false (Int32.not_lt.mpr hindex.1)] at hlow
  have hhigh := tests_length ctx (p := p) index hlength htouched
  rw [decide_eq_true hindex.2] at hhigh
  refine Runs.passed (l := ctx.inside i "OutOfRange" 1) hwf.fits hlow ?_
  exact Runs.land (.label (ctx.inside i "OutOfRange" 1) :: throwHere .throwIndexOutOfRange)
    (jumps_jcc hwf.fits hhigh) (.cons (steps_label hwf.fits (ctx.inside i "InRange" 2)) h)

theorem runs_boundsCheck_outside {array index : Reg} {length : UInt32}
    (hlength : s.memory.read (lengthAddress ctx (s.regs array)) 4 = .ok length)
    (hbytes : lengthBytes ctx (s.regs array) ⊆ touched) (hindex : ¬InRange (s.regs index) length)
    (hroom : Room (s.regs .esp) 1)
    (htouched : Set.Ico ((s.regs .esp).toNat - 4) (s.regs .esp).toNat ⊆ touched)
    (hE : ∀ raised s', Raised .indexOutOfRange (Set.Ico ((s.regs .esp).toNat - 4) (s.regs .esp).toNat) s
      raised s' → E raised s') :
    Runs p touched (boundsCheck ctx i array index ++ code) s Q E := by
  have hraise : Runs p touched (.label (ctx.inside i "OutOfRange" 1) :: (throwHere .throwIndexOutOfRange ++
      ([.label (ctx.inside i "InRange" 2)] ++ code))) s Q E :=
    .cons (steps_label hwf.fits _) (runs_throwHere hwf .indexOutOfRange hroom htouched hE)
  have hlow : Tests p touched (.aluImm .cmp index 0) s .l (decide ((s.regs index).toInt32 < 0)) :=
    tests_negative index
  by_cases hnegative : (s.regs index).toInt32 < 0
  · rw [decide_eq_true hnegative] at hlow
    exact Runs.land [.alu .cmp (.reg index)
      (.mem .dword (.based array (Int32.ofNat ctx.options.layout.arrayLength))), .jcc .l (ctx.inside i "InRange" 2)]
      (jumps_jcc hwf.fits hlow) hraise
  · have hhigh := tests_length ctx (p := p) index hlength hbytes
    rw [decide_eq_false fun hless => hindex ⟨Int32.not_lt.mp hnegative, hless⟩] at hhigh
    rw [decide_eq_false hnegative] at hlow
    exact Runs.passed hwf.fits hlow (Runs.passed hwf.fits hhigh hraise)

theorem runs_scaleIndex {array index : Reg} (hne : array ≠ index) (stride : Nat) :
    Runs p touched (scaleIndex array index stride) s (fun s' => Scratched [array, index] s s' ∧
      s'.regs array = s.regs array + s.regs index * UInt32.ofNat stride) E := by
  unfold scaleIndex
  split
  · rename_i hone
    refine .one (steps_aluReg hwf.fits .add (by decide) array index (alu_add _ _)) ⟨?_, ?_⟩
    · exact .set .refl List.mem_cons_self _
    · rw [Snapshot.set_self, hone, show UInt32.ofNat 1 = 1 from rfl, UInt32.mul_one]
  · refine .cons (steps_imulImm hwf.fits index index (Int32.ofNat stride)) <|
      .one (steps_aluReg hwf.fits .add (by decide) array index (alu_add _ _)) ⟨?_, ?_⟩
    · exact .set (.set .refl (List.mem_cons_of_mem _ List.mem_cons_self) _) List.mem_cons_self _
    · rw [Snapshot.set_self, Snapshot.set_self, Snapshot.set_of_ne _ hne]
      rfl

/-- A checked array and index become the address of the element less the header. -/
theorem runs_elementBase {array index : Reg} {length : UInt32} (hne : array ≠ index) (harray : s.regs array ≠ 0)
    (hlength : s.memory.read (lengthAddress ctx (s.regs array)) 4 = .ok length)
    (htouched : lengthBytes ctx (s.regs array) ⊆ touched) (hindex : InRange (s.regs index) length)
    (stride : Nat) :
    Runs p touched (elementBase ctx i array index stride) s (fun s' => Scratched [array, index] s s' ∧
      s'.regs array = s.regs array + s.regs index * UInt32.ofNat stride) E := by
  rw [elementBase, List.append_assoc]
  exact runs_nullCheck ctx i hwf harray
    (runs_boundsCheck ctx i hwf hlength htouched hindex (runs_scaleIndex hwf hne stride))

/-- A check of an element that fails, whatever comes behind it. -/
theorem runs_elementBase_null {array index : Reg} {stride : Nat} (harray : s.regs array = 0)
    (hroom : Room (s.regs .esp) 1)
    (htouched : Set.Ico ((s.regs .esp).toNat - 4) (s.regs .esp).toNat ⊆ touched)
    (hE : ∀ raised s', Raised .nullReference (Set.Ico ((s.regs .esp).toNat - 4) (s.regs .esp).toNat) s
      raised s' → E raised s') :
    Runs p touched (elementBase ctx i array index stride ++ code) s Q E := by
  rw [elementBase, List.append_assoc, List.append_assoc]
  exact runs_nullCheck_null ctx i hwf harray hroom htouched hE

theorem runs_elementBase_outside {array index : Reg} {length : UInt32} {stride : Nat}
    (harray : s.regs array ≠ 0) (hlength : s.memory.read (lengthAddress ctx (s.regs array)) 4 = .ok length)
    (hbytes : lengthBytes ctx (s.regs array) ⊆ touched) (hindex : ¬InRange (s.regs index) length)
    (hroom : Room (s.regs .esp) 1)
    (htouched : Set.Ico ((s.regs .esp).toNat - 4) (s.regs .esp).toNat ⊆ touched)
    (hE : ∀ raised s', Raised .indexOutOfRange (Set.Ico ((s.regs .esp).toNat - 4) (s.regs .esp).toNat) s
      raised s' → E raised s') :
    Runs p touched (elementBase ctx i array index stride ++ code) s Q E := by
  rw [elementBase, List.append_assoc, List.append_assoc]
  exact runs_nullCheck ctx i hwf harray
    (runs_boundsCheck_outside ctx i hwf hlength hbytes hindex hroom htouched hE)

end Checks

end Stencil.X86
