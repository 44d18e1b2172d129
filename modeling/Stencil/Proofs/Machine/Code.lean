import Stencil.Machine.Heap
import Stencil.Proofs.Machine.Link

/-!
# Code inside a program

Instruction `k` lies at `codeAddress k`. As long as the code ends below the intrinsics, addresses
name instructions one to one, and a fragment that is placed in a program has its labels there.
-/

namespace Stencil

open AddressMap

/-- Instructions that fit between the start of the code and the intrinsics. -/
def codeLimit : Nat := 0x1C000000

theorem toNat_codeAddress {k : Nat} (h : k ≤ codeLimit) :
    (codeAddress k).toNat = 0x80000000 + 4 * k := by
  have hk : k ≤ 0x1C000000 := h
  have hword : (UInt32.ofNat k).toNat = k := UInt32.toNat_ofNat_of_lt' (by simp [UInt32.size]; omega)
  simp only [codeAddress, codeBase, UInt32.toNat_add, UInt32.toNat_mul, hword, UInt32.reduceToNat]
  omega

theorem codeAddress_inj {j k : Nat} (hj : j ≤ codeLimit) (hk : k ≤ codeLimit) :
    codeAddress j = codeAddress k ↔ j = k := by
  rw [← UInt32.toNat_inj, toNat_codeAddress hj, toNat_codeAddress hk]
  omega

theorem codeAddress_succ (k : Nat) : codeAddress k + 4 = codeAddress (k + 1) := by
  simp only [codeAddress, UInt32.ofNat_add, UInt32.mul_add, UInt32.add_assoc]
  rfl

theorem atAddress?_codeAddress {k : Nat} (h : k < codeLimit) :
    Intrinsic.atAddress? (codeAddress k) = none := by
  have hlt : codeAddress k < intrinsicBase := by
    rw [UInt32.lt_iff_toNat_lt, toNat_codeAddress (Nat.le_of_lt h)]
    simp only [intrinsicBase, UInt32.reduceToNat]
    have : k < 0x1C000000 := h
    omega
  simp [Intrinsic.atAddress?, hlt]

namespace Program

variable {I : Type} {p : Program I}

theorem indexOf_codeAddress (hfits : p.code.size ≤ codeLimit) {k : Nat} (hk : k < p.code.size) :
    p.indexOf (codeAddress k) = .ok k := by
  have hle : k ≤ codeLimit := by omega
  have haddress := toNat_codeAddress hle
  have hbase : codeBase ≤ codeAddress k := by
    rw [UInt32.le_iff_toNat_le, haddress]
    simp [codeBase]
  have hoffset : (codeAddress k - codeBase).toNat = 4 * k := by
    rw [UInt32.toNat_sub_of_le _ _ hbase, haddress]
    simp [codeBase]
  have hindex : ((codeAddress k - codeBase) / 4).toNat = k := by
    simp [UInt32.toNat_div, hoffset]
  have halign : (codeAddress k - codeBase) % 4 = 0 := by
    simp [← UInt32.toNat_inj, UInt32.toNat_mod, hoffset]
  have hnot : ¬codeAddress k < codeBase := UInt32.not_lt.mpr hbase
  unfold indexOf
  simp only [hindex, halign]
  rw [if_neg]
  simp only [hnot, ne_eq, not_true_eq_false, false_or]
  omega

theorem runIntrinsic_stops {intrinsic : Intrinsic} (hnever : intrinsic.neverReturns = true)
    {sp site : UInt32} {store store' : Store} {value : Option UInt32} :
    p.runIntrinsic intrinsic sp site store ≠ .ok value store' := by
  intro hrun
  cases intrinsic with
  | callSite | release | newObject | newArray => cases hnever
  | throwNullReference | throwIndexOutOfRange | throwInvalidCast | throwObject | halt =>
    obtain ⟨_, _, _, hthrow⟩ := Stateful.bind_eq_ok.mp hrun
    cases hthrow

/-- Intrinsics without a return slot find their argument at the stack pointer. -/
theorem runIntrinsic_halt {sp site w : UInt32} {store : Store} (h : store.memory.read sp 4 = .ok w) :
    p.runIntrinsic .halt sp site store = .error (.halt w) store := by
  have hread : Store.readWord (sp + UInt32.ofNat Intrinsic.halt.returnBytes) store = .ok w store := by
    rw [show UInt32.ofNat Intrinsic.halt.returnBytes = 0 from rfl, UInt32.add_zero, Store.readWord,
      Store.read, h]
  exact Stateful.bind_of_ok hread

theorem runIntrinsic_throwNullReference {sp site w : UInt32} {store : Store}
    (h : store.memory.read sp 4 = .ok w) :
    p.runIntrinsic .throwNullReference sp site store = .error (.nullReference w) store := by
  have hread : Store.readWord (sp + UInt32.ofNat Intrinsic.throwNullReference.returnBytes) store =
      .ok w store := by
    rw [show UInt32.ofNat Intrinsic.throwNullReference.returnBytes = 0 from rfl, UInt32.add_zero,
      Store.readWord, Store.read, h]
  exact Stateful.bind_of_ok hread

theorem runIntrinsic_throwInvalidCast {sp site w : UInt32} {store : Store}
    (h : store.memory.read sp 4 = .ok w) :
    p.runIntrinsic .throwInvalidCast sp site store = .error (.invalidCast w) store := by
  have hread : Store.readWord (sp + UInt32.ofNat Intrinsic.throwInvalidCast.returnBytes) store =
      .ok w store := by
    rw [show UInt32.ofNat Intrinsic.throwInvalidCast.returnBytes = 0 from rfl, UInt32.add_zero,
      Store.readWord, Store.read, h]
  exact Stateful.bind_of_ok hread

theorem indexOf_ok {address : UInt32} {k : Nat} (h : p.indexOf address = .ok k) :
    address = codeAddress k ∧ ∃ instr, p.code[k]? = some instr := by
  unfold indexOf at h
  dsimp only at h
  split at h
  · cases h
  · rename_i hnot
    obtain rfl := Except.ok.inj h
    simp only [not_or, not_not, Nat.not_le] at hnot
    obtain ⟨-, hmod, hlt⟩ := hnot
    refine ⟨?_, p.code[_], Array.getElem?_eq_getElem hlt⟩
    have hoffset : 4 * ((address - codeBase) / 4) = address - codeBase := by
      rw [← UInt32.toNat_inj] at hmod ⊢
      rw [UInt32.toNat_mul, UInt32.toNat_div]
      rw [UInt32.toNat_mod] at hmod
      have hbound := (address - codeBase).toNat_lt
      simp only [UInt32.reduceToNat] at hmod ⊢
      omega
    rw [codeAddress, UInt32.ofNat_toNat, hoffset, UInt32.add_comm, UInt32.sub_add_cancel]

theorem indexOf_error {address : UInt32} {fault : Fault} (h : p.indexOf address = .error fault) :
    fault = .invalidInstruction address := by
  unfold indexOf at h
  dsimp only at h
  split at h
  · exact (Except.error.inj h).symm
  · cases h

variable [TargetInstr I]

/-- The code ends below the intrinsics, every label has the index of an instruction that binds it,
and the intrinsics have their own addresses. -/
structure WellFormed (p : Program I) : Prop where
  fits : p.code.size ≤ codeLimit
  labels : ∀ l k, p.labels[l]? = some k →
    ∃ instr, p.code[k]? = some instr ∧ TargetInstr.asLabel? instr = some l
  intrinsics : ∀ intrinsic : Intrinsic, ∃ address, p.resolve intrinsic.symbol = .ok address ∧
    Intrinsic.atAddress? address = some intrinsic

theorem WellFormed.labelAddress_ok (h : p.WellFormed) {l : Label} {address : UInt32}
    (hlabel : p.labelAddress l = .ok address) : ∃ k, p.labels[l]? = some k ∧ k < p.code.size ∧
      address = codeAddress k := by
  unfold labelAddress at hlabel
  split at hlabel
  · rename_i k hk
    obtain ⟨instr, hinstr, -⟩ := h.labels l k hk
    exact ⟨k, hk, (Array.getElem?_eq_some_iff.mp hinstr).1, (Except.ok.inj hlabel).symm⟩
  · cases hlabel

end Program

/-- The fragment `code` lies in the program from index `base` on, with its labels. -/
structure Placed {I : Type} [TargetInstr I] (p : Program I) (base : Nat) (code : List I) :
    Prop where
  fetch : ∀ (k : Nat) instr, code[k]? = some instr → p.code[base + k]? = some instr
  labels : ∀ (k : Nat) instr l, code[k]? = some instr → TargetInstr.asLabel? instr = some l →
    p.labels[l]? = some (base + k)

namespace Placed

variable {I : Type} [TargetInstr I] {p : Program I} {base : Nat} {code : List I}

theorem index_lt (h : Placed p base code) {k : Nat} (hk : k < code.length) :
    base + k < p.code.size := by
  have hat := h.fetch k code[k] (List.getElem?_eq_getElem hk)
  exact (Array.getElem?_eq_some_iff.mp hat).1

/-- The end of a fragment is at most the end of the program. -/
theorem end_le (h : Placed p base code) (hbase : base ≤ p.code.size) :
    base + code.length ≤ p.code.size := by
  cases hlength : code.length with
  | zero => exact hbase
  | succ n =>
    have := h.index_lt (k := n) (by omega)
    omega

theorem front {code' : List I} (h : Placed p base (code ++ code')) : Placed p base code where
  fetch k instr hk := h.fetch k instr (by
    rw [List.getElem?_append_left (List.getElem?_eq_some_iff.mp hk).1]
    exact hk)
  labels k instr l hk := h.labels k instr l (by
    rw [List.getElem?_append_left (List.getElem?_eq_some_iff.mp hk).1]
    exact hk)

theorem back {code' : List I} (h : Placed p base (code ++ code')) : Placed p (base + code.length) code' where
  fetch k instr hk := by
    rw [Nat.add_assoc]
    refine h.fetch _ instr ?_
    rw [List.getElem?_append_right (Nat.le_add_right _ _), Nat.add_sub_cancel_left]
    exact hk
  labels k instr l hk hlabel := by
    rw [Nat.add_assoc]
    refine h.labels _ instr l ?_ hlabel
    rw [List.getElem?_append_right (Nat.le_add_right _ _), Nat.add_sub_cancel_left]
    exact hk

end Placed

/-! ## Programs made from a list of instructions -/

section Layout

open Link

variable {I : Type} [TargetInstr I] {p : Program I} (code : List I)

/-- A program that was laid out from a list of instructions is well formed if the code fits and
nothing hides an intrinsic. -/
theorem Program.wellFormed_of_layout (hcode : p.code = code.toArray)
    (hlabels : p.labels = Std.HashMap.ofList (labelsFrom 0 code)) (hfits : code.length ≤ codeLimit)
    (bindings : List (Symbol × UInt32))
    (hsymbols : p.symbols = bindAll ∅ (intrinsicSymbols ++ bindings))
    (hhides : ∀ intrinsic : Intrinsic, intrinsic.symbol ∉ bindings.map Prod.fst) :
    p.WellFormed where
  fits := by simpa [hcode] using hfits
  labels l k hat := by
    rw [hlabels] at hat
    obtain ⟨j, instr, rfl, hinstr, hlabel⟩ := mem_labelsFrom.mp (mem_of_getElem?_ofList hat)
    refine ⟨instr, ?_, hlabel⟩
    rw [hcode, Nat.zero_add]
    simpa using hinstr
  intrinsics intrinsic := by
    obtain ⟨address, hat, hintrinsic⟩ := getElem?_intrinsicSymbols intrinsic
    refine ⟨address, ?_, hintrinsic⟩
    rw [Program.resolve, hsymbols, bindAll_append,
      getElem?_bindAll_of_notMem (hhides intrinsic), hat]

/-- Every part of the list is placed, with its labels if none is bound twice. -/
theorem Placed.of_layout (hcode : p.code = code.toArray)
    (hlabels : p.labels = Std.HashMap.ofList (labelsFrom 0 code)) (hnodup : (boundLabels code).Nodup)
    (before part after : List I) (hpart : code = before ++ part ++ after) :
    Placed p before.length part := by
  have hat : ∀ (k : Nat) instr, part[k]? = some instr → code[before.length + k]? = some instr := by
    intro k instr hinstr
    have hk := (List.getElem?_eq_some_iff.mp hinstr).1
    rw [hpart, List.append_assoc, List.getElem?_append_right (by omega),
      Nat.add_sub_cancel_left, List.getElem?_append_left hk, hinstr]
  constructor
  · intro k instr hinstr
    rw [hcode]
    simpa using hat k instr hinstr
  · intro k instr l hinstr hlabel
    rw [hlabels]
    refine Std.HashMap.getElem?_ofList_of_mem (k := l) (by simp) ?_
      (mem_labelsFrom.mpr ⟨_, instr, (Nat.zero_add _).symm, hat k instr hinstr, hlabel⟩)
    rw [← map_fst_labelsFrom 0, List.Nodup, List.pairwise_map] at hnodup
    exact hnodup.imp fun hne => by simpa using hne

end Layout

end Stencil
