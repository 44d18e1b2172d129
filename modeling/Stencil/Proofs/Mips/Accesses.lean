import Stencil.Proofs.Execution.Moves
import Stencil.Proofs.Mips.Checks
import Stencil.Mips.Backend

/-!
# Loads and stores on MIPS32

The template of an access is a front that leaves the place of the value in `$t0` and a displacement, and the
code that moves the value.
-/

namespace Stencil.Mips

open AddressMap Stateful

def scratch : List Reg := [.t0, .t2, .t4, .t5, .t6, .t7, .t8]

/-! ## Displacements and alignments -/

section Displacements

variable {ctx : EmitContext} {i : Instruction} {field : FieldDescriptor} {access : Access} {d : Int32}

theorem toUInt32_displacement {n : Nat} (h : displacement i n = .ok d) : d.toUInt32 = UInt32.ofNat n := by
  rw [displacement_ok h, Meaning.toUInt32_ofInt, Meaning.ofInt_natCast]

theorem toUInt32_reachableField (h : reachableField ctx i = .ok (field, access, d)) :
    ctx.fieldAccess i = .ok (field, access) ∧ d.toUInt32 = UInt32.ofNat field.offset := by
  obtain ⟨⟨field', access'⟩, haccess, h⟩ := answer_bind.mp h
  obtain ⟨offset, hoffset, h⟩ := answer_bind.mp h
  obtain ⟨stop, -, h⟩ := answer_bind.mp h
  obtain ⟨rfl, hpair⟩ := Prod.mk.inj (Except.ok.inj h)
  obtain ⟨rfl, rfl⟩ := Prod.mk.inj hpair
  exact ⟨haccess, toUInt32_displacement hoffset⟩

/-- Header and stride of an array of which elements can be reached. -/
theorem toUInt32_elementOffset (h : elementOffset ctx i access = .ok d) :
    d.toUInt32 = UInt32.ofNat ctx.options.layout.arrayHeader ∧ access.storage < 0x100000000 := by
  unfold elementOffset at h
  cases hend : displacement i (ctx.options.layout.arrayHeader + access.storage) with
  | error e =>
    rw [hend] at h
    cases h
  | ok stop =>
    rw [hend] at h
    obtain rfl := Except.ok.inj h
    constructor
    · rw [Int32.toUInt32_sub, displacement_ok hend, Meaning.toUInt32_ofInt, UInt32.ofInt_add,
        Meaning.ofInt_natCast, Meaning.ofInt_natCast]
      exact UInt32.add_sub_cancel _ _
    · unfold displacement at hend
      split at hend
      · omega
      · cases hend

theorem offsetAlignment_known (offset : Nat) : offsetAlignment offset ∈ [1, 2, 4] := by
  unfold offsetAlignment
  split_ifs <;> decide

theorem elementAlignment_known : elementAlignment ctx access ∈ [1, 2, 4] := by
  have hmin : ∀ {a b : Nat}, a ∈ [1, 2, 4] → b ∈ [1, 2, 4] → min a b ∈ [1, 2, 4] := fun ha hb => by
    rcases Nat.le_total _ _ with hle | hle
    · rwa [Nat.min_eq_left hle]
    · rwa [Nat.min_eq_right hle]
  exact hmin (offsetAlignment_known _) (offsetAlignment_known _)

theorem indirectAlignment_known : indirectAlignment ctx access ∈ [1, 2, 4] := by
  unfold indirectAlignment
  split
  · unfold Access.naturalAlignment
    split <;> decide
  · decide

end Displacements

theorem align_known {ctx : EmitContext} {i : Instruction} {p : Program Instr} {memory : Memory} {site : Site}
    {place : Place} (h : Locates ctx i p memory site place) : place.align ∈ [1, 2, 4] := by
  cases h with
  | field => exact offsetAlignment_known _
  | static => exact show 4 ∈ [1, 2, 4] by decide
  | indirect => exact indirectAlignment_known
  | element => exact elementAlignment_known

section Fronts

variable {p : Program Instr} {touched : Set Nat} {s : Snapshot Reg} {E : Fault → Snapshot Reg → Prop}
  {ctx : EmitContext} {i : Instruction} {e : Effect} {site : Site} {place : Place} {rest : List UInt32}
  (hwf : p.WellFormed)

include hwf

theorem runs_pop {code : List Instr} {Q : Snapshot Reg → Prop} {t : Snapshot Reg} {r : Reg}
    (before : List UInt32) {w : UInt32} (hr : r ∈ scratch) (hstack : OnStack Instr (before ++ w :: rest) s)
    (ht : Scratched scratch (s.dropped Instr before.length) t)
    (htouched : slots (s.regs .sp) 0 (before.length + 1) ⊆ touched)
    (h : ∀ t', Scratched scratch (s.dropped Instr (before.length + 1)) t' → t'.regs r = w →
      (∀ r' ≠ r, r' ≠ .sp → t'.regs r' = t.regs r') → Runs p touched code t' Q E) :
    Runs p touched (Instr.pop r ++ code) t Q E := by
  have hpointer : t.regs .sp = s.regs .sp + UInt32.ofNat (4 * before.length) :=
    (ht.regs .sp (by decide)).trans (Snapshot.set_self ..)
  have hread : t.memory.read (t.regs .sp) 4 = .ok w := by
    rw [hpointer, Snapshot.memory, ht.store]
    exact hstack.read
  have hslot : Set.Ico (t.regs .sp).toNat ((t.regs .sp).toNat + 4) ⊆ touched := by
    rw [hpointer]
    exact hstack.slot.trans htouched
  have haligned : (t.regs .sp).toNat % 4 = 0 := by
    rw [hpointer]
    exact hstack.slot_aligned rfl
  have hne : r ≠ .sp ∧ r ≠ .zero := by
    constructor <;> rintro rfl <;> revert hr <;> decide
  refine Runs.pop hwf.fits hne.1 hne.2 haligned hread hslot (h _ ?_ ?_ ?_)
  · have hpop : Scratched scratch (s.dropped Instr (before.length + 1))
        ((t.set r w).set .sp ((t.set r w).regs .sp + 4)) := (ht.set hr w).pop (by decide)
    rwa [Snapshot.set_of_ne _ hne.1.symm] at hpop
  · rw [Snapshot.set_of_ne _ hne.1, Snapshot.set_self]
  · intro r' hr' hsp
    rw [Snapshot.set_of_ne _ hsp, Snapshot.set_of_ne _ hr']

/-- A word of the stack is loaded into a scratch register. -/
theorem runs_peek {code : List Instr} {Q : Snapshot Reg → Prop} {t : Snapshot Reg} {r : Reg}
    {before : List UInt32} {w : UInt32} {disp : Int32} (hr : r ∈ scratch)
    (hstack : OnStack Instr (before ++ w :: rest) s) (hdisp : disp.toUInt32 = UInt32.ofNat (4 * before.length))
    (ht : Scratched scratch s t) (htouched : slots (s.regs .sp) 0 (before.length + 1) ⊆ touched)
    (h : ∀ t', Scratched scratch s t' → t'.regs r = w → (∀ r' ≠ r, t'.regs r' = t.regs r') →
      Runs p touched code t' Q E) :
    Runs p touched (.lw r disp .sp :: code) t Q E := by
  have hread : t.memory.read (s.regs .sp + UInt32.ofNat (4 * before.length)) 4 = .ok w := by
    rw [Snapshot.memory, ht.store]
    exact hstack.read
  have hne : r ≠ .zero := by
    rintro rfl
    revert hr
    decide
  refine .cons (steps_lw hwf.fits hne ?_ (hstack.slot_aligned rfl) hread (hstack.slot.trans htouched))
    (h _ (ht.set hr w) ?_ ?_)
  · rw [ht.regs .sp (by decide), hdisp]
    rfl
  · exact Snapshot.set_self ..
  · exact fun r' hr' => Snapshot.set_of_ne _ hr' _

theorem runs_popTwo {code : List Instr} {Q : Snapshot Reg → Prop} {array index : UInt32}
    (hstack : OnStack Instr (index :: array :: rest) s) (hslots : slots (s.regs .sp) 0 2 ⊆ touched)
    (h : ∀ t, Scratched scratch (s.dropped Instr 2) t → t.regs .t0 = array → t.regs .t2 = index →
      Runs p touched code t Q E) :
    Runs p touched (Instr.pop .t2 ++ (Instr.pop .t0 ++ code)) s Q E := by
  refine runs_pop hwf [] (by decide) hstack .dropped_zero
    ((slots_subset (Nat.le_refl 0) (Nat.le_succ 1)).trans hslots) fun t ht ht2 _ => ?_
  refine runs_pop hwf [index] (by decide) hstack ht hslots fun t' ht' ht0 hkept => ?_
  exact h t' ht' ht0 ((hkept .t2 (by decide) (by decide)).trans ht2)

theorem runs_peekTwo {code : List Instr} {Q : Snapshot Reg → Prop} {value : List UInt32} {array index : UInt32}
    {disp : Int32} (hdisp : displacement i (((e.operand 0).size : Int) + 4) = .ok disp)
    (hsize : (e.operand 0).size = 4 * value.length) (hstack : OnStack Instr (value ++ ([index, array] ++ rest)) s)
    (hslots : slots (s.regs .sp) 0 (value.length + 2) ⊆ touched)
    (h : ∀ t, Scratched scratch s t → t.regs .t0 = array → t.regs .t2 = index → Runs p touched code t Q E) :
    Runs p touched (.lw .t0 disp .sp :: .lw .t2 (disp - 4) .sp :: code) s Q E := by
  have hstack' : OnStack Instr ((value ++ [index]) ++ array :: rest) s := by
    rwa [List.append_assoc]
  have harray : disp.toUInt32 = UInt32.ofNat (4 * (value ++ [index]).length) := by
    have hcast : ((e.operand 0).size : Int) + 4 = ((4 * (value ++ [index]).length : Nat) : Int) := by
      rw [List.length_append, hsize]
      simp only [List.length_cons, List.length_nil]
      omega
    rw [hcast] at hdisp
    exact toUInt32_displacement hdisp
  have hindex : (disp - 4).toUInt32 = UInt32.ofNat (4 * value.length) := by
    rw [Int32.toUInt32_sub, harray, List.length_append, Nat.mul_add, UInt32.ofNat_add]
    exact UInt32.add_sub_cancel _ _
  refine runs_peek hwf (by decide) hstack' harray .refl ?_ fun t ht ht0 _ => ?_
  · rw [List.length_append]
    exact hslots
  refine runs_peek hwf (by decide) hstack hindex ht ?_ fun t' ht' ht2 hkept => ?_
  · exact (slots_subset (Nat.le_refl 0) (by omega)).trans hslots
  exact h t' ht' ((hkept .t0 (by decide)).trans ht0) ht2

section Places

variable {s₀ t : Snapshot Reg} {d : Int32} (ht : Scratched scratch s₀ t) (hzero : s₀.regs .zero = 0)

include ht hzero

theorem runs_fieldPlace {object : UInt32} (ht0 : t.regs .t0 = object) (hobject : object ≠ 0) {offset : Nat}
    (hd : d.toUInt32 = UInt32.ofNat offset) :
    Runs p touched (nullCheck ctx i .t0) t (fun t' => Scratched scratch s₀ t' ∧
      t'.regs .t0 + d.toUInt32 = object + UInt32.ofNat offset) E := by
  have hzero' : t.regs .zero = 0 := (ht.regs .zero (by decide)).trans hzero
  rw [← List.append_nil (nullCheck ctx i .t0)]
  refine runs_nullCheck ctx i hwf hzero' (by rwa [ht0]) (.nil ⟨ht, ?_⟩)
  rw [ht0, hd]

theorem runs_indirectPlace {a : UInt32} (ht0 : t.regs .t0 = a)
    (hguard : ctx.policy.guardIndirect = true → a ≠ 0) :
    Runs p touched (guardIndirect ctx i .t0) t (fun t' => Scratched scratch s₀ t' ∧
      t'.regs .t0 + (0 : Int32).toUInt32 = a) E := by
  have hzero' : t.regs .zero = 0 := (ht.regs .zero (by decide)).trans hzero
  rw [← List.append_nil (guardIndirect ctx i .t0)]
  refine runs_guardIndirect ctx i hwf hzero' (fun hpolicy => by rw [ht0]; exact hguard hpolicy) (.nil ⟨ht, ?_⟩)
  rw [ht0]
  exact UInt32.add_zero a

theorem runs_elementPlace {array index length : UInt32} {access : Access} (ht0 : t.regs .t0 = array)
    (ht2 : t.regs .t2 = index) (harray : array ≠ 0) (hlength : HasLength Instr ctx s₀.memory array length)
    (hindex : InRange index length) (htouched : lengthBytes ctx array ⊆ touched)
    (hd : elementOffset ctx i access = .ok d) :
    Runs p touched (elementBase ctx i .t0 .t2 access.storage) t (fun t' => Scratched scratch s₀ t' ∧
      t'.regs .t0 + d.toUInt32 = elementAddress ctx array index access.storage) E := by
  have hzero' : t.regs .zero = 0 := (ht.regs .zero (by decide)).trans hzero
  have hmemory : t.memory = s₀.memory := ht.memory_eq
  obtain ⟨hheader, hstride⟩ := toUInt32_elementOffset hd
  rw [← hmemory] at hlength
  refine (runs_elementBase ctx i hwf hzero' (by rwa [ht0]) (by rw [ht0]; exact hlength.read)
    (by rw [ht0]; exact hlength.aligned rfl) (by rwa [ht0]) (by rwa [ht2]) hstride).mono ?_
  rintro t' ⟨ht', haddress⟩
  refine ⟨ht.trans (ht'.mono (by decide)), ?_⟩
  rw [haddress, ht0, ht2, hheader, elementAddress, add_right_comm]

end Places

/-- Operands are popped, checked, and lead to the place of the value. -/
theorem runs_loadFront (hzero : s.regs .zero = 0) (hop : i.op.operation = site.load)
    (hfailure : (emit ctx i e).failure = none) (hlocates : Locates ctx i p s.memory site place)
    (hstack : OnStack Instr (place.operands ++ rest) s) (hconsulted : place.consulted ⊆ touched)
    (hslots : slots (s.regs .sp) 0 place.operands.length ⊆ touched) :
    ∃ front d, (emit ctx i e).code = front ++
        pushFromMemory .t0 d place.access.storage place.access.signed place.align ∧
      Runs p touched front s (fun t => Scratched scratch (s.dropped Instr place.operands.length) t ∧
        t.regs .t0 + d.toUInt32 = place.address) E := by
  rw [emit, hop] at hfailure ⊢
  cases hlocates with
  | @field field access object hfield hobject =>
    obtain ⟨⟨field', access', d⟩, hreach, hcode⟩ := answer_bind.mp (Template.ofExcept_ok hfailure)
    obtain ⟨hfield', hd⟩ := toUInt32_reachableField hreach
    obtain ⟨rfl, rfl⟩ := Prod.mk.inj (Except.ok.inj (hfield.symm.trans hfield'))
    refine ⟨Instr.pop .t0 ++ nullCheck ctx i .t0, d, (Except.ok.inj hcode).symm, ?_⟩
    refine runs_pop hwf [] (by decide) hstack .dropped_zero hslots fun t ht ht0 _ => ?_
    exact runs_fieldPlace hwf ht hzero ht0 hobject hd
  | @static field access a hfield hresolve =>
    obtain ⟨⟨field', access', d⟩, hreach, hcode⟩ := answer_bind.mp (Template.ofExcept_ok hfailure)
    obtain ⟨hfield', -⟩ := toUInt32_reachableField hreach
    obtain ⟨rfl, rfl⟩ := Prod.mk.inj (Except.ok.inj (hfield.symm.trans hfield'))
    refine ⟨[.la .t0 field.symbol], 0, (Except.ok.inj hcode).symm, ?_⟩
    refine .one (steps_la hwf.fits (by decide) hresolve) ⟨.set .dropped_zero (by decide) a, ?_⟩
    rw [Snapshot.set_self]
    exact UInt32.add_zero a
  | @indirect kind access a haccess hguard =>
    obtain ⟨access', haccess', hcode⟩ := answer_bind.mp (Template.ofExcept_ok hfailure)
    obtain rfl := Except.ok.inj (haccess.symm.trans haccess')
    refine ⟨Instr.pop .t0 ++ guardIndirect ctx i .t0, 0, (Except.ok.inj hcode).symm, ?_⟩
    refine runs_pop hwf [] (by decide) hstack .dropped_zero hslots fun t ht ht0 _ => ?_
    exact runs_indirectPlace hwf ht hzero ht0 hguard
  | @element kind access array index length haccess harray hlength hindex =>
    obtain ⟨access', haccess', hcode⟩ := answer_bind.mp (Template.ofExcept_ok hfailure)
    obtain rfl := Except.ok.inj (haccess.symm.trans haccess')
    obtain ⟨d, hd, hcode⟩ := answer_bind.mp hcode
    refine ⟨Instr.pop .t2 ++ Instr.pop .t0 ++ elementBase ctx i .t0 .t2 access.storage, d,
      (Except.ok.inj hcode).symm, ?_⟩
    rw [List.append_assoc]
    exact runs_popTwo hwf hstack hslots fun t ht ht0 ht2 =>
      runs_elementPlace hwf ht hzero ht0 ht2 harray hlength hindex hconsulted hd

/-- Operands are loaded from under the value, checked, and lead to its place. -/
theorem runs_storeFront {value : List UInt32} (hzero : s.regs .zero = 0) (hop : i.op.operation = site.store)
    (hfailure : (emit ctx i e).failure = none) (hsize : (e.operand 0).size = 4 * value.length)
    (hlocates : Locates ctx i p s.memory site place)
    (hstack : OnStack Instr (value ++ (place.operands ++ rest)) s) (hconsulted : place.consulted ⊆ touched)
    (hslots : slots (s.regs .sp) 0 (value.length + place.operands.length) ⊆ touched) :
    ∃ front d, (emit ctx i e).code = front ++ (popToMemory .t0 d place.access.storage place.align ++
        Instr.drop (4 * place.operands.length)) ∧
      Runs p touched front s (fun t => Scratched scratch s t ∧ t.regs .t0 + d.toUInt32 = place.address) E := by
  rw [emit, hop] at hfailure ⊢
  cases hlocates with
  | @field field access object hfield hobject =>
    obtain ⟨⟨field', access', d⟩, hreach, hcode⟩ := answer_bind.mp (Template.ofExcept_ok hfailure)
    obtain ⟨hfield', hd⟩ := toUInt32_reachableField hreach
    obtain ⟨rfl, rfl⟩ := Prod.mk.inj (Except.ok.inj (hfield.symm.trans hfield'))
    obtain ⟨disp, hdisp, hcode⟩ := answer_bind.mp hcode
    rw [hsize] at hdisp
    refine ⟨[.lw .t0 disp .sp] ++ nullCheck ctx i .t0, d, ?_, ?_⟩
    · rw [← List.append_assoc]
      exact (Except.ok.inj hcode).symm
    · refine runs_peek hwf (by decide) hstack (toUInt32_displacement hdisp) .refl hslots fun t ht ht0 _ => ?_
      exact runs_fieldPlace hwf ht hzero ht0 hobject hd
  | @static field access a hfield hresolve =>
    obtain ⟨⟨field', access', d⟩, hreach, hcode⟩ := answer_bind.mp (Template.ofExcept_ok hfailure)
    obtain ⟨hfield', -⟩ := toUInt32_reachableField hreach
    obtain ⟨rfl, rfl⟩ := Prod.mk.inj (Except.ok.inj (hfield.symm.trans hfield'))
    refine ⟨[.la .t0 field.symbol], 0, ?_, ?_⟩
    · rw [← List.append_assoc]
      exact (Except.ok.inj hcode).symm.trans (List.append_nil _).symm
    · refine .one (steps_la hwf.fits (by decide) hresolve) ⟨.set .refl (by decide) a, ?_⟩
      rw [Snapshot.set_self]
      exact UInt32.add_zero a
  | @indirect kind access a haccess hguard =>
    obtain ⟨access', haccess', hcode⟩ := answer_bind.mp (Template.ofExcept_ok hfailure)
    obtain rfl := Except.ok.inj (haccess.symm.trans haccess')
    obtain ⟨disp, hdisp, hcode⟩ := answer_bind.mp hcode
    rw [hsize] at hdisp
    refine ⟨[.lw .t0 disp .sp] ++ guardIndirect ctx i .t0, 0, ?_, ?_⟩
    · rw [← List.append_assoc]
      exact (Except.ok.inj hcode).symm
    · refine runs_peek hwf (by decide) hstack (toUInt32_displacement hdisp) .refl hslots fun t ht ht0 _ => ?_
      exact runs_indirectPlace hwf ht hzero ht0 hguard
  | @element kind access array index length haccess harray hlength hindex =>
    obtain ⟨access', haccess', hcode⟩ := answer_bind.mp (Template.ofExcept_ok hfailure)
    obtain rfl := Except.ok.inj (haccess.symm.trans haccess')
    obtain ⟨d, hd, hcode⟩ := answer_bind.mp hcode
    obtain ⟨disp, hdisp, hcode⟩ := answer_bind.mp hcode
    refine ⟨[.lw .t0 disp .sp, .lw .t2 (disp - 4) .sp] ++ elementBase ctx i .t0 .t2 access.storage, d, ?_, ?_⟩
    · rw [← List.append_assoc]
      exact (Except.ok.inj hcode).symm
    · exact runs_peekTwo hwf hdisp hsize hstack hslots fun t ht ht0 ht2 =>
        runs_elementPlace hwf ht hzero ht0 ht2 harray hlength hindex hconsulted hd

end Fronts

/-! ## Accesses -/

theorem loadsValues : LoadsValues backend scratch Access.signed := by
  intro ctx i e p base site place rest m hop hready hlocates hloadable
  have hzero : (snap Instr m).regs .zero = 0 := hready.here.2.2
  obtain ⟨front, d, hcode, hfront⟩ := runs_loadFront (e := e) (E := fun _ _ => False)
    hready.wellFormed hzero hop hready.emitted hlocates hready.stack (place.consulted_subset_load _)
    (place.slots_subset_load _)
  refine hready.reaches ?_
  show Runs p _ (emit ctx i e).code (snap Instr m) _ _
  rw [hcode]
  refine hfront.append ?_
  rintro t ⟨ht, hplace⟩
  have hmemory : t.memory = (snap Instr m).memory := ht.memory_eq
  have hpointer : (t.regs .sp).toNat % 4 = 0 :=
    hready.stack.dropped_aligned (by rw [List.length_append]; omega) (by decide) ht rfl
  refine (runs_pushFromMemory hready.wellFormed.fits _
    ⟨by decide, hplace, align_known hlocates, hloadable.aligned rfl⟩ hpointer
    (hloadable.pushable hready.stack (by decide) ht)).mono fun s' hs' => ?_
  rw [hmemory] at hs'
  exact .after ht (hs'.mono (by decide)) (by decide)

theorem runs_drop {p : Program Instr} {touched : Set Nat} {s t : Snapshot Reg} {E : Fault → Snapshot Reg → Prop}
    {count a n k : Nat} {bytes : Nat → UInt8} (hfits : p.code.size ≤ codeLimit)
    (h : Stored .sp scratch count a n bytes s t) :
    Runs p touched (Instr.drop (4 * k)) t (Stored .sp scratch (count + k) a n bytes s) E := by
  unfold Instr.drop
  split
  · obtain rfl : k = 0 := by omega
    exact .nil h
  · exact .one (steps_addiu hfits .sp (Int32.ofNat (4 * k)) (by decide)) (h.drop k)

theorem storesValues : StoresValues backend scratch := by
  intro ctx i e p base site place value rest m hop hsize hready hlocates hstorable
  have hzero : (snap Instr m).regs .zero = 0 := hready.here.2.2
  obtain ⟨front, d, hcode, hfront⟩ := runs_storeFront (E := fun _ _ => False) hready.wellFormed hzero hop
    hready.emitted hsize hlocates hready.stack (place.consulted_subset_store _)
    (place.slots_subset_store _)
  refine hready.reaches ?_
  show Runs p _ (emit ctx i e).code (snap Instr m) _ _
  rw [hcode]
  refine hfront.append ?_
  rintro t ⟨ht, hplace⟩
  have hmemory : t.memory = (snap Instr m).memory := ht.memory_eq
  have hsp : t.regs .sp = (snap Instr m).regs .sp := ht.regs .sp (by decide)
  have hpointer : (t.regs .sp).toNat % 4 = 0 := by
    rw [hsp]
    exact hready.stack.aligned rfl
  refine (runs_popToMemory hready.wellFormed.fits
    ⟨by decide, hplace, align_known hlocates, hstorable.aligned rfl⟩ hpointer
    (hstorable.poppable hready.stack (by decide) ht)).append fun s' hs' => ?_
  rw [hmemory, hsp] at hs'
  exact runs_drop hready.wellFormed.fits (.after ht (hs'.mono (by decide)) (by decide))

theorem clearsValues : ClearsValues backend scratch := by
  intro ctx i e p base access a rest m hop haccess hguard hready hmapped haligned
  have hzero : (snap Instr m).regs .zero = 0 := hready.here.2.2
  have hcode : (emit ctx i e).code = Instr.pop .t0 ++ guardIndirect ctx i .t0 ++
      zeroMemory .t0 0 access.storage (indirectAlignment ctx access) := by
    rw [emit, hop]
    show (Template.ofExcept (initObject ctx i)).code = _
    rw [initObject, haccess]
    rfl
  refine hready.reaches ?_
  show Runs p _ (emit ctx i e).code (snap Instr m) _ _
  rw [hcode, List.append_assoc]
  refine runs_pop hready.wellFormed [] (by decide) hready.stack .dropped_zero Set.subset_union_right
    fun t ht ht0 _ => (runs_indirectPlace hready.wellFormed ht hzero ht0 hguard).append ?_
  rintro t' ⟨ht', hplace⟩
  refine (runs_zeroMemory hready.wellFormed.fits hplace
    indirectAlignment_known (haligned rfl) hmapped Set.subset_union_left).mono fun s' hs' => ?_
  exact .of_dropped (.after ht' (hs'.mono (by decide)) (by decide))

/-! ## Elements -/

def elementCode (d : Int32) (align : Nat) (access : Access) : ElementUse → List Instr
  | .load _ => pushFromMemory .t0 d access.storage access.signed align
  | .address => .addiu .t0 .t0 d :: Instr.push .t0
  | .store _ => popToMemory .t0 d access.storage align ++ Instr.drop 8

/-- The code is for the element at the address. -/
def AimsAt (_ : Program Instr) (use : ElementUse) (access : Access) (a : UInt32) (code : List Instr)
    (s : Snapshot Reg) : Prop :=
  ∃ d align, code = elementCode d align access use ∧ s.regs .t0 + d.toUInt32 = a

section Elements

variable {ctx : EmitContext} {i : Instruction} {e : Effect} {p : Program Instr} {base : Nat} {use : ElementUse}
  {access : Access} {value : List UInt32} {index array length : UInt32} {rest : List UInt32} {m : Machine}
  {touched : Set Nat}

/-- Whatever the instruction wants with the element, its operands come first and then the checks. -/
theorem runs_elementFront (h : Indexes backend ctx i e p base use access value index array rest m)
    (htouched : checkedSlots Instr use value m ⊆ touched) :
    ∃ front d, elementOffset ctx i access = .ok d ∧
      (emit ctx i e).code = front ++ (elementBase ctx i .t0 .t2 access.storage ++
        elementCode d (elementAlignment ctx access) access use) ∧
      ∀ {code : List Instr} {Q : Snapshot Reg → Prop} {E : Fault → Snapshot Reg → Prop},
        (∀ t, Scratched scratch ((snap Instr m).dropped Instr use.popped) t → t.regs .t0 = array →
          t.regs .t2 = index → Runs p touched code t Q E) →
        Runs p touched (front ++ code) (snap Instr m) Q E := by
  obtain ⟨hop, haccess, hsize, hready, -⟩ := h
  have hslots : slots ((snap Instr m).regs .sp) 0 (value.length + 2) ⊆ touched :=
    (slots_subset (Nat.zero_le _) (Nat.le_refl _)).trans htouched
  have hfailure : (emit ctx i e).failure = none := hready.emitted
  rw [emit, hop] at hfailure ⊢
  cases use with
  | load kind =>
    obtain rfl := nil_of_valueBytes hsize
    obtain ⟨access', haccess', hcode⟩ := answer_bind.mp (Template.ofExcept_ok hfailure)
    obtain rfl := Except.ok.inj (haccess.symm.trans haccess')
    obtain ⟨d, hd, hcode⟩ := answer_bind.mp hcode
    refine ⟨Instr.pop .t2 ++ Instr.pop .t0, d, hd, ?_, fun hrun => ?_⟩
    · rw [← List.append_assoc]
      exact (Except.ok.inj hcode).symm
    · rw [List.append_assoc]
      exact runs_popTwo hready.wellFormed hready.stack hslots hrun
  | address =>
    obtain rfl := nil_of_valueBytes hsize
    obtain ⟨access', haccess', hcode⟩ := answer_bind.mp (Template.ofExcept_ok hfailure)
    obtain rfl := Except.ok.inj (haccess.symm.trans haccess')
    obtain ⟨d, hd, hcode⟩ := answer_bind.mp hcode
    refine ⟨Instr.pop .t2 ++ Instr.pop .t0, d, hd, ?_, fun hrun => ?_⟩
    · rw [← List.append_assoc]
      exact (Except.ok.inj hcode).symm.trans (List.append_assoc ..)
    · rw [List.append_assoc]
      exact runs_popTwo hready.wellFormed hready.stack hslots hrun
  | store kind =>
    obtain ⟨access', haccess', hcode⟩ := answer_bind.mp (Template.ofExcept_ok hfailure)
    obtain rfl := Except.ok.inj (haccess.symm.trans haccess')
    obtain ⟨d, hd, hcode⟩ := answer_bind.mp hcode
    obtain ⟨disp, hdisp, hcode⟩ := answer_bind.mp hcode
    refine ⟨[.lw .t0 disp .sp, .lw .t2 (disp - 4) .sp], d, hd, ?_, fun hrun => ?_⟩
    · rw [elementCode, ← List.append_assoc, ← List.append_assoc]
      exact (Except.ok.inj hcode).symm
    · exact runs_peekTwo hready.wellFormed hdisp hsize hready.stack hslots fun t ht =>
        hrun t (.trans .dropped_zero ht)

/-- The stack and the zero register once the operands are taken. -/
theorem checks_start {t : Snapshot Reg} (h : Indexes backend ctx i e p base use access value index array rest m)
    (ht : Scratched scratch ((snap Instr m).dropped Instr use.popped) t) :
    (t.regs .sp).toNat % 4 = 0 ∧ t.regs .zero = 0 := by
  refine ⟨h.ready.stack.dropped_aligned ?_ (by decide) ht rfl, (ht.regs .zero (by decide)).trans h.ready.here.2.2⟩
  simp only [List.length_append, List.length_cons, List.length_nil]
  cases use <;> simp only [ElementUse.popped] <;> omega

theorem runs_toElement (h : Indexes backend ctx i e p base use access value index array rest m)
    (harray : array ≠ 0) (hlength : HasLength Instr ctx (snap Instr m).memory array length)
    (hindex : InRange index length) :
    ∃ front d, (emit ctx i e).code = front ++ elementCode d (elementAlignment ctx access) access use ∧
      Runs p (lengthBytes ctx array ∪ checkedSlots Instr use value m) front (snap Instr m)
        (fun t => Scratched scratch ((snap Instr m).dropped Instr use.popped) t ∧
          t.regs .t0 + d.toUInt32 = elementAddress ctx array index access.storage) fun _ _ => False := by
  have hzero : (snap Instr m).regs .zero = 0 := h.ready.here.2.2
  obtain ⟨front, d, hd, hcode, hfront⟩ := runs_elementFront h Set.subset_union_right
  refine ⟨front ++ elementBase ctx i .t0 .t2 access.storage, d, ?_, hfront fun t ht ht0 ht2 => ?_⟩
  · rw [List.append_assoc]
    exact hcode
  · exact runs_elementPlace h.ready.wellFormed ht hzero ht0 ht2 harray hlength hindex Set.subset_union_left hd

end Elements

theorem checksElements : ChecksElements backend scratch Access.signed AimsAt where
  null := by
    intro ctx i e p base use access value index rest m h
    obtain ⟨front, d, -, hcode, hfront⟩ := runs_elementFront h subset_rfl
    refine h.ready.ends ?_
    show Runs p _ (emit ctx i e).code (snap Instr m) _ _
    rw [hcode]
    refine hfront fun t ht ht0 _ => ?_
    obtain ⟨hroom, hslot⟩ := h.fails (by decide) ht
    obtain ⟨hpointer, hzero⟩ := checks_start h ht
    exact runs_elementBase_null ctx i h.ready.wellFormed hzero ht0 hpointer hroom hslot
      fun raised s' hs' => hs'.after ht.store.symm hslot
  outside := by
    intro ctx i e p base use access value index array length rest m h harray hlength hindex
    obtain ⟨front, d, -, hcode, hfront⟩ := runs_elementFront h Set.subset_union_right
    refine h.ready.ends ?_
    show Runs p _ (emit ctx i e).code (snap Instr m) _ _
    rw [hcode]
    refine hfront fun t ht ht0 ht2 => ?_
    obtain ⟨hroom, hslot⟩ := h.fails (by decide) ht
    obtain ⟨hpointer, hzero⟩ := checks_start h ht
    have hmemory : t.memory = (snap Instr m).memory := ht.memory_eq
    rw [← hmemory] at hlength
    exact runs_elementBase_outside ctx i h.ready.wellFormed hzero (by rwa [ht0]) (by rw [ht0]; exact hlength.read)
      (by rw [ht0]; exact hlength.aligned rfl) (by rw [ht0]; exact Set.subset_union_left) (by rwa [ht2]) hpointer
      hroom (hslot.trans Set.subset_union_right) fun raised s' hs' => hs'.after ht.store.symm hslot
  reached := by
    intro ctx i e p base use access value index array length rest m h harray hlength hindex
    obtain ⟨front, d, hcode, hfront⟩ := runs_toElement h harray hlength hindex
    refine ⟨front, _, hcode, Goes.mono (h.ready.reaches_front hcode hfront) ?_ fun _ _ hfalse => hfalse⟩
    rintro m' ⟨hat, ht, hplace⟩
    exact ⟨hat, ht, d, elementAlignment ctx access, rfl, hplace⟩
  address := by
    intro ctx i e p base access index array length rest m h harray hlength hindex
    obtain ⟨front, d, hcode, hfront⟩ := runs_toElement h harray hlength hindex
    refine h.ready.reaches ?_
    show Runs p _ (emit ctx i e).code (snap Instr m) _ _
    rw [hcode]
    refine hfront.append ?_
    rintro t ⟨ht, hplace⟩
    obtain ⟨hroom, hslot⟩ := h.fails (by decide) ht
    let formed := t.set .t0 (elementAddress ctx array index access.storage)
    have hsp : formed.regs .sp = t.regs .sp := Snapshot.set_of_ne _ (by decide) _
    have hroom' : Room (formed.regs .sp) 1 := by rwa [hsp]
    refine .cons (steps_addiu h.ready.wellFormed.fits .t0 d (by decide)) ?_
    rw [hplace, ← List.append_nil (Instr.push .t0)]
    refine Runs.push h.ready.wellFormed.fits (by decide) ?_ hroom' ?_ (.nil ?_)
    · rw [hsp]
      exact (checks_start h ht).1
    · rw [hroom'.slot, hsp]
      exact hslot.trans Set.subset_union_right
    · rw [Snapshot.set_self]
      exact .after (ht.set (by decide) _) (.one hroom') (by decide)
  load h harray hlength hindex hloadable := loadsValues.element h harray hlength hindex hloadable
  store h harray hlength hindex hstorable := storesValues.element h harray hlength hindex hstorable

end Stencil.Mips
