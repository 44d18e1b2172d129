import Stencil.Proofs.X86.Checks
import Stencil.X86.Backend

/-!
# Loads and stores on x86

The template of an access is a front that finds the place of the value, and the code that moves the value.
-/

namespace Stencil.X86

open AddressMap

def scratch : List Reg := [.eax, .ebx, .edx, .esi]

/-- A value of three bytes is never extended by its sign. -/
def widens (access : Access) : Bool := access.signed && decide (access.storage ≠ 3)

theorem steady_eax (disp : Int32) : (Mem.based .eax disp).Steady :=
  show ∀ r ∈ [Reg.esp, .edx, .esi], some Reg.eax ≠ some r by decide

theorem steady_global (symbol : Symbol) : (Mem.global symbol).Steady :=
  show ∀ r ∈ [Reg.esp, .edx, .esi], (none : Option Reg) ≠ some r by decide

section Fronts

variable {p : Program Instr} {touched : Set Nat} {s : Snapshot Reg} {E : Fault → Snapshot Reg → Prop}
  {ctx : EmitContext} {i : Instruction} {e : Effect} {site : Site} {place : Place} {rest : List UInt32}
  (hwf : p.WellFormed)

include hwf

theorem runs_pop {code : List Instr} {Q : Snapshot Reg → Prop} {t : Snapshot Reg} {r : Reg}
    (before : List UInt32) {w : UInt32} (hr : r ∈ scratch) (hstack : OnStack Instr (before ++ w :: rest) s)
    (ht : Scratched scratch (s.dropped Instr before.length) t)
    (htouched : slots (s.regs .esp) 0 (before.length + 1) ⊆ touched)
    (h : ∀ t', Scratched scratch (s.dropped Instr (before.length + 1)) t' → t'.regs r = w →
      (∀ r' ≠ r, r' ≠ .esp → t'.regs r' = t.regs r') → Runs p touched code t' Q E) :
    Runs p touched (.popReg r :: code) t Q E := by
  have hpointer : t.regs .esp = s.regs .esp + UInt32.ofNat (4 * before.length) :=
    (ht.regs .esp (by decide)).trans (Snapshot.set_self ..)
  have hread : t.memory.read (t.regs .esp) 4 = .ok w := by
    rw [hpointer, Snapshot.memory, ht.store]
    exact hstack.read
  have hslot : Set.Ico (t.regs .esp).toNat ((t.regs .esp).toNat + 4) ⊆ touched := by
    rw [hpointer]
    exact hstack.slot.trans htouched
  refine .cons (steps_popReg hwf.fits hread hslot) (h _ ((ht.pop (by decide)).set hr w) (Snapshot.set_self ..) ?_)
  intro r' hne hsp
  rw [Snapshot.set_of_ne _ hne, Snapshot.set_of_ne _ hsp]

theorem runs_popTwo {code : List Instr} {Q : Snapshot Reg → Prop} {array index : UInt32}
    (hstack : OnStack Instr (index :: array :: rest) s) (hslots : slots (s.regs .esp) 0 2 ⊆ touched)
    (h : ∀ t, Scratched scratch (s.dropped Instr 2) t → t.regs .eax = array → t.regs .ebx = index →
      Runs p touched code t Q E) :
    Runs p touched (.popReg .ebx :: .popReg .eax :: code) s Q E := by
  refine runs_pop hwf [] (by decide) hstack .dropped_zero
    ((slots_subset (Nat.le_refl 0) (Nat.le_succ 1)).trans hslots) fun t ht hebx _ => ?_
  refine runs_pop hwf [index] (by decide) hstack ht hslots fun t' ht' heax hkept => ?_
  exact h t' ht' heax ((hkept .ebx (by decide) (by decide)).trans hebx)

section Places

variable {s₀ t : Snapshot Reg} (ht : Scratched scratch s₀ t)

include ht

theorem runs_fieldPlace {object : UInt32} (heax : t.regs .eax = object) (hobject : object ≠ 0) (offset : Nat) :
    Runs p touched (nullCheck ctx i .eax) t (fun t' => Scratched scratch s₀ t' ∧
      (Mem.based .eax (Int32.ofNat offset)).Names p t'.regs (object + UInt32.ofNat offset)) E := by
  rw [← List.append_nil (nullCheck ctx i .eax)]
  refine runs_nullCheck ctx i hwf (by rwa [heax]) (.nil ⟨ht, ?_⟩)
  rw [← heax]
  exact .based ..

theorem runs_indirectPlace {a : UInt32} (heax : t.regs .eax = a)
    (hguard : ctx.policy.guardIndirect = true → a ≠ 0) :
    Runs p touched (guardIndirect ctx i .eax) t (fun t' => Scratched scratch s₀ t' ∧
      (Mem.based .eax 0).Names p t'.regs a) E := by
  rw [← List.append_nil (guardIndirect ctx i .eax)]
  refine runs_guardIndirect ctx i hwf (fun hpolicy => by rw [heax]; exact hguard hpolicy) (.nil ⟨ht, ?_⟩)
  have hbased := Mem.Names.based p .eax 0 t.regs
  rwa [heax, show (0 : Int32).toUInt32 = 0 from rfl, UInt32.add_zero] at hbased

theorem runs_elementPlace {array index length : UInt32} (heax : t.regs .eax = array) (hebx : t.regs .ebx = index)
    (harray : array ≠ 0) (hlength : HasLength Instr ctx s₀.memory array length) (hindex : InRange index length)
    (htouched : lengthBytes ctx array ⊆ touched) (storage : Nat) :
    Runs p touched (elementBase ctx i .eax .ebx storage) t (fun t' => Scratched scratch s₀ t' ∧
      (element ctx).Names p t'.regs (elementAddress ctx array index storage)) E := by
  have hmemory : t.memory = s₀.memory := ht.memory_eq
  rw [← hmemory] at hlength
  refine (runs_elementBase ctx i hwf (by decide) (by rwa [heax]) (by rw [heax]; exact hlength.read)
    (by rwa [heax]) (by rwa [hebx]) storage).mono ?_
  rintro t' ⟨ht', haddress⟩
  refine ⟨ht.trans (ht'.mono (by decide)), ?_⟩
  have hplace : t'.regs .eax + UInt32.ofNat ctx.options.layout.arrayHeader =
      elementAddress ctx array index storage := by
    rw [haddress, heax, hebx, elementAddress, add_right_comm]
  rw [← hplace]
  exact .based ..

end Places

/-- Operands are popped, checked, and lead to the place of the value. -/
theorem runs_loadFront (hop : i.op.operation = site.load) (hlocates : Locates ctx i p s.memory site place)
    (hstack : OnStack Instr (place.operands ++ rest) s) (hconsulted : place.consulted ⊆ touched)
    (hslots : slots (s.regs .esp) 0 place.operands.length ⊆ touched) :
    ∃ front mem, (emit ctx i e).code = front ++ pushFromMemory mem place.access.storage place.access.signed ∧
      mem.Steady ∧ Runs p touched front s (fun t => Scratched scratch (s.dropped Instr place.operands.length) t ∧
        mem.Names p t.regs place.address) E := by
  have hnone : Scratched scratch (s.dropped Instr 0) s := .dropped_zero
  rw [emit, hop]
  cases hlocates with
  | @field field access object hfield hobject =>
    refine ⟨[.popReg .eax] ++ nullCheck ctx i .eax, _, ?_, steady_eax (Int32.ofNat field.offset), ?_⟩
    · show (Template.ofExcept (loadField ctx i)).code = _
      rw [loadField, hfield]
      rfl
    · refine runs_pop hwf [] (by decide) hstack hnone hslots fun t ht heax _ => ?_
      exact runs_fieldPlace hwf ht heax hobject field.offset
  | @static field access a hfield hresolve =>
    refine ⟨[], _, ?_, steady_global field.symbol, .nil ⟨hnone, .global hresolve⟩⟩
    show (Template.ofExcept (loadStatic ctx i)).code = _
    rw [loadStatic, hfield]
    rfl
  | @indirect kind access a haccess hguard =>
    refine ⟨[.popReg .eax] ++ guardIndirect ctx i .eax, _, ?_, steady_eax 0, ?_⟩
    · show (Template.ofExcept (loadIndirect ctx i kind)).code = _
      rw [loadIndirect, haccess]
      rfl
    · refine runs_pop hwf [] (by decide) hstack hnone hslots fun t ht heax _ => ?_
      exact runs_indirectPlace hwf ht heax hguard
  | @element kind access array index length haccess harray hlength hindex =>
    refine ⟨[.popReg .ebx, .popReg .eax] ++ elementBase ctx i .eax .ebx access.storage, _, ?_,
      steady_eax (Int32.ofNat ctx.options.layout.arrayHeader), ?_⟩
    · show (Template.ofExcept (loadElement ctx i kind)).code = _
      rw [loadElement, haccess]
      rfl
    · exact runs_popTwo hwf hstack hslots fun t ht heax hebx =>
        runs_elementPlace hwf ht heax hebx harray hlength hindex hconsulted access.storage

/-- A word of the stack is loaded into a scratch register. -/
theorem runs_peek {code : List Instr} {Q : Snapshot Reg → Prop} {t : Snapshot Reg} {r : Reg}
    {before : List UInt32} {w : UInt32} {disp : Int32} (hr : r ∈ scratch)
    (hstack : OnStack Instr (before ++ w :: rest) s) (hdisp : disp.toUInt32 = UInt32.ofNat (4 * before.length))
    (ht : Scratched scratch s t) (htouched : slots (s.regs .esp) 0 (before.length + 1) ⊆ touched)
    (h : ∀ t', Scratched scratch s t' → t'.regs r = w → (∀ r' ≠ r, t'.regs r' = t.regs r') →
      Runs p touched code t' Q E) :
    Runs p touched (.load r (.based .esp disp) :: code) t Q E := by
  have hpointer : t.regs .esp = s.regs .esp := ht.regs .esp (by decide)
  have hnames : (Mem.based .esp disp).Names p t.regs (s.regs .esp + UInt32.ofNat (4 * before.length)) := by
    rw [← hpointer, ← hdisp]
    exact .based ..
  have hread : t.memory.read (s.regs .esp + UInt32.ofNat (4 * before.length)) 4 = .ok w := by
    rw [Snapshot.memory, ht.store]
    exact hstack.read
  refine .cons (steps_load hwf.fits hnames hread (hstack.slot.trans htouched)) (h _ (ht.set hr w) ?_ ?_)
  · exact Snapshot.set_self ..
  · exact fun r' hne => Snapshot.set_of_ne _ hne _

theorem runs_peekTwo {code : List Instr} {Q : Snapshot Reg → Prop} {value : List UInt32} {array index : UInt32}
    (hsize : (e.operand 0).size = 4 * value.length) (hstack : OnStack Instr (value ++ ([index, array] ++ rest)) s)
    (hslots : slots (s.regs .esp) 0 (value.length + 2) ⊆ touched)
    (h : ∀ t, Scratched scratch s t → t.regs .eax = array → t.regs .ebx = index → Runs p touched code t Q E) :
    Runs p touched (.load .eax (.based .esp (Int32.ofNat (e.operand 0).size + 4)) ::
      .load .ebx (.based .esp (Int32.ofNat (e.operand 0).size)) :: code) s Q E := by
  have hstack' : OnStack Instr ((value ++ [index]) ++ array :: rest) s := by
    rwa [List.append_assoc]
  have hindex : (Int32.ofNat (e.operand 0).size).toUInt32 = UInt32.ofNat (4 * value.length) := by
    rw [hsize]
    rfl
  have harray : (Int32.ofNat (e.operand 0).size + 4).toUInt32 = UInt32.ofNat (4 * (value ++ [index]).length) := by
    rw [Int32.toUInt32_add, hindex, List.length_append, Nat.mul_add, UInt32.ofNat_add]
    rfl
  refine runs_peek hwf (by decide) hstack' harray .refl ?_ fun t ht heax _ => ?_
  · rw [List.length_append]
    exact hslots
  refine runs_peek hwf (by decide) hstack hindex ht ?_ fun t' ht' hebx hkept => ?_
  · exact (slots_subset (Nat.le_refl 0) (by omega)).trans hslots
  exact h t' ht' ((hkept .eax (by decide)).trans heax) hebx

/-- Operands are loaded from under the value, checked, and lead to its place. -/
theorem runs_storeFront {value : List UInt32} (hop : i.op.operation = site.store)
    (hsize : (e.operand 0).size = 4 * value.length) (hlocates : Locates ctx i p s.memory site place)
    (hstack : OnStack Instr (value ++ (place.operands ++ rest)) s) (hconsulted : place.consulted ⊆ touched)
    (hslots : slots (s.regs .esp) 0 (value.length + place.operands.length) ⊆ touched) :
    ∃ front mem, (emit ctx i e).code = front ++ (popToMemory mem place.access.storage ++
        Instr.drop (4 * place.operands.length)) ∧ mem.Steady ∧
      Runs p touched front s (fun t => Scratched scratch s t ∧ mem.Names p t.regs place.address) E := by
  have hdisp : (Int32.ofNat (e.operand 0).size).toUInt32 = UInt32.ofNat (4 * value.length) := by
    rw [hsize]
    rfl
  rw [emit, hop]
  cases hlocates with
  | @field field access object hfield hobject =>
    refine ⟨[.load .eax (.based .esp (Int32.ofNat (e.operand 0).size))] ++ nullCheck ctx i .eax, _, ?_,
      steady_eax (Int32.ofNat field.offset), ?_⟩
    · show (Template.ofExcept (storeField ctx i e)).code = _
      rw [storeField, hfield, ← List.append_assoc]
      rfl
    · refine runs_peek hwf (by decide) hstack hdisp .refl hslots fun t ht heax _ => ?_
      exact runs_fieldPlace hwf ht heax hobject field.offset
  | @static field access a hfield hresolve =>
    refine ⟨[], _, ?_, steady_global field.symbol, .nil ⟨.refl, .global hresolve⟩⟩
    show (Template.ofExcept (storeStatic ctx i)).code = _
    rw [storeStatic, hfield]
    exact (List.append_nil _).symm
  | @indirect kind access a haccess hguard =>
    refine ⟨[.load .eax (.based .esp (Int32.ofNat (e.operand 0).size))] ++ guardIndirect ctx i .eax, _, ?_,
      steady_eax 0, ?_⟩
    · show (Template.ofExcept (storeIndirect ctx i e kind)).code = _
      rw [storeIndirect, haccess, ← List.append_assoc]
      rfl
    · refine runs_peek hwf (by decide) hstack hdisp .refl hslots fun t ht heax _ => ?_
      exact runs_indirectPlace hwf ht heax hguard
  | @element kind access array index length haccess harray hlength hindex =>
    refine ⟨[.load .eax (.based .esp (Int32.ofNat (e.operand 0).size + 4)),
      .load .ebx (.based .esp (Int32.ofNat (e.operand 0).size))] ++
        elementBase ctx i .eax .ebx access.storage, _, ?_,
      steady_eax (Int32.ofNat ctx.options.layout.arrayHeader), ?_⟩
    · show (Template.ofExcept (storeElement ctx i e kind)).code = _
      rw [storeElement, haccess, ← List.append_assoc]
      rfl
    · exact runs_peekTwo hwf hsize hstack hslots fun t ht heax hebx =>
        runs_elementPlace hwf ht heax hebx harray hlength hindex hconsulted access.storage

end Fronts

/-! ## Accesses -/

theorem loadsValues : LoadsValues backend scratch widens := by
  intro ctx i e p base site place rest m hop hready hlocates hloadable
  obtain ⟨front, mem, hcode, hsteady, hfront⟩ := runs_loadFront (e := e) (E := fun _ _ => False)
    hready.wellFormed hop hlocates hready.stack (place.consulted_subset_load _)
    (place.slots_subset_load _)
  refine hready.reaches ?_
  show Runs p _ (emit ctx i e).code (snap Instr m) _ _
  rw [hcode]
  refine hfront.append ?_
  rintro t ⟨ht, hnames⟩
  have hmemory : t.memory = (snap Instr m).memory := ht.memory_eq
  refine (runs_pushFromMemory hready.wellFormed.fits _ hsteady hnames
    (hloadable.pushable hready.stack (by decide) ht)).mono fun s' hs' => ?_
  rw [hmemory] at hs'
  exact .after ht (hs'.mono (by decide)) (by decide)

theorem runs_drop {p : Program Instr} {touched : Set Nat} {s t : Snapshot Reg} {E : Fault → Snapshot Reg → Prop}
    {count a n k : Nat} {bytes : Nat → UInt8} (hfits : p.code.size ≤ codeLimit)
    (h : Stored .esp scratch count a n bytes s t) :
    Runs p touched (Instr.drop (4 * k)) t (Stored .esp scratch (count + k) a n bytes s) E := by
  unfold Instr.drop
  split
  · obtain rfl : k = 0 := by omega
    exact .nil h
  · exact .one (steps_addImm hfits .esp (Int32.ofNat (4 * k))) (h.drop k)

theorem storesValues : StoresValues backend scratch := by
  intro ctx i e p base site place value rest m hop hsize hready hlocates hstorable
  obtain ⟨front, mem, hcode, hsteady, hfront⟩ := runs_storeFront (E := fun _ _ => False) hready.wellFormed hop
    hsize hlocates hready.stack (place.consulted_subset_store _)
    (place.slots_subset_store _)
  refine hready.reaches ?_
  show Runs p _ (emit ctx i e).code (snap Instr m) _ _
  rw [hcode]
  refine hfront.append ?_
  rintro t ⟨ht, hnames⟩
  have hmemory : t.memory = (snap Instr m).memory := ht.memory_eq
  have hpointer : t.regs .esp = (snap Instr m).regs .esp := ht.regs .esp (by decide)
  refine (runs_popToMemory hready.wellFormed.fits ⟨hsteady .esp (by decide), hsteady .edx (by decide)⟩ hnames
    (hstorable.poppable hready.stack (by decide) ht)).append fun s' hs' => ?_
  rw [hmemory, hpointer] at hs'
  exact runs_drop hready.wellFormed.fits (.after ht (hs'.mono (by decide)) (by decide))

theorem clearsValues : ClearsValues backend scratch := by
  intro ctx i e p base access a rest m hop haccess hguard hready hmapped _
  have hcode : (emit ctx i e).code = [.popReg .eax] ++ guardIndirect ctx i .eax ++
      zeroMemory (.based .eax 0) access.storage := by
    rw [emit, hop]
    show (Template.ofExcept (initObject ctx i)).code = _
    rw [initObject, haccess]
    rfl
  refine hready.reaches ?_
  show Runs p _ (emit ctx i e).code (snap Instr m) _ _
  rw [hcode, List.append_assoc]
  refine runs_pop hready.wellFormed [] (by decide) hready.stack .dropped_zero Set.subset_union_right
    fun t ht heax _ => (runs_indirectPlace hready.wellFormed ht heax hguard).append ?_
  rintro t' ⟨ht', hnames⟩
  refine (runs_zeroMemory hready.wellFormed.fits hnames hmapped
    Set.subset_union_left).mono fun s' hs' => ?_
  exact .of_dropped (.after ht' (hs'.mono (by decide)) (by decide))

/-! ## Elements -/

def elementCode (mem : Mem) (access : Access) : ElementUse → List Instr
  | .load _ => pushFromMemory mem access.storage access.signed
  | .address => [.lea .eax mem, .pushReg .eax]
  | .store _ => popToMemory mem access.storage ++ Instr.drop 8

/-- The code is for the element at the address. -/
def AimsAt (p : Program Instr) (use : ElementUse) (access : Access) (a : UInt32) (code : List Instr)
    (s : Snapshot Reg) : Prop :=
  ∃ mem : Mem, code = elementCode mem access use ∧ mem.Names p s.regs a

section Elements

variable {ctx : EmitContext} {i : Instruction} {e : Effect} {p : Program Instr} {base : Nat} {use : ElementUse}
  {access : Access} {value : List UInt32} {index array length : UInt32} {rest : List UInt32} {m : Machine}
  {touched : Set Nat}

/-- Whatever the instruction wants with the element, its operands come first and then the checks. -/
theorem runs_elementFront (h : Indexes backend ctx i e p base use access value index array rest m)
    (htouched : checkedSlots Instr use value m ⊆ touched) :
    ∃ front, (emit ctx i e).code = front ++ (elementBase ctx i .eax .ebx access.storage ++
        elementCode (element ctx) access use) ∧
      ∀ {code : List Instr} {Q : Snapshot Reg → Prop} {E : Fault → Snapshot Reg → Prop},
        (∀ t, Scratched scratch ((snap Instr m).dropped Instr use.popped) t → t.regs .eax = array →
          t.regs .ebx = index → Runs p touched code t Q E) →
        Runs p touched (front ++ code) (snap Instr m) Q E := by
  obtain ⟨hop, haccess, hsize, hready, -⟩ := h
  have hslots : slots ((snap Instr m).regs .esp) 0 (value.length + 2) ⊆ touched :=
    (slots_subset (Nat.zero_le _) (Nat.le_refl _)).trans htouched
  rw [emit, hop]
  cases use with
  | load kind =>
    obtain rfl := nil_of_valueBytes hsize
    refine ⟨[.popReg .ebx, .popReg .eax], ?_, runs_popTwo hready.wellFormed hready.stack hslots⟩
    show (Template.ofExcept (loadElement ctx i kind)).code = _
    rw [loadElement, show ctx.kindAccess i kind = .ok access from haccess]
    rfl
  | address =>
    obtain rfl := nil_of_valueBytes hsize
    refine ⟨[.popReg .ebx, .popReg .eax], ?_, runs_popTwo hready.wellFormed hready.stack hslots⟩
    show (Template.ofExcept (loadElementAddress ctx i)).code = _
    rw [loadElementAddress, show ctx.typeAccess i = .ok access from haccess]
    rfl
  | store kind =>
    refine ⟨[.load .eax (.based .esp (Int32.ofNat (e.operand 0).size + 4)),
      .load .ebx (.based .esp (Int32.ofNat (e.operand 0).size))], ?_, fun hrun => ?_⟩
    · show (Template.ofExcept (storeElement ctx i e kind)).code = _
      rw [storeElement, show ctx.kindAccess i kind = .ok access from haccess, elementCode, ← List.append_assoc,
        ← List.append_assoc]
      rfl
    · exact runs_peekTwo hready.wellFormed hsize hready.stack hslots fun t ht =>
        hrun t (.trans .dropped_zero ht)

theorem runs_toElement (h : Indexes backend ctx i e p base use access value index array rest m)
    (harray : array ≠ 0) (hlength : HasLength Instr ctx (snap Instr m).memory array length)
    (hindex : InRange index length) :
    ∃ front, (emit ctx i e).code = front ++ elementCode (element ctx) access use ∧
      Runs p (lengthBytes ctx array ∪ checkedSlots Instr use value m) front (snap Instr m)
        (fun t => Scratched scratch ((snap Instr m).dropped Instr use.popped) t ∧
          (element ctx).Names p t.regs (elementAddress ctx array index access.storage)) fun _ _ => False := by
  obtain ⟨front, hcode, hfront⟩ := runs_elementFront h Set.subset_union_right
  refine ⟨front ++ elementBase ctx i .eax .ebx access.storage, ?_, hfront fun t ht heax hebx => ?_⟩
  · rw [List.append_assoc]
    exact hcode
  · exact runs_elementPlace h.ready.wellFormed ht heax hebx harray hlength hindex Set.subset_union_left
      access.storage

end Elements

theorem checksElements : ChecksElements backend scratch widens AimsAt where
  null := by
    intro ctx i e p base use access value index rest m h
    obtain ⟨front, hcode, hfront⟩ := runs_elementFront h subset_rfl
    refine h.ready.ends ?_
    show Runs p _ (emit ctx i e).code (snap Instr m) _ _
    rw [hcode]
    refine hfront fun t ht heax _ => ?_
    obtain ⟨hroom, hslot⟩ := h.fails (by decide) ht
    exact runs_elementBase_null ctx i h.ready.wellFormed heax hroom hslot
      fun raised s' hs' => hs'.after ht.store.symm hslot
  outside := by
    intro ctx i e p base use access value index array length rest m h harray hlength hindex
    obtain ⟨front, hcode, hfront⟩ := runs_elementFront h Set.subset_union_right
    refine h.ready.ends ?_
    show Runs p _ (emit ctx i e).code (snap Instr m) _ _
    rw [hcode]
    refine hfront fun t ht heax hebx => ?_
    obtain ⟨hroom, hslot⟩ := h.fails (by decide) ht
    have hmemory : t.memory = (snap Instr m).memory := ht.memory_eq
    rw [← hmemory] at hlength
    exact runs_elementBase_outside ctx i h.ready.wellFormed (by rwa [heax]) (by rw [heax]; exact hlength.read)
      (by rw [heax]; exact Set.subset_union_left) (by rwa [hebx]) hroom (hslot.trans Set.subset_union_right)
      fun raised s' hs' => hs'.after ht.store.symm hslot
  reached := by
    intro ctx i e p base use access value index array length rest m h harray hlength hindex
    obtain ⟨front, hcode, hfront⟩ := runs_toElement h harray hlength hindex
    refine ⟨front, _, hcode, Goes.mono (h.ready.reaches_front hcode hfront) ?_ fun _ _ hfalse => hfalse⟩
    rintro m' ⟨hat, ht, hnames⟩
    exact ⟨hat, ht, element ctx, rfl, hnames⟩
  address := by
    intro ctx i e p base access index array length rest m h harray hlength hindex
    obtain ⟨front, hcode, hfront⟩ := runs_toElement h harray hlength hindex
    refine h.ready.reaches ?_
    show Runs p _ (emit ctx i e).code (snap Instr m) _ _
    rw [hcode]
    refine hfront.append ?_
    rintro t ⟨ht, hnames⟩
    obtain ⟨hroom, hslot⟩ := h.fails (by decide) ht
    let formed := t.set .eax (elementAddress ctx array index access.storage)
    have hroom' : Room (formed.regs .esp) 1 := by
      rw [Snapshot.set_of_ne _ (by decide)]
      exact hroom
    refine .cons (steps_lea h.ready.wellFormed.fits hnames)
      (.one (steps_pushReg h.ready.wellFormed.fits hroom' ?_) ?_)
    · rw [hroom'.slot, Snapshot.set_of_ne _ (by decide)]
      exact hslot.trans Set.subset_union_right
    · rw [Snapshot.set_self]
      exact .after (ht.set (by decide) _) (.one hroom') (by decide)
  load h harray hlength hindex hloadable := loadsValues.element h harray hlength hindex hloadable
  store h harray hlength hindex hstorable := storesValues.element h harray hlength hindex hstorable

end Stencil.X86
