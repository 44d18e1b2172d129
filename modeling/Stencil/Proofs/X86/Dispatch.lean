import Stencil.Proofs.Dispatch.Tables
import Stencil.Proofs.X86.Rests

/-!
# Virtual calls on x86

The template of a virtual call tests the receiver for null, follows its type to the method table and
searches it. What the machine does with one pair is a case of `searches`; the search as a whole is that
of the method tables in memory.
-/

namespace Stencil.X86

open AddressMap Stateful Function

/-! ## The search -/

/-- The machine stands at an index with a stack pointer and a word in a register, and with the frame
pointer and the store of another machine. -/
structure Holding (m₀ : Machine) (k : Nat) (sp : UInt32) (r : Reg) (w : UInt32) (m : Machine) :
    Prop where
  pc : m.pc = codeAddress k
  esp : m.reg .esp = sp
  ebp : m.reg .ebp = m₀.reg .ebp
  store : m.store = m₀.store
  word : m.reg r = w

def virtualCall (ctx : EmitContext) (i : Instruction) (disp : Int32) (slot ret : Nat) : List Instr :=
  [Instr.load .eax (.based .esp disp)] ++ nullCheck ctx i .eax ++ dispatch ctx i slot ret

section Search

variable {ctx : EmitContext} {i : Instruction} {p : Program Instr} {base slot ret : Nat}
  {disp : Int32} {rest : List Instr} {m₀ : Machine} {m : Machine} {a w : UInt32}

theorem Holding.rests {k : Nat} {sp : UInt32} {r : Reg} (h : Holding m₀ k sp r w m) :
    Rests m k m.reg m.flags.zero m₀.store := ⟨h.pc, fun _ => rfl, rfl, h.store⟩

variable (hfits : p.code.size ≤ codeLimit)
  (hplaced : Placed p base (virtualCall ctx i disp slot ret ++ rest))

include hfits hplaced

/-- A pair for the slot: its address is loaded and the return slot is reserved. -/
theorem search_found (hat : Holding m₀ (base + 9) (m₀.reg .esp) .eax a m)
    (hslot : m₀.store.memory.read a 4 = .ok (UInt32.ofNat slot))
    (htarget : m₀.store.memory.read (a + 4) 4 = .ok w) :
    Reaches (Machine.cycle p) m (Holding m₀ (base + 25 + (Instr.reserve ret).length)
      (m₀.reg .esp - UInt32.ofNat ret) .esi w) := by
  have hfound : p.labels[ctx.inside i "Found" 3]? = some (base + 23) :=
    hplaced.labels 23 _ _ rfl rfl
  refine (hat.rests.label hfits (hplaced.fetch 9 _ rfl)).reaches fun m₁ h₁ => ?_
  refine (h₁.load hfits (UInt32.ofNat slot) (hplaced.fetch 10 _ rfl) ?_).reaches fun m₂ h₂ => ?_
  · rwa [hat.word, show Int32.toUInt32 0 = 0 from rfl, UInt32.zero_add]
  refine (h₂.cmp hfits (hplaced.fetch 11 _ rfl)).reaches fun m₃ h₃ => ?_
  refine (h₃.jcc_taken hfits (hplaced.fetch 12 _ rfl) ?_ hfound).reaches fun m₄ h₄ => ?_
  · intro flags hzero
    rw [Flags.holds, hzero, update_self]
    exact beq_self_eq_true _
  refine (h₄.label hfits (hplaced.fetch 23 _ rfl)).reaches fun m₅ h₅ => ?_
  refine (h₅.load hfits w (hplaced.fetch 24 _ rfl) ?_).reaches fun m₆ h₆ => ?_
  · rwa [update_of_ne (by decide), hat.word, show Int32.toUInt32 4 = 4 from rfl, UInt32.add_comm]
  rw [update_idem] at h₆
  -- a return slot of no bytes is not reserved
  by_cases hret : ret = 0
  · rw [Instr.reserve, if_pos hret, hret]
    refine .here ⟨h₆.pc, ?_, ?_, h₆.store, ?_⟩
    · rw [h₆.reg, update_of_ne (by decide), hat.esp, show UInt32.ofNat 0 = 0 from rfl, UInt32.sub_zero]
    · rw [h₆.reg, update_of_ne (by decide), hat.ebp]
    · rw [h₆.reg, update_self]
  · have hreserve : Instr.reserve ret = [.aluImm .sub .esp (Int32.ofNat ret)] := by
      rw [Instr.reserve, if_neg hret]
    have hinstr : p.code[base + 25]? = some (.aluImm .sub .esp (Int32.ofNat ret)) := by
      refine hplaced.fetch 25 _ ?_
      rw [virtualCall, dispatch, hreserve]
      rfl
    refine (h₆.subImm hfits hinstr).reaches fun m₇ h₇ => ?_
    obtain ⟨zero, h₇⟩ := h₇
    rw [hreserve]
    refine .here ⟨h₇.pc, ?_, ?_, h₇.store, ?_⟩
    · rw [h₇.reg, update_self, update_of_ne (by decide), hat.esp]
      rfl
    · rw [h₇.reg, update_of_ne (by decide), update_of_ne (by decide), hat.ebp]
    · rw [h₇.reg, update_of_ne (by decide), update_self]

theorem search_next (hat : Holding m₀ (base + 9) (m₀.reg .esp) .eax a m)
    (hslot : m₀.store.memory.read a 4 = .ok w) (hne : w ≠ UInt32.ofNat slot) (hzero : w ≠ 0) :
    Reaches (Machine.cycle p) m (Holding m₀ (base + 9) (m₀.reg .esp) .eax (a + 8)) := by
  have hscan : p.labels[ctx.inside i "Scan" 1]? = some (base + 9) := hplaced.labels 9 _ _ rfl rfl
  have hnext : p.labels[ctx.inside i "Next" 2]? = some (base + 20) := hplaced.labels 20 _ _ rfl rfl
  refine (hat.rests.label hfits (hplaced.fetch 9 _ rfl)).reaches fun m₁ h₁ => ?_
  refine (h₁.load hfits w (hplaced.fetch 10 _ rfl) ?_).reaches fun m₂ h₂ => ?_
  · rwa [hat.word, show Int32.toUInt32 0 = 0 from rfl, UInt32.zero_add]
  refine (h₂.cmp hfits (hplaced.fetch 11 _ rfl)).reaches fun m₃ h₃ => ?_
  refine (h₃.jcc_passed hfits (hplaced.fetch 12 _ rfl) ?_).reaches fun m₄ h₄ => ?_
  · intro flags hflag
    rw [Flags.holds, hflag, update_self]
    exact beq_false_of_ne hne
  refine (h₄.test hfits (hplaced.fetch 13 _ rfl)).reaches fun m₅ h₅ => ?_
  refine (h₅.jcc_taken hfits (hplaced.fetch 14 _ rfl) ?_ hnext).reaches fun m₆ h₆ => ?_
  · intro flags hflag
    rw [Flags.holds, hflag, update_self, beq_false_of_ne hzero]
    rfl
  refine (h₆.label hfits (hplaced.fetch 20 _ rfl)).reaches fun m₇ h₇ => ?_
  refine (h₇.addImm hfits (hplaced.fetch 21 _ rfl)).reaches fun m₈ h₈ => ?_
  obtain ⟨zero, h₈⟩ := h₈
  refine (h₈.jump hfits (hplaced.fetch 22 _ rfl) hscan).reaches fun m₉ h₉ => ?_
  refine .here ⟨h₉.pc, ?_, ?_, h₉.store, ?_⟩
  · rw [h₉.reg, update_of_ne (by decide), update_of_ne (by decide), hat.esp]
  · rw [h₉.reg, update_of_ne (by decide), update_of_ne (by decide), hat.ebp]
  · rw [h₉.reg, update_self, update_of_ne (by decide), hat.word]
    rfl

/-- The end of a table: the table that it goes on with is loaded. -/
theorem search_end (hat : Holding m₀ (base + 9) (m₀.reg .esp) .eax a m) (hslot : UInt32.ofNat slot ≠ 0)
    (hend : m₀.store.memory.read a 4 = .ok 0) (hparent : m₀.store.memory.read (a + 4) 4 = .ok w)
    {Q : Machine → Prop}
    (hnext : ∀ m', Rests m' (base + 17) (update (update m.reg .esi 0) .eax w) (w == 0) m₀.store →
      Reaches (Machine.cycle p) m' Q) :
    Reaches (Machine.cycle p) m Q := by
  refine (hat.rests.label hfits (hplaced.fetch 9 _ rfl)).reaches fun m₁ h₁ => ?_
  refine (h₁.load hfits 0 (hplaced.fetch 10 _ rfl) ?_).reaches fun m₂ h₂ => ?_
  · rwa [hat.word, show Int32.toUInt32 0 = 0 from rfl, UInt32.zero_add]
  refine (h₂.cmp hfits (hplaced.fetch 11 _ rfl)).reaches fun m₃ h₃ => ?_
  refine (h₃.jcc_passed hfits (hplaced.fetch 12 _ rfl) ?_).reaches fun m₄ h₄ => ?_
  · intro flags hflag
    rw [Flags.holds, hflag, update_self]
    exact beq_false_of_ne hslot.symm
  refine (h₄.test hfits (hplaced.fetch 13 _ rfl)).reaches fun m₅ h₅ => ?_
  refine (h₅.jcc_passed hfits (hplaced.fetch 14 _ rfl) ?_).reaches fun m₆ h₆ => ?_
  · intro flags hflag
    rw [Flags.holds, hflag, update_self]
    rfl
  refine (h₆.load hfits w (hplaced.fetch 15 _ rfl) ?_).reaches fun m₇ h₇ => ?_
  · rwa [update_of_ne (by decide), hat.word, show Int32.toUInt32 4 = 4 from rfl, UInt32.add_comm]
  refine (h₇.test hfits (hplaced.fetch 16 _ rfl)).reaches fun m₈ h₈ => ?_
  rw [update_self] at h₈
  exact hnext m₈ h₈

theorem search_parent (hat : Holding m₀ (base + 9) (m₀.reg .esp) .eax a m)
    (hslot : UInt32.ofNat slot ≠ 0) (hend : m₀.store.memory.read a 4 = .ok 0)
    (hparent : m₀.store.memory.read (a + 4) 4 = .ok w) (hw : w ≠ 0) :
    Reaches (Machine.cycle p) m (Holding m₀ (base + 9) (m₀.reg .esp) .eax w) := by
  have hscan : p.labels[ctx.inside i "Scan" 1]? = some (base + 9) := hplaced.labels 9 _ _ rfl rfl
  refine search_end hfits hplaced hat hslot hend hparent fun m₁ h₁ => ?_
  refine (h₁.jcc_taken hfits (hplaced.fetch 17 _ rfl) ?_ hscan).reaches fun m₂ h₂ => ?_
  · intro flags hflag
    rw [Flags.holds, hflag, beq_false_of_ne hw]
    rfl
  refine .here ⟨h₂.pc, ?_, ?_, h₂.store, ?_⟩
  · rw [h₂.reg, update_of_ne (by decide), update_of_ne (by decide), hat.esp]
  · rw [h₂.reg, update_of_ne (by decide), update_of_ne (by decide), hat.ebp]
  · rw [h₂.reg, update_self]

theorem search_faults (hat : Holding m₀ (base + 9) (m₀.reg .esp) .eax a m) {fault : Fault}
    (hfault : m₀.store.memory.read a 4 = .error fault) : Ends (Machine.cycle p) fault m := by
  refine (hat.rests.label hfits (hplaced.fetch 9 _ rfl)).reaches fun m₁ h₁ => ?_
  refine h₁.load_faults hfits (hplaced.fetch 10 _ rfl) ?_
  rwa [hat.word, show Int32.toUInt32 0 = 0 from rfl, UInt32.zero_add]

theorem search_missing (hwf : p.WellFormed) (hat : Holding m₀ (base + 9) (m₀.reg .esp) .eax a m)
    (hslot : UInt32.ofNat slot ≠ 0) (hend : m₀.store.memory.read a 4 = .ok 0)
    (hparent : m₀.store.memory.read (a + 4) 4 = .ok 0)
    (hroom : Memory.mapped (m₀.reg .esp - 4) 4 = true) :
    Ends (Machine.cycle p) (.halt HaltReason.missingVirtualMethod.code) m := by
  have hesp : update (update m.reg .esi 0) .eax 0 .esp = m₀.reg .esp := by
    rw [update_of_ne (by decide), update_of_ne (by decide), hat.esp]
  refine search_end hfits hplaced hat hslot hend hparent fun m₁ h₁ => ?_
  refine (h₁.jcc_passed hfits (hplaced.fetch 17 _ rfl) ?_).reaches fun m₂ h₂ => ?_
  · intro flags hflag
    rw [Flags.holds, hflag]
    rfl
  refine (h₂.push hfits (w := HaltReason.missingVirtualMethod.code) (hplaced.fetch 18 _ rfl) ?_ ?_).reaches
    fun m₃ h₃ => ?_
  · intro m' _
    rfl
  · rwa [hesp]
  refine .here (h₃.stops hwf (hplaced.fetch 19 _ rfl) fun site => ?_)
  refine Program.runIntrinsic_halt ?_
  rw [update_self, hesp]
  exact Store.read_withWord hroom _ _

/-- What the template does with a pair is what a search does. -/
theorem searches (hwf : p.WellFormed) (hslot : UInt32.ofNat slot ≠ 0)
    (hroom : Memory.mapped (m₀.reg .esp - 4) 4 = true) :
    Searches (Machine.cycle p) m₀.store.memory (UInt32.ofNat slot)
      (Holding m₀ (base + 9) (m₀.reg .esp) .eax)
      (Holding m₀ (base + 25 + (Instr.reserve ret).length) (m₀.reg .esp - UInt32.ofNat ret) .esi)
      (Ends (Machine.cycle p) (.halt HaltReason.missingVirtualMethod.code)) where
  found hat _ hpair htarget := search_found hfits hplaced hat hpair htarget
  next hat _ hpair hne hzero := search_next hfits hplaced hat hpair hne hzero
  parent hat _ hend hparent hb := search_parent hfits hplaced hat hslot hend hparent hb
  missing hat _ hend hparent :=
    .here (search_missing hfits hplaced hwf hat hslot hend hparent hroom)

/-! ## The receiver -/

theorem virtualCall_null (hwf : p.WellFormed) (hpc : m.pc = codeAddress base)
    (hthis : m.store.memory.read (disp.toUInt32 + m.reg .esp) 4 = .ok 0)
    (hroom : Memory.mapped (m.reg .esp - 4) 4 = true) :
    Ends (Machine.cycle p) (.nullReference (codeAddress (base + 3))) m := by
  refine ((Rests.of_pc hpc).load hfits 0 (hplaced.fetch 0 _ rfl) hthis).reaches fun m₁ h₁ => ?_
  have hcheck : Placed p (base + 1) (nullCheck ctx i .eax ++ (dispatch ctx i slot ret ++ rest)) := by
    rw [virtualCall, List.append_assoc, List.append_assoc] at hplaced
    exact hplaced.back
  exact h₁.nullCheck_null hfits hwf hcheck (update_self ..) hroom

/-- Any other receiver leads to the method table of its type. -/
theorem virtualCall_table (hlayout : ctx.options.layout = {}) (hpc : m.pc = codeAddress base)
    {object type table : UInt32} (hthis : m.store.memory.read (disp.toUInt32 + m.reg .esp) 4 = .ok object)
    (hobject : object ≠ 0) (htype : m.store.memory.read object 4 = .ok type)
    (htable : m.store.memory.read (type + 8) 4 = .ok table) :
    Reaches (Machine.cycle p) m (Holding m (base + 9) (m.reg .esp) .eax table) := by
  have hcheck : Placed p (base + 1) (nullCheck ctx i .eax ++ (dispatch ctx i slot ret ++ rest)) := by
    have hcode := hplaced
    rw [virtualCall, List.append_assoc, List.append_assoc] at hcode
    exact hcode.back
  refine ((Rests.of_pc hpc).load hfits object (hplaced.fetch 0 _ rfl) hthis).reaches fun m₁ h₁ => ?_
  refine h₁.nullCheck_object hfits hcheck (by rwa [update_self]) fun m₄ zero h₄ => ?_
  refine (h₄.load hfits type (hplaced.fetch 7 _ rfl) ?_).reaches fun m₅ h₅ => ?_
  · rw [hlayout, update_self]
    rwa [show (Int32.ofNat ({} : ObjectLayout).typePointer).toUInt32 = 0 from rfl, UInt32.zero_add]
  refine (h₅.load hfits table (hplaced.fetch 8 _ rfl) ?_).reaches fun m₆ h₆ => ?_
  · rw [hlayout, update_self]
    rwa [show (Int32.ofNat ({} : ObjectLayout).typeMethodTable).toUInt32 = 8 from rfl, UInt32.add_comm]
  rw [update_idem, update_idem] at h₆
  refine .here ⟨h₆.pc, ?_, ?_, h₆.store, ?_⟩
  · rw [h₆.reg, update_of_ne (by decide)]
  · rw [h₆.reg, update_of_ne (by decide)]
  · rw [h₆.reg, update_self]

end Search

/-- The machine was called at an address: the return slot is reserved, the return address pushed, and
nothing else has changed. -/
structure Called (m₀ : Machine) (ret back : Nat) (target : UInt32) (m : Machine) : Prop where
  pc : m.pc = target
  esp : m.reg .esp = m₀.reg .esp - UInt32.ofNat ret - 4
  ebp : m.reg .ebp = m₀.reg .ebp
  store : m.store = m₀.store.withWord (m.reg .esp) (codeAddress back)

/-! ## The template -/

/-- The machine is about to call a virtual method on an object, below arguments of `args` bytes, and
there is room for a result of `ret` bytes and the return address. -/
structure Calling (base args ret pointerSize : Nat) (object : UInt32) (m : Machine) : Prop where
  pc : m.pc = codeAddress base
  this : m.store.memory.read (m.reg .esp + UInt32.ofNat args - UInt32.ofNat pointerSize) 4 = .ok object
  room : Memory.mapped (m.reg .esp - 4) 4 = true
  callRoom : Memory.mapped (m.reg .esp - UInt32.ofNat ret - 4) 4 = true

section Template

variable {ctx : EmitContext} {i : Instruction} {e : Effect} {method : MethodDescriptor}

theorem emit_callVirtual (hcall : CallsVirtual ctx i method) :
    (backend.emit ctx i e).code =
      virtualCall ctx i (Int32.ofNat e.poppedBytes - Int32.ofNat ctx.options.pointerSize) method.id.val
        e.pushedBytes ++ afterCall e.pushedBytes e.poppedBytes := by
  obtain ⟨declaring, hresolved, hdelegate⟩ := hcall.resolved
  have hemit : backend.emit ctx i e = .ofExcept (callVirtual ctx i e) := by
    show emit ctx i e = _
    unfold emit
    rw [hcall.operation]
  rw [hemit, callVirtual, hresolved]
  simp only [bind, Except.bind, hdelegate, hcall.virtual, Bool.false_eq_true, if_false, Bool.not_true]
  rfl

theorem virtualCall_eq_append (ctx : EmitContext) (i : Instruction) (disp : Int32) (slot ret : Nat) :
    ∃ search, virtualCall ctx i disp slot ret = search ++ [.callReg .esi] ∧
      search.length = 25 + (Instr.reserve ret).length := by
  refine ⟨_, (List.append_assoc _ _ _).symm, ?_⟩
  simp only [nullCheck, throwHere, List.length_append, List.length_cons, List.length_nil]
  omega

/-- The template of a virtual call resolves it. -/
theorem resolves_callVirtual {tables : Table} {options : Options} {methods : List (CompiledMethod Instr)}
    {p : Program Instr} {linked : Store} (hp : LinkedProgram backend tables options methods p linked)
    (hstatics : StaticsFit tables options.pointerSize)
    (hoptions : ctx.options = options) (hcall : CallsVirtual ctx i method) {base : Nat}
    (hplaced : Placed p base (backend.emit ctx i e).code) {object : UInt32} {m : Machine}
    (hcalling : Calling base e.poppedBytes e.pushedBytes options.pointerSize object m)
    (hkeeps : KeepsTypes tables linked.memory m.store.memory) :
    Resolves (Machine.cycle p) p tables methods method.id m.store.memory object (codeAddress (base + 3))
      (Called m e.pushedBytes (base + 26 + (Instr.reserve e.pushedBytes).length)) m := by
  rw [emit_callVirtual hcall] at hplaced
  have hfits := hp.wellFormed.fits
  have hslot := MethodId.ofNat_val_ne_zero hcall.fits
  have hthis : m.store.memory.read ((Int32.ofNat e.poppedBytes -
      Int32.ofNat ctx.options.pointerSize).toUInt32 + m.reg .esp) 4 = .ok object := by
    rw [← hcalling.this, Int32.toUInt32_sub, hoptions, UInt32.add_comm, UInt32.sub_eq_add_neg,
      UInt32.sub_eq_add_neg, ← UInt32.add_assoc]
    rfl
  refine hp.resolves hstatics hcall.fits hkeeps (fun hnull => ?_)
    (fun type table hne _ htype htable => ?_)
    (searches hfits hplaced hp.wellFormed hslot hcalling.room) fun target m' htarget hfound => ?_
  · exact virtualCall_null hfits hplaced hp.wellFormed hcalling.pc (hnull ▸ hthis) hcalling.room
  · exact virtualCall_table hfits hplaced (by rw [hoptions]; exact hp.layout) hcalling.pc hthis hne htype
      htable
  · have hinstr : p.code[base + 25 + (Instr.reserve e.pushedBytes).length]? = some (.callReg .esi) := by
      obtain ⟨search, hsearch, hlength⟩ := virtualCall_eq_append ctx i _ _ _
      have hcallPlaced := hplaced.front
      rw [hsearch] at hcallPlaced
      rw [Nat.add_assoc, ← hlength]
      exact hcallPlaced.back.fetch 0 _ rfl
    obtain ⟨t, hcycle, hpc, hreg, hstore⟩ := hfound.rests.callReg hfits hinstr
      (by rw [hfound.word]; exact htarget) (by rw [hfound.esp]; exact hcalling.callRoom)
    have hesp : t.reg .esp = m.reg .esp - UInt32.ofNat e.pushedBytes - 4 := by
      rw [hreg, update_self, hfound.esp]
    refine .step hcycle (.here ⟨?_, hesp, ?_, ?_⟩)
    · rw [hpc, hfound.word]
    · rw [hreg, update_of_ne (by decide), hfound.ebp]
    · rw [hstore, hesp, hfound.esp, show base + 25 + (Instr.reserve e.pushedBytes).length + 1 =
        base + 26 + (Instr.reserve e.pushedBytes).length by omega]

end Template

end Stencil.X86
