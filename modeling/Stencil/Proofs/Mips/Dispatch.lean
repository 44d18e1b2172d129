import Stencil.Proofs.Dispatch.Tables
import Stencil.Proofs.Mips.Rests

/-!
# Virtual calls on MIPS32

The template of a virtual call tests the receiver for null, follows its type to the method table and
searches it. What the machine does with one pair is a case of `searches`; the search as a whole is that
of the method tables in memory. A branch is taken together with the `nop` in its delay slot.
-/

namespace Stencil.Mips

open AddressMap Stateful Function

/-! ## The search -/

/-- The machine stands at an index with a stack pointer and a word in a register, and with `$zero`, the
frame pointer and the store of another machine. -/
structure Holding (m₀ : Machine) (k : Nat) (sp : UInt32) (r : Reg) (w : UInt32) (m : Machine) :
    Prop where
  pc : m.pc = codeAddress k
  npc : m.npc = codeAddress (k + 1)
  zero : m.reg .zero = m₀.reg .zero
  sp : m.reg .sp = sp
  fp : m.reg .fp = m₀.reg .fp
  store : m.store = m₀.store
  word : m.reg r = w

/-- A machine at the search holds the slot in `$t5` and the address of a pair in `$t0`. -/
structure Scanning (m₀ : Machine) (k slot : Nat) (a : UInt32) (m : Machine) : Prop extends
    Holding m₀ k (m₀.reg .sp) .t0 a m where
  slot : m.reg .t5 = UInt32.ofNat slot

def virtualCall (ctx : EmitContext) (i : Instruction) (disp : Int32) (slot ret : Nat) : List Instr :=
  [Instr.lw .t0 disp .sp] ++ nullCheck ctx i .t0 ++ dispatch ctx i slot ret

theorem virtualCall_eq (ctx : EmitContext) (i : Instruction) (disp : Int32) (slot ret : Nat) :
    virtualCall ctx i disp slot ret =
      ([.lw .t0 disp .sp,
       .branch false .t0 .zero (ctx.inside i "NotNull" 0), .nop,
       .jal Intrinsic.callSite.symbol, .nop,
       .addiu .sp .sp (-4), .sw .v0 0 .sp,
       .jal Intrinsic.throwNullReference.symbol, .nop,
       .label (ctx.inside i "NotNull" 0),
       .lw .t0 (Int32.ofNat ctx.options.layout.typePointer) .t0,
       .lw .t0 (Int32.ofNat ctx.options.layout.typeMethodTable) .t0,
       .li .t5 (Int32.ofNat slot),
       .label (ctx.inside i "Scan" 1),
       .lw .t4 0 .t0,
       .branch true .t4 .t5 (ctx.inside i "Found" 3), .nop,
       .branch false .t4 .zero (ctx.inside i "Next" 2), .nop,
       .lw .t0 4 .t0,
       .branch false .t0 .zero (ctx.inside i "Scan" 1), .nop,
       .li .t9 2, .addiu .sp .sp (-4), .sw .t9 0 .sp,
       .jal Intrinsic.halt.symbol, .nop,
       .label (ctx.inside i "Next" 2),
       .addiu .t0 .t0 8,
       .j (ctx.inside i "Scan" 1), .nop,
       .label (ctx.inside i "Found" 3),
       .lw .t9 4 .t0] : List Instr) ++ (Instr.reserve ret ++ [.jalr .t9, .nop]) := by
  simp only [virtualCall, nullCheck, dispatch, throwHere, Instr.bne, Instr.beq, Instr.callSymbol,
    Instr.push, Instr.pushImm, Instr.jump, Instr.callReg, List.append_assoc, List.cons_append,
    List.nil_append]
  rfl

section Search

variable {ctx : EmitContext} {i : Instruction} {p : Program Instr} {base slot ret : Nat}
  {disp : Int32} {rest : List Instr} {m₀ : Machine} {m : Machine} {a w : UInt32}

theorem Holding.rests {k : Nat} {sp : UInt32} {r : Reg} (h : Holding m₀ k sp r w m) :
    Rests m k m.reg m₀.store := ⟨h.pc, h.npc, fun _ => rfl, h.store⟩

variable (hfits : p.code.size ≤ codeLimit)
  (hplaced : Placed p base (virtualCall ctx i disp slot ret ++ rest)) (hzero : m₀.reg .zero = 0)

include hfits hplaced

/-- A pair for the slot: its address is loaded and the return slot is reserved. -/
theorem search_found (hat : Scanning m₀ (base + 13) slot a m) (haligned : a.toNat % 4 = 0)
    (hslot : m₀.store.memory.read a 4 = .ok (UInt32.ofNat slot))
    (htarget : m₀.store.memory.read (a + 4) 4 = .ok w) :
    Reaches (Machine.cycle p) m (Holding m₀ (base + 33 + (Instr.reserve ret).length)
      (m₀.reg .sp - UInt32.ofNat ret) .t9 w) := by
  rw [virtualCall_eq] at hplaced
  have hfound : p.labels[ctx.inside i "Found" 3]? = some (base + 31) :=
    hplaced.labels 31 _ _ rfl rfl
  refine (hat.rests.label hfits (hplaced.fetch 13 _ rfl)).reaches fun m₁ h₁ => ?_
  refine (h₁.lw hfits (UInt32.ofNat slot) (hplaced.fetch 14 _ rfl) (by decide) ?_ haligned hslot).reaches
    fun m₂ h₂ => ?_
  · rw [hat.word, add_zero_offset]
  refine h₂.branch_taken hfits (hplaced.fetch 15 _ rfl) (hplaced.fetch 16 _ rfl) ?_ hfound
    fun m₃ h₃ => ?_
  · rw [update_self, update_of_ne (by decide), hat.slot]
    exact beq_self_eq_true _
  refine (h₃.label hfits (hplaced.fetch 31 _ rfl)).reaches fun m₄ h₄ => ?_
  refine (h₄.lw hfits w (hplaced.fetch 32 _ rfl) (by decide) ?_ (aligned_add haligned (by decide)) htarget).reaches
    fun m₅ h₅ => ?_
  · rw [update_of_ne (by decide), hat.word]
    rfl
  -- a return slot of no bytes is not reserved
  by_cases hret : ret = 0
  · rw [Instr.reserve, if_pos hret, hret]
    refine .here ⟨h₅.pc, h₅.npc, ?_, ?_, ?_, h₅.store, ?_⟩
    · rw [h₅.reg, update_of_ne (by decide), update_of_ne (by decide), hat.zero]
    · rw [h₅.reg, update_of_ne (by decide), update_of_ne (by decide), hat.sp,
        show UInt32.ofNat 0 = 0 from rfl, UInt32.sub_zero]
    · rw [h₅.reg, update_of_ne (by decide), update_of_ne (by decide), hat.fp]
    · rw [h₅.reg, update_self]
  · have hreserve : Instr.reserve ret = [.addiu .sp .sp (-Int32.ofNat ret)] := by
      rw [Instr.reserve, if_neg hret]
    have hinstr : p.code[base + 33]? = some (.addiu .sp .sp (-Int32.ofNat ret)) := by
      refine hplaced.fetch 33 _ ?_
      rw [hreserve]
      rfl
    refine (h₅.addiu hfits hinstr (by decide)).reaches fun m₆ h₆ => ?_
    rw [hreserve]
    refine .here ⟨h₆.pc, h₆.npc, ?_, ?_, ?_, h₆.store, ?_⟩
    · rw [h₆.reg, update_of_ne (by decide), update_of_ne (by decide), update_of_ne (by decide), hat.zero]
    · rw [h₆.reg, update_self, update_of_ne (by decide), update_of_ne (by decide), hat.sp,
        Int32.toUInt32_neg, UInt32.sub_eq_add_neg]
      rfl
    · rw [h₆.reg, update_of_ne (by decide), update_of_ne (by decide), update_of_ne (by decide), hat.fp]
    · rw [h₆.reg, update_of_ne (by decide), update_self]

include hzero

theorem search_next (hat : Scanning m₀ (base + 13) slot a m) (haligned : a.toNat % 4 = 0)
    (hslot : m₀.store.memory.read a 4 = .ok w) (hne : w ≠ UInt32.ofNat slot) (hw : w ≠ 0) :
    Reaches (Machine.cycle p) m (Scanning m₀ (base + 13) slot (a + 8)) := by
  rw [virtualCall_eq] at hplaced
  have hscan : p.labels[ctx.inside i "Scan" 1]? = some (base + 13) := hplaced.labels 13 _ _ rfl rfl
  have hnext : p.labels[ctx.inside i "Next" 2]? = some (base + 27) := hplaced.labels 27 _ _ rfl rfl
  refine (hat.rests.label hfits (hplaced.fetch 13 _ rfl)).reaches fun m₁ h₁ => ?_
  refine (h₁.lw hfits w (hplaced.fetch 14 _ rfl) (by decide) ?_ haligned hslot).reaches fun m₂ h₂ => ?_
  · rw [hat.word, add_zero_offset]
  refine h₂.branch_passed hfits (hplaced.fetch 15 _ rfl) (hplaced.fetch 16 _ rfl) ?_ fun m₃ h₃ => ?_
  · rw [update_self, update_of_ne (by decide), hat.slot]
    exact beq_false_of_ne hne
  refine h₃.branch_taken hfits (hplaced.fetch 17 _ rfl) (hplaced.fetch 18 _ rfl) ?_ hnext
    fun m₄ h₄ => ?_
  · rw [update_self, update_of_ne (by decide), hat.zero, hzero]
    exact beq_false_of_ne hw
  refine (h₄.label hfits (hplaced.fetch 27 _ rfl)).reaches fun m₅ h₅ => ?_
  refine (h₅.addiu hfits (hplaced.fetch 28 _ rfl) (by decide)).reaches fun m₆ h₆ => ?_
  refine h₆.jump hfits (hplaced.fetch 29 _ rfl) (hplaced.fetch 30 _ rfl) hscan fun m₇ h₇ => ?_
  refine .here ⟨⟨h₇.pc, h₇.npc, ?_, ?_, ?_, h₇.store, ?_⟩, ?_⟩
  · rw [h₇.reg, update_of_ne (by decide), update_of_ne (by decide), hat.zero]
  · rw [h₇.reg, update_of_ne (by decide), update_of_ne (by decide), hat.sp]
  · rw [h₇.reg, update_of_ne (by decide), update_of_ne (by decide), hat.fp]
  · rw [h₇.reg, update_self, update_of_ne (by decide), hat.word]
    rfl
  · rw [h₇.reg, update_of_ne (by decide), update_of_ne (by decide), hat.slot]

/-- The end of a table: the table that it goes on with is loaded. -/
theorem search_end (hat : Scanning m₀ (base + 13) slot a m) (haligned : a.toNat % 4 = 0)
    (hslot : UInt32.ofNat slot ≠ 0) (hend : m₀.store.memory.read a 4 = .ok 0)
    (hparent : m₀.store.memory.read (a + 4) 4 = .ok w) {Q : Machine → Prop}
    (hnext : ∀ m', Rests m' (base + 20) (update (update m.reg .t4 0) .t0 w) m₀.store →
      Reaches (Machine.cycle p) m' Q) :
    Reaches (Machine.cycle p) m Q := by
  rw [virtualCall_eq] at hplaced
  refine (hat.rests.label hfits (hplaced.fetch 13 _ rfl)).reaches fun m₁ h₁ => ?_
  refine (h₁.lw hfits 0 (hplaced.fetch 14 _ rfl) (by decide) ?_ haligned hend).reaches fun m₂ h₂ => ?_
  · rw [hat.word, add_zero_offset]
  refine h₂.branch_passed hfits (hplaced.fetch 15 _ rfl) (hplaced.fetch 16 _ rfl) ?_ fun m₃ h₃ => ?_
  · rw [update_self, update_of_ne (by decide), hat.slot]
    exact beq_false_of_ne hslot.symm
  refine h₃.branch_passed hfits (hplaced.fetch 17 _ rfl) (hplaced.fetch 18 _ rfl) ?_ fun m₄ h₄ => ?_
  · rw [update_self, update_of_ne (by decide), hat.zero, hzero]
    rfl
  refine (h₄.lw hfits w (hplaced.fetch 19 _ rfl) (by decide) ?_ (aligned_add haligned (by decide)) hparent).reaches
    hnext
  rw [update_of_ne (by decide), hat.word]
  rfl

theorem search_parent (hat : Scanning m₀ (base + 13) slot a m) (haligned : a.toNat % 4 = 0)
    (hslot : UInt32.ofNat slot ≠ 0) (hend : m₀.store.memory.read a 4 = .ok 0)
    (hparent : m₀.store.memory.read (a + 4) 4 = .ok w) (hw : w ≠ 0) :
    Reaches (Machine.cycle p) m (Scanning m₀ (base + 13) slot w) := by
  have hcode := hplaced
  rw [virtualCall_eq] at hplaced
  have hscan : p.labels[ctx.inside i "Scan" 1]? = some (base + 13) := hplaced.labels 13 _ _ rfl rfl
  refine search_end hfits hcode hzero hat haligned hslot hend hparent fun m₁ h₁ => ?_
  refine h₁.branch_taken hfits (hplaced.fetch 20 _ rfl) (hplaced.fetch 21 _ rfl) ?_ hscan
    fun m₂ h₂ => ?_
  · rw [update_self, update_of_ne (by decide), update_of_ne (by decide), hat.zero, hzero]
    exact beq_false_of_ne hw
  refine .here ⟨⟨h₂.pc, h₂.npc, ?_, ?_, ?_, h₂.store, ?_⟩, ?_⟩
  · rw [h₂.reg, update_of_ne (by decide), update_of_ne (by decide), hat.zero]
  · rw [h₂.reg, update_of_ne (by decide), update_of_ne (by decide), hat.sp]
  · rw [h₂.reg, update_of_ne (by decide), update_of_ne (by decide), hat.fp]
  · rw [h₂.reg, update_self]
  · rw [h₂.reg, update_of_ne (by decide), update_of_ne (by decide), hat.slot]

theorem search_missing (hwf : p.WellFormed) (hat : Scanning m₀ (base + 13) slot a m)
    (haligned : a.toNat % 4 = 0) (hslot : UInt32.ofNat slot ≠ 0)
    (hend : m₀.store.memory.read a 4 = .ok 0) (hparent : m₀.store.memory.read (a + 4) 4 = .ok 0)
    (hsp : (m₀.reg .sp).toNat % 4 = 0) (hroom : Memory.mapped (m₀.reg .sp - 4) 4 = true) :
    Ends (Machine.cycle p) (.halt HaltReason.missingVirtualMethod.code) m := by
  have hcode := hplaced
  rw [virtualCall_eq] at hplaced
  refine search_end hfits hcode hzero hat haligned hslot hend hparent fun m₁ h₁ => ?_
  refine h₁.branch_passed hfits (hplaced.fetch 20 _ rfl) (hplaced.fetch 21 _ rfl) ?_ fun m₂ h₂ => ?_
  · rw [update_self, update_of_ne (by decide), update_of_ne (by decide), hat.zero, hzero]
    rfl
  refine (h₂.li hfits (hplaced.fetch 22 _ rfl) (by decide)).reaches fun m₃ h₃ => ?_
  refine (h₃.addiu hfits (hplaced.fetch 23 _ rfl) (by decide)).reaches fun m₄ h₄ => ?_
  rw [update_of_ne (by decide : Reg.sp ≠ .t9), update_of_ne (by decide : Reg.sp ≠ .t0),
    update_of_ne (by decide : Reg.sp ≠ .t4), hat.sp, add_minus_four] at h₄
  refine (h₄.sw hfits (hplaced.fetch 24 _ rfl) (add_zero_offset _) (aligned_sub_four hsp) hroom).reaches
    fun m₅ h₅ => ?_
  refine h₅.stops hfits hwf (hplaced.fetch 25 _ rfl) (hplaced.fetch 26 _ rfl) fun site => ?_
  refine Program.runIntrinsic_halt ?_
  rw [update_self, update_of_ne (by decide), update_self]
  exact Store.read_withWord hroom _ _

/-- What the template does with a pair is what a search does. -/
theorem searches (hwf : p.WellFormed) (hslot : UInt32.ofNat slot ≠ 0)
    (hsp : (m₀.reg .sp).toNat % 4 = 0) (hroom : Memory.mapped (m₀.reg .sp - 4) 4 = true) :
    Searches (Machine.cycle p) m₀.store.memory (UInt32.ofNat slot) (Scanning m₀ (base + 13) slot)
      (Holding m₀ (base + 33 + (Instr.reserve ret).length) (m₀.reg .sp - UInt32.ofNat ret) .t9)
      (Ends (Machine.cycle p) (.halt HaltReason.missingVirtualMethod.code)) where
  found hat haligned hpair htarget := search_found hfits hplaced hat haligned hpair htarget
  next hat haligned hpair hne hw := search_next hfits hplaced hzero hat haligned hpair hne hw
  parent hat haligned hend hparent hb :=
    search_parent hfits hplaced hzero hat haligned hslot hend hparent hb
  missing hat haligned hend hparent :=
    .here (search_missing hfits hplaced hzero hwf hat haligned hslot hend hparent hsp hroom)

/-! ## The receiver -/

theorem virtualCall_null (hwf : p.WellFormed) (hpc : m₀.pc = codeAddress base)
    (hnpc : m₀.npc = codeAddress (base + 1)) {this : UInt32}
    (hthisAddress : m₀.reg .sp + disp.toUInt32 = this) (hthisAligned : this.toNat % 4 = 0)
    (hthis : m₀.store.memory.read this 4 = .ok 0) (hsp : (m₀.reg .sp).toNat % 4 = 0)
    (hroom : Memory.mapped (m₀.reg .sp - 4) 4 = true) :
    Ends (Machine.cycle p) (.nullReference (codeAddress (base + 3))) m₀ := by
  have hrests : Rests m₀ base m₀.reg m₀.store := ⟨hpc, hnpc, fun _ => rfl, rfl⟩
  rw [virtualCall, List.append_assoc, List.append_assoc] at hplaced
  refine (hrests.lw hfits 0 (hplaced.fetch 0 _ rfl) (by decide) hthisAddress hthisAligned hthis).reaches
    fun m₁ h₁ => ?_
  exact h₁.nullCheck_null hfits hwf hplaced.back (by rw [update_of_ne (by decide), hzero])
    (update_self ..) hsp hroom

/-- Any other receiver leads to the method table of its type. -/
theorem virtualCall_table (hlayout : ctx.options.layout = {}) (hpc : m₀.pc = codeAddress base)
    (hnpc : m₀.npc = codeAddress (base + 1)) {this object type table : UInt32}
    (hthisAddress : m₀.reg .sp + disp.toUInt32 = this) (hthisAligned : this.toNat % 4 = 0)
    (hthis : m₀.store.memory.read this 4 = .ok object) (hobject : object ≠ 0)
    (hobjectAligned : object.toNat % 4 = 0) (htype : m₀.store.memory.read object 4 = .ok type)
    (htypeAligned : type.toNat % 4 = 0) (htable : m₀.store.memory.read (type + 8) 4 = .ok table) :
    Reaches (Machine.cycle p) m₀ (Scanning m₀ (base + 13) slot table) := by
  have hcheck := hplaced
  rw [virtualCall, List.append_assoc, List.append_assoc] at hcheck
  rw [virtualCall_eq] at hplaced
  have hrests : Rests m₀ base m₀.reg m₀.store := ⟨hpc, hnpc, fun _ => rfl, rfl⟩
  refine (hrests.lw hfits object (hplaced.fetch 0 _ rfl) (by decide) hthisAddress hthisAligned hthis).reaches
    fun m₁ h₁ => ?_
  refine h₁.nullCheck_object hfits hcheck.back (by rw [update_of_ne (by decide), hzero])
    (by rwa [update_self]) fun m₃ h₃ => ?_
  refine (h₃.lw hfits type (hplaced.fetch 10 _ rfl) (by decide) ?_ hobjectAligned htype).reaches fun m₄ h₄ => ?_
  · rw [update_self, hlayout]
    exact add_zero_offset object
  refine (h₄.lw hfits table (hplaced.fetch 11 _ rfl) (by decide) ?_ (aligned_add htypeAligned (by decide))
    htable).reaches fun m₅ h₅ => ?_
  · rw [update_self, hlayout]
    rfl
  refine (h₅.li hfits (hplaced.fetch 12 _ rfl) (by decide)).reaches fun m₆ h₆ => ?_
  rw [update_idem, update_idem] at h₆
  refine .here ⟨⟨h₆.pc, h₆.npc, ?_, ?_, ?_, h₆.store, ?_⟩, ?_⟩
  · rw [h₆.reg, update_of_ne (by decide), update_of_ne (by decide)]
  · rw [h₆.reg, update_of_ne (by decide), update_of_ne (by decide)]
  · rw [h₆.reg, update_of_ne (by decide), update_of_ne (by decide)]
  · rw [h₆.reg, update_of_ne (by decide), update_self]
  · rw [h₆.reg, update_self]
    rfl

end Search

/-- The machine was called at an address: the return slot is reserved, the return address is in `$ra`,
and nothing else has changed. -/
structure Called (m₀ : Machine) (ret back : Nat) (target : UInt32) (m : Machine) : Prop where
  pc : m.pc = target
  npc : m.npc = target + 4
  sp : m.reg .sp = m₀.reg .sp - UInt32.ofNat ret
  fp : m.reg .fp = m₀.reg .fp
  ra : m.reg .ra = codeAddress back
  store : m.store = m₀.store

/-! ## The template -/

/-- The machine is about to call a virtual method on an object, below arguments of `args` bytes. The
stack and the object are aligned, and there is room on the stack for a word. -/
structure Calling (base args pointerSize : Nat) (object : UInt32) (m : Machine) : Prop where
  pc : m.pc = codeAddress base
  npc : m.npc = codeAddress (base + 1)
  zero : m.reg .zero = 0
  aligned : (m.reg .sp).toNat % 4 = 0
  thisAligned : (m.reg .sp + UInt32.ofNat args - UInt32.ofNat pointerSize).toNat % 4 = 0
  this : m.store.memory.read (m.reg .sp + UInt32.ofNat args - UInt32.ofNat pointerSize) 4 = .ok object
  objectAligned : object.toNat % 4 = 0
  room : Memory.mapped (m.reg .sp - 4) 4 = true

section Template

variable {ctx : EmitContext} {i : Instruction} {e : Effect} {method : MethodDescriptor}

theorem emit_callVirtual (hcall : CallsVirtual ctx i method)
    (hfailure : (backend.emit ctx i e).failure = none) :
    ∃ disp, disp.toUInt32 = UInt32.ofNat e.poppedBytes - UInt32.ofNat ctx.options.pointerSize ∧
      (backend.emit ctx i e).code = virtualCall ctx i disp method.id.val e.pushedBytes ++
        afterCall e.pushedBytes e.poppedBytes := by
  obtain ⟨declaring, hresolved, hdelegate⟩ := hcall.resolved
  have hemit : backend.emit ctx i e = .ofExcept (callVirtual ctx i e) := by
    show emit ctx i e = _
    unfold emit
    rw [hcall.operation]
  rw [hemit, callVirtual, hresolved] at hfailure ⊢
  cases hdisp : displacement i ((e.poppedBytes : Int) - ctx.options.pointerSize) with
  | error err =>
    simp only [bind, Except.bind, hdisp] at hfailure
    cases hfailure
  | ok disp =>
    refine ⟨disp, ?_, ?_⟩
    · rw [displacement_ok hdisp, Int32.ofInt_sub, Int32.toUInt32_sub]
      rfl
    · simp only [bind, Except.bind, hdisp, hdelegate, hcall.virtual, Bool.false_eq_true, if_false,
        Bool.not_true]
      rfl

/-- The template of a virtual call resolves it. -/
theorem resolves_callVirtual {tables : Table} {options : Options} {methods : List (CompiledMethod Instr)}
    {p : Program Instr} {linked : Store} (hp : LinkedProgram backend tables options methods p linked)
    (hstatics : StaticsFit tables options.pointerSize)
    (hoptions : ctx.options = options) (hcall : CallsVirtual ctx i method)
    (hfailure : (backend.emit ctx i e).failure = none) {base : Nat}
    (hplaced : Placed p base (backend.emit ctx i e).code) {object : UInt32} {m : Machine}
    (hcalling : Calling base e.poppedBytes options.pointerSize object m)
    (hkeeps : KeepsTypes tables linked.memory m.store.memory) :
    Resolves (Machine.cycle p) p tables methods method.id m.store.memory object (codeAddress (base + 3))
      (Called m e.pushedBytes (base + 35 + (Instr.reserve e.pushedBytes).length)) m := by
  obtain ⟨disp, hdisp, hemit⟩ := emit_callVirtual hcall hfailure
  rw [hemit] at hplaced
  have hfits := hp.wellFormed.fits
  have hslot := MethodId.ofNat_val_ne_zero hcall.fits
  have hthis : m.reg .sp + disp.toUInt32 =
      m.reg .sp + UInt32.ofNat e.poppedBytes - UInt32.ofNat options.pointerSize := by
    rw [hdisp, hoptions, UInt32.sub_eq_add_neg, UInt32.sub_eq_add_neg, ← UInt32.add_assoc]
  refine hp.resolves hstatics hcall.fits hkeeps (fun hnull => ?_)
    (fun type table hne htypeAligned htype htable => ?_)
    (searches hfits hplaced hcalling.zero hp.wellFormed hslot hcalling.aligned hcalling.room)
    fun target m' _ hfound => ?_
  · exact virtualCall_null hfits hplaced hcalling.zero hp.wellFormed hcalling.pc hcalling.npc hthis
      hcalling.thisAligned (hnull ▸ hcalling.this) hcalling.aligned hcalling.room
  · exact virtualCall_table hfits hplaced hcalling.zero (by rw [hoptions]; exact hp.layout) hcalling.pc
      hcalling.npc hthis hcalling.thisAligned hcalling.this hne hcalling.objectAligned htype htypeAligned
      htable
  · have hcallPlaced : Placed p (base + (33 + (Instr.reserve e.pushedBytes).length))
        [.jalr .t9, .nop] := by
      have hfront := hplaced.front
      rw [virtualCall_eq, ← List.append_assoc] at hfront
      have hback := hfront.back
      rw [List.length_append] at hback
      exact hback
    rw [← Nat.add_assoc] at hcallPlaced
    refine hfound.rests.callReg hfits (hcallPlaced.fetch 0 _ rfl) (hcallPlaced.fetch 1 _ rfl)
      fun t h => .here ⟨?_, ?_, ?_, ?_, ?_, h.store⟩
    · rw [h.pc, hfound.word]
    · rw [h.npc, hfound.word]
    · rw [h.reg, update_of_ne (by decide), hfound.sp]
    · rw [h.reg, update_of_ne (by decide), hfound.fp]
    · rw [h.reg, update_self, show base + 33 + (Instr.reserve e.pushedBytes).length + 2 =
        base + 35 + (Instr.reserve e.pushedBytes).length by omega]

end Template

end Stencil.Mips
