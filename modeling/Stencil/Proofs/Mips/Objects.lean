import Stencil.Proofs.Execution.Moves
import Stencil.Proofs.Mips.Touch
import Stencil.Proofs.Mips.Ways
import Stencil.Proofs.Objects.Basic
import Mathlib.Tactic.IntervalCases

/-!
# Objects that are created on MIPS32

The template allocates (`allocates`) and tests what it got. From null the run ends (`ends_outOfMemory`);
otherwise the arguments move down, the object is stored above them twice, and the constructor is called.
-/

namespace Stencil.Mips

open AddressMap Stateful Function

/-! ## Allocation -/

section Allocation

variable {p : Program Instr} {ctx ctor : EmitContext} {i : Instruction} {symbol : Symbol} {after : List Instr}
  {site entry : Nat} {words : List UInt32} {fp descriptor object : UInt32} {m : Machine} {s : Store}

section Calls

variable {intrinsic : Intrinsic} {k : Nat} {Q : Machine → Prop} (hwf : p.WellFormed)
  (hentry : entry < p.code.size) (hat : Runner.At Instr m k)
  (hplaced : Placed p k (Instr.callSymbol intrinsic.symbol)) (hout : m.pc ≠ codeAddress entry)
  (hout' : codeAddress (k + 1) ≠ codeAddress entry)

include hwf hentry hat hplaced hout hout'

theorem avoids_call
    (hnext : ∀ m' : Machine, Intrinsic.atAddress? m'.pc = some intrinsic → m'.pc ≠ codeAddress entry →
      m'.reg .ra = codeAddress (k + 2) → (∀ r, r ≠ .ra → m'.reg r = m.reg r) → m'.store = m.store →
        Avoids (Machine.cycle p) (fun m' => m'.pc = codeAddress entry) Q m') :
    Avoids (Machine.cycle p) (fun m' => m'.pc = codeAddress entry) Q m := by
  obtain ⟨hpc, hnpc, -⟩ := hat
  obtain ⟨address, hresolve, hintrinsic⟩ := hwf.intrinsics intrinsic
  have hexecute : Machine.execute p (.jal intrinsic.symbol) (m.fetched k) =
      .ok (some address) ((m.fetched k).setReg .ra (codeAddress (k + 2))) := by
    rw [← codeAddress_add_eight, ← hpc, Machine.execute, hresolve]
    rfl
  have hjump := Machine.cycle_of_execute hwf.fits hpc (hplaced.fetch 0 _ rfl) hexecute
  have hslot : (((m.fetched k).setReg .ra (codeAddress (k + 2))).advance (some address)).pc =
      codeAddress (k + 1) := by rw [Machine.advance_pc, Machine.setReg_npc, Machine.fetched_npc, hnpc]
  have hnop := Machine.cycle_of_execute hwf.fits hslot (hplaced.fetch 1 _ rfl) rfl
  refine .step hout hjump (.step (by rwa [hslot]) hnop (hnext _ hintrinsic (fun heq => ?_) ?_ ?_ ?_))
  · have hnone := atAddress?_codeAddress (hentry.trans_le hwf.fits)
    rw [← heq] at hnone
    cases hnone.symm.trans hintrinsic
  · exact Machine.reg_setReg_self (m.fetched k) _ (by decide)
  · exact fun r hr => Machine.reg_setReg_of_ne (m.fetched k) _ hr
  · exact Machine.setReg_store ..

/-- An intrinsic without a result is run, and control comes back. -/
theorem avoids_returns {store : Store}
    (hrun : ∀ site, p.runIntrinsic intrinsic (m.reg .sp) site m.store = .ok none store)
    (hnext : ∀ m' : Machine, Runner.At Instr m' (k + 2) → (∀ r, r ≠ .ra → m'.reg r = m.reg r) →
      m'.store = store → Avoids (Machine.cycle p) (fun m' => m'.pc = codeAddress entry) Q m') :
    Avoids (Machine.cycle p) (fun m' => m'.pc = codeAddress entry) Q m := by
  refine avoids_call hwf hentry hat hplaced hout hout' fun m₁ hintrinsic hout₁ hra hregs hstore => ?_
  have hcycle := Machine.cycle_intrinsic_of_ok (p := p) hintrinsic
    (by rw [hstore, hregs .sp (by decide), hrun])
  refine .step hout₁ hcycle (hnext _ ⟨hra, ?_, ?_⟩ hregs rfl)
  · show m₁.reg .ra + 4 = _
    rw [hra, codeAddress_succ]
  · exact (hregs .zero (by decide)).trans hat.2.2

theorem avoids_stops {fault : Fault}
    (hrun : ∀ site, p.runIntrinsic intrinsic (m.reg .sp) site m.store = .error fault m.store) :
    EndsOutside (Machine.cycle p) (fun m' => m'.pc = codeAddress entry) fault m := by
  refine avoids_call hwf hentry hat hplaced hout hout' fun m₁ hintrinsic hout₁ hra hregs hstore =>
    .here ⟨hout₁, m₁, Machine.cycle_intrinsic_of_error hintrinsic ?_⟩
  rw [hregs .sp (by decide), hstore, hrun]

end Calls

/-- While it allocates the machine is not at the start of a method: that pushes the return address first. -/
theorem outside_of_placed (hfits : p.code.size ≤ codeLimit)
    (hplaced : Placed p site (allocate ctx i .newObject symbol ++ after))
    (hstart : Placed p entry (prologue ctor)) {k : Nat} (hk : k < 16) :
    codeAddress (site + k) ≠ codeAddress entry := by
  have hlength : (allocate ctx i .newObject symbol ++ after).length = 17 + after.length := by
    rw [List.length_append]
    rfl
  have hindex := hplaced.index_lt (k := k) (by omega)
  have hentry : entry < p.code.size := hstart.index_lt (k := 0) (Nat.zero_lt_succ _)
  rw [Ne, codeAddress_inj (by omega) (by omega)]
  -- where the stack pointer moves, the next instruction tells the code from the start
  by_cases hmoves : k = 1 ∨ k = 3 ∨ k = 12
  · rcases hmoves with rfl | rfl | rfl <;> exact hplaced.apart (j := 1) hstart rfl rfl nofun
  · interval_cases k <;>
      first
      | omega
      | exact hplaced.apart (j := 0) hstart rfl rfl nofun

/-- A register is pushed outside of the start of a method. -/
theorem avoids_push (hfits : p.code.size ≤ codeLimit) {k : Nat} {r : Reg} {u : Snapshot Reg} {a : UInt32}
    (hplaced : Placed p k (Instr.push r)) (hat : Runner.At Instr m k) (hm : snap Instr m = u) (hr : r ≠ .sp)
    (ha : u.regs .sp + (-4 : Int32).toUInt32 = a) (haligned : a.toNat % 4 = 0)
    (hmapped : Memory.mapped a 4 = true) (hout : codeAddress k ≠ codeAddress entry)
    (hout' : codeAddress (k + 1) ≠ codeAddress entry) :
    Avoids (Machine.cycle p) (fun m' => m'.pc = codeAddress entry)
      (fun m' => Runner.At Instr m' (k + 2) ∧ snap Instr m' = (u.set .sp a).put a 4 (u.regs r)) m := by
  refine .instr (steps_addiu hfits .sp (-4) (by decide)) (hplaced.fetch 0 _ rfl) hat hm (by rwa [hat.1])
    fun m₁ hat₁ hm₁ => ?_
  rw [ha] at hm₁
  refine .instr (steps_sw hfits (a := a) ?_ haligned hmapped (Set.subset_univ _)) (hplaced.fetch 1 _ rfl) hat₁ hm₁
    (by rwa [hat₁.1]) fun m₂ hat₂ hm₂ => .here ⟨hat₂, ?_⟩
  · rw [Snapshot.set_self]
    exact add_zero_offset _
  · rw [hm₂, Snapshot.set_of_ne _ hr]

section Allocates

variable (hwf : p.WellFormed) (hplaced : Placed p site (allocate ctx i .newObject symbol ++ after))
  (hstart : Placed p entry (prologue ctor))

include hwf hplaced hstart

/-- The descriptor is pushed, and a slot for the object is reserved. -/
theorem avoids_pushDescriptor (hresolve : p.resolve symbol = .ok descriptor)
    (hroom : words.length + 1 < stackCapacity) (hm : Poised Instr m site words fp) :
    Avoids (Machine.cycle p) (fun m' => m'.pc = codeAddress entry)
      (fun m' => Runner.At Instr m' (site + 4) ∧ m'.reg .sp = wordAddress (words.length + 1) ∧ m'.reg .fp = fp ∧
        m'.store = m.store.withMemory (m.store.memory.put (wordPlace words.length) descriptor 4)) m := by
  have hfits := hwf.fits
  have hout := @outside_of_placed p ctx ctor i symbol after site entry hfits hplaced hstart
  obtain ⟨hpc, hnpc, hzero, hsp, hfp, -⟩ := poised_iff.mp hm
  have hslot : m.reg .sp + (-4 : Int32).toUInt32 = wordAddress words.length := by
    rw [add_minus_four, hsp, stackPointer_sub descriptor, stackPointer_cons]
  have hslot' : wordAddress words.length + (-Int32.ofNat Intrinsic.newObject.returnBytes).toUInt32 =
      wordAddress (words.length + 1) := by
    rw [show -Int32.ofNat Intrinsic.newObject.returnBytes = -4 from rfl, add_minus_four]
    exact stackPointer_sub 0 (0 :: words)
  have haddress : Placed p site ([Instr.la .t9 symbol] ++ Instr.push .t9) :=
    hplaced.front.front.front.front.front.front
  refine .instr (steps_la hfits (by decide) hresolve) (hplaced.fetch 0 _ rfl) ⟨hpc, hnpc, hzero⟩ rfl
    (by rw [hpc]; exact hout (k := 0) (by decide)) fun m₁ hat₁ hm₁ => ?_
  refine (avoids_push (a := wordAddress words.length) hfits haddress.back hat₁ hm₁ (by decide) ?_
    (wordAddress_mod_four (by omega)) (mapped_wordAddress (by omega)) (hout (k := 1) (by decide))
    (hout (k := 2) (by decide))).trans fun m₃ ⟨hat₃, hm₃⟩ => ?_
  · rw [Snapshot.set_of_ne _ (by decide)]
    exact hslot
  refine .instr (steps_addiu hfits .sp _ (by decide)) (hplaced.fetch 3 _ rfl) hat₃ hm₃
    (by rw [hat₃.1]; exact hout (k := 3) (by decide)) fun m₄ hat₄ hm₄ => .here ⟨hat₄, ?_, ?_, ?_⟩
  · show (snap Instr m₄).regs .sp = _
    rw [hm₄, Snapshot.set_self, Snapshot.put_regs, Snapshot.set_self, hslot']
  · show (snap Instr m₄).regs .fp = _
    rw [hm₄, Snapshot.set_of_ne _ (by decide), Snapshot.put_regs, Snapshot.set_of_ne _ (by decide),
      Snapshot.set_of_ne _ (by decide)]
    exact hfp
  · show (snap Instr m₄).store = _
    rw [hm₄]
    show m.store.put (wordAddress words.length) 4 descriptor = _
    rw [Store.put, toNat_wordAddress (by omega)]
    rfl

theorem avoids_popObject (hroom : words.length + 1 < stackCapacity) (hat : Runner.At Instr m (site + 6))
    (hsp : m.reg .sp = wordAddress (words.length + 1)) (hfp : m.reg .fp = fp)
    (hholds : m.store.memory.Holds (object :: descriptor :: words)) :
    Avoids (Machine.cycle p) (fun m' => m'.pc = codeAddress entry)
      (fun m' => Poised Instr m' (site + 9) words fp ∧ m'.reg .t0 = object) m := by
  have hfits := hwf.fits
  have hout := @outside_of_placed p ctx ctor i symbol after site entry hfits hplaced hstart
  have hread : (snap Instr m).memory.read (wordAddress (words.length + 1)) 4 = .ok object := hholds.read_top
  refine .instr (steps_lw hfits (by decide) ?_ (wordAddress_mod_four hroom) hread (Set.subset_univ _))
    (hplaced.fetch 6 _ rfl) hat rfl (by rw [hat.1]; exact hout (k := 6) (by decide)) fun m₁ hat₁ hm₁ => ?_
  · show m.reg .sp + _ = _
    rw [hsp]
    exact add_zero_offset _
  refine .instr (steps_addiu hfits .sp _ (by decide)) (hplaced.fetch 7 _ rfl) hat₁ hm₁
    (by rw [hat₁.1]; exact hout (k := 7) (by decide)) fun m₂ hat₂ hm₂ => ?_
  refine .instr (steps_addiu hfits .sp _ (by decide)) (hplaced.fetch 8 _ rfl) hat₂ hm₂
    (by rw [hat₂.1]; exact hout (k := 8) (by decide)) fun m₃ hat₃ hm₃ =>
      .here ⟨poised_iff.mpr ⟨hat₃.1, hat₃.2.1, hat₃.2.2, ?_, ?_, ?_⟩, ?_⟩
  · show (snap Instr m₃).regs .sp = _
    rw [hm₃, Snapshot.set_self, Snapshot.set_self, Snapshot.set_of_ne _ (by decide)]
    show m.reg .sp + 4 + 4 = _
    rw [hsp]
    exact (congrArg (· + 4) (stackPointer_cons_add 0 (0 :: words))).trans (stackPointer_cons_add 0 words)
  · show (snap Instr m₃).regs .fp = _
    rw [hm₃, Snapshot.set_of_ne _ (by decide), Snapshot.set_of_ne _ (by decide),
      Snapshot.set_of_ne _ (by decide)]
    exact hfp
  · show (snap Instr m₃).store.memory.Holds words
    rw [hm₃]
    exact hholds.2.2.2.2
  · show (snap Instr m₃).regs .t0 = _
    rw [hm₃, Snapshot.set_of_ne _ (by decide), Snapshot.set_of_ne _ (by decide), Snapshot.set_self]

/-- The template allocates without getting to the constructor, and the words of the stack stay. -/
theorem allocates (hresolve : p.resolve symbol = .ok descriptor)
    (hobject : p.newObject descriptor m.store = .ok object s)
    (hbelow : HeapBelow p m.store (words.length + 1)) (hroom : words.length + 1 < stackCapacity)
    (hm : Poised Instr m site words fp) :
    Avoids (Machine.cycle p) (fun m' => m'.pc = codeAddress entry)
      (fun m' => Poised Instr m' (site + 9) words fp ∧ m'.reg .t0 = object) m := by
  have hentry : entry < p.code.size := hstart.index_lt (k := 0) (Nat.zero_lt_succ _)
  have hout := @outside_of_placed p ctx ctor i symbol after site entry hwf.fits hplaced hstart
  obtain ⟨-, -, -, -, -, hholds⟩ := poised_iff.mp hm
  obtain ⟨store₂, hrun, hholds₂⟩ :=
    runIntrinsic_newObject_holds hobject hbelow hroom (hholds.put_word (by omega))
  refine (avoids_pushDescriptor hwf hplaced hstart hresolve hroom hm).trans
    fun m₁ ⟨hat₁, hsp₁, hfp₁, hstore₁⟩ => ?_
  -- the allocator is called, and leaves the object in its slot
  have hcall : Placed p (site + 4) (Instr.callSymbol Intrinsic.newObject.symbol) :=
    hplaced.front.front.front.front.back
  have hruns : ∀ site, p.runIntrinsic .newObject (m₁.reg .sp) site m₁.store = .ok none store₂ := by
    rw [hsp₁, hstore₁]
    exact hrun
  refine avoids_returns hwf hentry hat₁ hcall (by rw [hat₁.1]; exact hout (k := 4) (by decide))
    (hout (k := 5) (by decide)) hruns fun m₂ hat₂ hregs₂ hstore₂ => ?_
  rw [← hstore₂] at hholds₂
  refine avoids_popObject hwf hplaced hstart hroom hat₂ ?_ ?_ hholds₂
  · rw [hregs₂ .sp (by decide), hsp₁]
  · rw [hregs₂ .fp (by decide), hfp₁]

theorem ends_outOfMemory (hroom : words.length < stackCapacity) (hm : Poised Instr m (site + 9) words fp)
    (hnull : m.reg .t0 = 0) :
    EndsOutside (Machine.cycle p) (fun m' => m'.pc = codeAddress entry)
      (.halt HaltReason.outOfMemory.code) m := by
  have hfits := hwf.fits
  have hentry : entry < p.code.size := hstart.index_lt (k := 0) (Nat.zero_lt_succ _)
  have hout := @outside_of_placed p ctx ctor i symbol after site entry hfits hplaced hstart
  obtain ⟨hpc, hnpc, hzero, hsp, -, -⟩ := poised_iff.mp hm
  have hslot : m.reg .sp + (-4 : Int32).toUInt32 = wordAddress words.length := by
    rw [add_minus_four, hsp, stackPointer_sub 0, stackPointer_cons]
  have hmapped : Memory.mapped (wordAddress words.length) 4 = true := mapped_wordAddress hroom
  have hbranch : Branches p (.branch false .t0 .zero (ctx.inside i "Allocated" 0))
      (ctx.inside i "Allocated" 0) (snap Instr m) false := by
    have htest := branches_bne (p := p) (s := snap Instr m) .t0 .zero (ctx.inside i "Allocated" 0)
    rwa [show (snap Instr m).regs .t0 = 0 from hnull, show (snap Instr m).regs .zero = 0 from hzero] at htest
  refine .instr (steps_passed hfits hbranch) (hplaced.fetch 9 _ rfl) ⟨hpc, hnpc, hzero⟩ rfl
    (by rw [hpc]; exact hout (k := 9) (by decide)) fun m₁ hat₁ hm₁ => ?_
  refine .instr (steps_nop hfits) (hplaced.fetch 10 _ rfl) hat₁ hm₁
    (by rw [hat₁.1]; exact hout (k := 10) (by decide)) fun m₂ hat₂ hm₂ => ?_
  -- the reason is pushed and the run halts
  have hreason : Placed p (site + 11)
      ([Instr.li .t9 HaltReason.outOfMemory.code.toInt32] ++ Instr.push .t9) :=
    hplaced.front.back.front.front.back
  refine .instr (steps_li hfits _ (by decide)) (hplaced.fetch 11 _ rfl) hat₂ hm₂
    (by rw [hat₂.1]; exact hout (k := 11) (by decide)) fun m₃ hat₃ hm₃ => ?_
  refine (avoids_push (a := wordAddress words.length) hfits hreason.back hat₃ hm₃ (by decide) ?_
    (wordAddress_mod_four hroom) hmapped (hout (k := 12) (by decide)) (hout (k := 13) (by decide))).trans
    fun m₅ ⟨hat₅, hm₅⟩ => ?_
  · rw [Snapshot.set_of_ne _ (by decide)]
    exact hslot
  have hcall : Placed p (site + 14) (Instr.callSymbol Intrinsic.halt.symbol) :=
    hplaced.front.back.front.back
  refine avoids_stops hwf hentry hat₅ hcall (by rw [hat₅.1]; exact hout (k := 14) (by decide))
    (hout (k := 15) (by decide)) fun site => Program.runIntrinsic_halt ?_
  show (snap Instr m₅).store.memory.read ((snap Instr m₅).regs .sp) 4 = _
  rw [hm₅, Snapshot.put_regs, Snapshot.set_self, Snapshot.set_self]
  exact Store.read_withWord hmapped _ m.store

end Allocates

theorem passes_check (hfits : p.code.size ≤ codeLimit)
    (hplaced : Placed p site (allocate ctx i .newObject symbol ++ after))
    (hm : Poised Instr m (site + 9) words fp) (hobject : m.reg .t0 ≠ 0) :
    Reaches (Machine.cycle p) m fun m' =>
      Poised Instr m' (site + 17) words fp ∧ m'.reg .t0 = m.reg .t0 := by
  have hallocated : p.labels[ctx.inside i "Allocated" 0]? = some (site + 16) := hplaced.labels 16 _ _ rfl rfl
  obtain ⟨-, -, hzero, hsp, hfp, hholds⟩ := poised_iff.mp hm
  refine (rests_of_poised hm).branch_taken hfits (hplaced.fetch 9 _ rfl) (hplaced.fetch 10 _ rfl) ?_
    hallocated fun m₁ h₁ => ?_
  · rw [hzero]
    exact beq_false_of_ne hobject
  refine (h₁.label hfits (hplaced.fetch 16 _ rfl)).reaches fun m₂ h₂ =>
    .here ⟨poised_iff.mpr ⟨h₂.pc, h₂.npc, ?_, ?_, ?_, ?_⟩, h₂.reg .t0⟩
  · rw [h₂.reg, hzero]
  · rw [h₂.reg, hsp]
  · rw [h₂.reg, hfp]
  · rw [h₂.store]
    exact hholds

end Allocation

/-! ## Arguments that move down -/

section Lowering

variable {slots args deep : List UInt32} {fp : UInt32}

theorem exec_slideArgument (hslots : slots.length = 2) {k : Nat} (hk : k < args.length)
    {v : View Registers} (hv : v.At (lowering slots args deep k) fp) :
    ∃ v', Exec (slideArgument k) v .next v' ∧ v'.At (lowering slots args deep (k + 1)) fp ∧
      get v' .t0 = get v .t0 := by
  obtain ⟨front, tail, hread, hfront⟩ := lowering_read deep hslots hk
  obtain ⟨old, tail', hbefore, hafter⟩ := lowering_write deep hslots hk
  have htake : (args.take k).length = k := List.length_take_of_le hk.le
  have hload : get v .sp + (Int32.ofNat (4 * k) + 8).toUInt32 = wordAddress tail.length := by
    have haddress := stackPointer_word front args[k] tail
    rw [hfront, ← hread, ← hv.words_eq, UInt32.ofNat_add, UInt32.mul_add, ← ofNat_four_mul] at haddress
    rw [Int32.toUInt32_add]
    exact haddress
  have hstore : get v .sp + (Int32.ofNat (4 * k)).toUInt32 = wordAddress tail'.length := by
    have haddress := stackPointer_word (args.take k) old tail'
    rw [htake, ← hbefore, ← hv.words_eq, ← ofNat_four_mul] at haddress
    exact haddress
  obtain ⟨t, hfirst, ht, hreg⟩ := exec_load .t6 .sp hv hread hload (by decide)
  have hsp : get t .sp = get v .sp := by rw [hreg, if_neg (by decide)]
  rw [← hsp] at hstore
  obtain ⟨v', hsecond, hv', hregs⟩ := exec_store .t6 .sp ht hbefore hstore
  rw [hreg, if_pos rfl, ← hafter] at hv'
  refine ⟨v', hfirst.append hsecond, hv', ?_⟩
  rw [show get v' .t0 = get t .t0 from congrArg (Registers.gpr · .t0) hregs, hreg, if_neg (by decide)]

theorem exec_storeObject {v : View Registers} (front : List UInt32) {tail : List UInt32} {old : UInt32}
    {offset : Int32} (hoffset : offset.toUInt32 = UInt32.ofNat (4 * front.length))
    (hv : v.At (front ++ old :: tail) fp) :
    ∃ v', Exec [Instr.sw .t0 offset .sp] v .next v' ∧ v'.At (front ++ get v .t0 :: tail) fp ∧
      get v' .t0 = get v .t0 := by
  have haddress := stackPointer_word front old tail
  rw [← hv.words_eq, ← ofNat_four_mul, ← hoffset] at haddress
  obtain ⟨v', hexec, hv', hregs⟩ := exec_store .t0 .sp hv rfl haddress
  exact ⟨v', hexec, hv', congrArg (Registers.gpr · .t0) hregs⟩

theorem turns_drop {words : List UInt32} (front : List UInt32) :
    Turns (Instr.drop (4 * front.length)) (front ++ words) fp .next words fp := by
  intro v hv
  obtain ⟨v', hexec, hv', -⟩ := exec_drop front hv
  exact ⟨v', hexec, hv'⟩

/-- The code that makes room for the object under the arguments and stores it there twice. -/
def passObject (count : Nat) : List Instr :=
  (List.range count).flatMap slideArgument ++
    ([Instr.sw .t0 (Int32.ofNat (4 * count)) .sp] ++ [Instr.sw .t0 (Int32.ofNat (4 * count) + 4) .sp])

theorem exec_passObject (hslots : slots.length = 2) {v : View Registers}
    (hv : v.At (slots ++ (args ++ deep)) fp) :
    ∃ v', Exec (passObject args.length) v .next v' ∧
      v'.At (args ++ get v .t0 :: get v .t0 :: deep) fp := by
  rw [← lowering_zero] at hv
  obtain ⟨t, hslide, ht, ht0⟩ := Exec.countUp slideArgument
    (fun k t => t.At (lowering slots args deep k) fp ∧ get t .t0 = get v .t0)
    (fun k hk t ⟨ht, ht0⟩ => by
      obtain ⟨t', hexec, ht', ht0'⟩ := exec_slideArgument hslots hk ht
      exact ⟨t', hexec, ht', ht0'.trans ht0⟩) ⟨hv, rfl⟩
  obtain ⟨x, y, hfree⟩ := lowering_length deep hslots
  rw [hfree] at ht
  obtain ⟨u, hfirst, hu, hu0⟩ := exec_storeObject args rfl ht
  rw [ht0, ← List.singleton_append (x := get v .t0), ← List.append_assoc] at hu
  have hoffset : (Int32.ofNat (4 * args.length) + 4).toUInt32 =
      UInt32.ofNat (4 * (args ++ [get v .t0]).length) := by
    rw [Int32.toUInt32_add, List.length_append, List.length_singleton, Nat.mul_add, UInt32.ofNat_add]
    rfl
  obtain ⟨v', hsecond, hv', -⟩ := exec_storeObject (args ++ [get v .t0]) hoffset hu
  refine ⟨v', hslide.append (hfirst.append hsecond), ?_⟩
  rwa [hu0, ht0, List.append_assoc, List.singleton_append] at hv'

end Lowering

/-! ## The constructor -/

theorem construct_eq (ctx : EmitContext) (i : Instruction) (descriptor ctor : Symbol) (count : Nat) :
    construct ctx i descriptor ctor (4 * count) = allocate ctx i .newObject descriptor ++
      (Instr.reserve (4 * 2) ++ (passObject count ++ (Instr.callSymbol ctor ++
        Instr.drop (4 * (count + 1))))) := by
  rw [construct, Nat.mul_div_cancel_left _ (by decide)]
  simp only [passObject, List.append_assoc]
  rfl

/-- With the object in `$t0` the machine gets behind the start of the constructor, which finds the object
above its arguments. -/
theorem enters_constructor {p : Program Instr} {caller ctor : EmitContext} {create : Instruction}
    {descriptor : Symbol} {site entry : Nat} {args deep : List UInt32} {after : List Instr} {fp : UInt32}
    {m : Machine} (hfits : p.code.size ≤ codeLimit)
    (hplaced : Placed p site (allocate caller create .newObject descriptor ++ (Instr.reserve (4 * 2) ++
      (passObject args.length ++ (Instr.callSymbol ctor.method.symbol ++ after)))))
    (hresolve : p.resolve ctor.method.symbol = .ok (codeAddress entry))
    (hstart : Placed p entry (prologue ctor)) (hreturn : ctor.frame.returnBytes = 0)
    (hroom : ctor.frame.localBytes / 4 + ((args ++ deep).length + 4) ≤ stackCapacity)
    (hm : Poised Instr m (site + 9) (args ++ deep) fp) (hobject : m.reg .t0 ≠ 0) :
    EntersMethod Instr p ctor.frame (entry + (prologue ctor).length)
      (site + 17 + (Instr.reserve (4 * 2)).length + (passObject args.length).length + 2)
      (args ++ m.reg .t0 :: m.reg .t0 :: deep) fp m := by
  have hback := hplaced.back
  refine (passes_check hfits hplaced hm hobject).trans fun m₁ ⟨hm₁, ht0⟩ => ?_
  refine (reserves hfits hback.front (by omega) hm₁).trans fun m₂ ⟨⟨slots, hslots, hm₂⟩, hregs⟩ => ?_
  obtain ⟨v, hstands, hv⟩ := hm₂.view
  obtain ⟨v', hexec, hv'⟩ := exec_passObject hslots hv
  obtain ⟨n, m₃, j, -, hcycles, rfl, hstands₃⟩ :=
    hexec.reaches hfits hback.back.front (fun l hl => by cases hl) hstands
  have hget : get v .t0 = m.reg .t0 := by rw [← hstands.sees.reg, hregs .t0 (by decide), ht0]
  rw [hget] at hv'
  have hpasses : Reaches (Machine.cycle p) m₂ fun m₃ => Poised Instr m₃ (site + 17 +
      (Instr.reserve (4 * 2)).length + (passObject args.length).length)
      (args ++ m.reg .t0 :: m.reg .t0 :: deep) fp :=
    ⟨n, m₃, hcycles, v', hstands₃, hv'.words_eq, hv'.fp_eq⟩
  refine hpasses.trans fun m₄ hm₄ => ?_
  have hcall : Placed p (site + 17 + (Instr.reserve (4 * 2)).length + (passObject args.length).length)
      (Instr.reserve (4 * 0) ++ Instr.callSymbol ctor.method.symbol) := hback.back.back.front
  have henters := enters hfits hcall (aims_symbol hresolve) hstart ?_ hm₄
  · refine henters.mono fun m₅ ⟨slot, hslot, hm₅⟩ => ⟨slot, ?_, hm₅⟩
    rw [hslot, hreturn]
  · rw [List.length_append] at hroom
    simp only [List.length_append, List.length_cons]
    omega

section Template

variable {ctx : EmitContext} {i : Instruction} {method : MethodDescriptor} {declaring : TypeDescriptor}
  {e : Effect} {params : Nat}

theorem newObject_class (hresolved : ctx.methodAndType i = .ok (method, declaring))
    (hdelegate : declaring.isDelegate = false) :
    newObject ctx i = do
      let params ← ctx.paramBytes i method.params
      let _ ← displacement i (params + 8)
      return construct ctx i declaring.symbol method.symbol params := by
  rw [newObject, hresolved]
  exact if_neg (Bool.eq_false_iff.mp hdelegate)

theorem newObject_construct (hop : i.op.operation = .newObject)
    (hresolved : ctx.methodAndType i = .ok (method, declaring)) (hdelegate : declaring.isDelegate = false)
    (hparams : ctx.paramBytes i method.params = .ok params)
    (hfine : (backend.emit ctx i e).failure = none) :
    (backend.emit ctx i e).code = construct ctx i declaring.symbol method.symbol params := by
  rw [emit_newObject hop] at hfine ⊢
  obtain ⟨params', hparams', hcode⟩ :=
    answer_bind.mp ((newObject_class hresolved hdelegate).symm.trans (Template.ofExcept_ok hfine))
  obtain rfl := Except.ok.inj (hparams.symm.trans hparams')
  obtain ⟨_, -, hcode⟩ := answer_bind.mp hcode
  exact (Except.ok.inj hcode).symm

end Template

theorem deliversObjects {env : SimEnv} {caller ctor : EmitContext} {create ret : Instruction}
    {t : TypeDescriptor} {e' : Effect} (h : SimulatedConstructor env caller ctor create ret t e') :
    DeliversObjects backend Machine.store Machine.pc caller ctor create ret t e' := by
  intro e hfine p site entry exit stop descriptor hwf hplaced hplaces hresolve args deep fp object m s hm
    hobject hfill hbelow hroom
  have hargs : (pushedWords args).length ≤ stackCapacity := by
    rw [List.length_append] at hroom
    omega
  have hresolved := h.resolved
  have hdeclaring := h.declaring
  rw [← h.tables] at hresolved hdeclaring
  rw [newObject_construct h.creates (methodAndType_ok hresolved hdeclaring) h.notDelegate
    (h.paramBytes hfill hargs) hfine, construct_eq] at hplaced ⊢
  have hfits := hwf.fits
  have halloc := allocates hwf hplaced hplaces.starts hresolve hobject hbelow (by omega) hm
  constructor
  · intro hne
    obtain ⟨⟨items, localItems, hof⟩, hlocals, hreturn⟩ := words_of_ofMethod h.framed
    have hspan := hof.localBytes_eq (by omega)
    rw [← hspan] at hroom
    have hwords : pushedWords ([object] :: args) ++ object :: deep =
        pushedWords args ++ object :: object :: deep := by
      rw [pushedWords_cons, List.append_assoc, List.singleton_append]
    have henters : EntersMethod Instr p ctor.frame (entry + (prologue ctor).length)
        (site + 17 + (Instr.reserve (4 * 2)).length + (passObject (pushedWords args).length).length + 2)
        (pushedWords ([object] :: args) ++ object :: deep) fp m :=
      halloc.reaches.trans fun m₁ ⟨hm₁, ht0⟩ => by
        rw [hwords, ← ht0]
        exact enters_constructor hfits hplaced hplaces.resolves hplaces.starts h.returnBytes hroom hm₁
          (by rwa [ht0])
    refine callRuns_of_parts hof hlocals hspan hreturn hfill henters
      (leaves_of_places h.returns h.poppedBytes hplaces _) ?_
    intro value args' m₁ hvalue hargs' hm₁
    obtain rfl : value = [] := List.length_eq_zero_iff.mp (by rw [h.returnBytes] at hvalue; omega)
    rw [pushedWords_cons, List.length_append, List.length_singleton] at hargs'
    have hback := hplaced.back.back.back.back
    have hdrop : Turns (Instr.drop (4 * args'.length)) (args' ++ object :: deep) fp .next
      (object :: deep) fp := turns_drop args'
    rw [hargs'] at hdrop
    have hlength : site + (allocate caller create .newObject t.symbol ++ (Instr.reserve (4 * 2) ++
        (passObject (pushedWords args).length ++ (Instr.callSymbol ctor.method.symbol ++
          Instr.drop (4 * ((pushedWords args).length + 1)))))).length =
        site + 17 + (Instr.reserve (4 * 2)).length + (passObject (pushedWords args).length).length + 2 +
          (Instr.drop (4 * ((pushedWords args).length + 1))).length := by
      simp only [List.length_append, Nat.add_assoc]
      rfl
    rw [hlength]
    exact hm₁.turns hdrop hfits hback
  · intro hnull
    have hends : EndsOutside (Machine.cycle p) (fun m' => m'.pc = codeAddress entry)
        (.halt HaltReason.outOfMemory.code) m := halloc.trans fun m₁ ⟨hm₁, ht0⟩ =>
      ends_outOfMemory hwf hplaced hplaces.starts (by omega) hm₁ (ht0.trans hnull)
    exact ⟨hends.ends, fun hcycles => hends.never hcycles⟩

end Stencil.Mips
