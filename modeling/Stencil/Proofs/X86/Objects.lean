import Stencil.Proofs.Objects.Basic
import Stencil.Proofs.X86.Touch
import Stencil.Proofs.X86.Ways
import Mathlib.Tactic.IntervalCases

/-!
# Objects that are created on x86

The template allocates (`allocates`) and tests what it got. From null the run ends (`ends_outOfMemory`);
otherwise the arguments move down, the object is stored above them twice, and the constructor is called.
-/

namespace Stencil.X86

open AddressMap Stateful Function

/-! ## Allocation -/

section Allocation

variable {p : Program Instr} {ctx ctor : EmitContext} {i : Instruction} {symbol : Symbol} {after : List Instr}
  {site entry : Nat} {words : List UInt32} {fp descriptor object : UInt32} {m : Machine} {s : Store}

theorem steps_newObject (hwf : p.WellFormed) {s : Snapshot Reg} {store : Store}
    (hrun : ∀ site, p.runIntrinsic .newObject (s.regs .esp) site s.store = .ok none store) :
    StepsWithin p Set.univ (.callSymbol Intrinsic.newObject.symbol) s { s with store } := by
  intro k m hinstr hat hm
  subst hm
  have hstore : Machine.onStore (p.runIntrinsic .newObject (m.reg .esp) (codeAddress k)) (m.fetched k) =
      .ok none { m.fetched k with store } := Machine.onStore_of_ok (hrun (codeAddress k))
  refine ⟨{ m.fetched k with store }, ⟨?_, fun c hc => (hc (Set.mem_univ c)).elim⟩, rfl, rfl⟩
  show Machine.cycle p m = _
  rw [Machine.cycle_callSymbol hwf hat hinstr, bind_of_ok hstore]
  rfl

/-- While it allocates the machine is not at the start of a method: that pushes the frame pointer first. -/
theorem outside_of_placed (hfits : p.code.size ≤ codeLimit)
    (hplaced : Placed p site (allocate ctx i .newObject symbol ++ after))
    (hstart : Placed p entry (prologue ctor)) {k : Nat} (hk : k < 9) {m : Machine}
    (hat : m.pc = codeAddress (site + k)) : ¬m.pc = codeAddress entry := by
  have hlength : (allocate ctx i .newObject symbol ++ after).length = 10 + after.length := by
    rw [List.length_append]
    rfl
  have hindex := hplaced.index_lt (k := k) (by omega)
  have hentry : entry < p.code.size := hstart.index_lt (k := 0) (Nat.zero_lt_succ _)
  rw [hat, codeAddress_inj (by omega) (by omega)]
  interval_cases k <;> exact hplaced.apart (j := 0) hstart rfl rfl nofun

section Allocates

variable (hwf : p.WellFormed) (hplaced : Placed p site (allocate ctx i .newObject symbol ++ after))
  (hstart : Placed p entry (prologue ctor))

include hwf hplaced hstart

/-- The descriptor is pushed, and a slot for the object is reserved. -/
theorem avoids_pushDescriptor (hresolve : p.resolve symbol = .ok descriptor)
    (hroom : words.length + 1 < stackCapacity) (hm : Poised Instr m site words fp) :
    Avoids (Machine.cycle p) (fun m' => m'.pc = codeAddress entry)
      (fun m' => m'.pc = codeAddress (site + 2) ∧ m'.reg .esp = wordAddress (words.length + 1) ∧
        m'.reg .ebp = fp ∧ m'.store = m.store.withMemory (m.store.memory.put (wordPlace words.length) descriptor 4)) m := by
  have hfits := hwf.fits
  have hout := @outside_of_placed p ctx ctor i symbol after site entry hfits hplaced hstart
  obtain ⟨hpc, hesp, hebp, -⟩ := poised_iff.mp hm
  have hslot : m.reg .esp - 4 = wordAddress words.length := by
    rw [hesp, stackPointer_sub descriptor, stackPointer_cons]
  have hslot' : wordAddress words.length - 4 = wordAddress (words.length + 1) :=
    stackPointer_sub 0 (0 :: words)
  refine .instr (steps_push hfits (w := descriptor) (fun m' _ => ?_) ?_ (Set.subset_univ _))
    (hplaced.fetch 0 _ rfl) hpc rfl (hout (k := 0) (by decide) hpc) fun m₁ hat₁ hm₁ => ?_
  · exact acts_lift hresolve
  · show Memory.mapped (m.reg .esp - 4) 4 = true
    rw [hslot]
    exact mapped_wordAddress (by omega)
  refine .instr (steps_alu hfits .sub (by decide) .esp (fun _ _ => .pure _) (alu_sub _ _))
    (hplaced.fetch 1 _ rfl) hat₁ hm₁ (hout (k := 1) (by decide) hat₁)
    fun m₂ hat₂ hm₂ => .here ⟨hat₂, ?_, ?_, ?_⟩
  · show (snap Instr m₂).regs .esp = _
    rw [hm₂, Snapshot.set_self, Snapshot.set_self]
    show m.reg .esp - 4 - 4 = _
    rw [hslot, hslot']
  · show (snap Instr m₂).regs .ebp = _
    rw [hm₂]
    exact hebp
  · show (snap Instr m₂).store = _
    rw [hm₂]
    show m.store.put (m.reg .esp - 4) 4 descriptor = _
    rw [hslot, Store.put, toNat_wordAddress (by omega)]
    rfl

theorem avoids_popObject (hpc : m.pc = codeAddress (site + 3))
    (hesp : m.reg .esp = wordAddress (words.length + 1)) (hebp : m.reg .ebp = fp)
    (hholds : m.store.memory.Holds (object :: descriptor :: words)) :
    Avoids (Machine.cycle p) (fun m' => m'.pc = codeAddress entry)
      (fun m' => Poised Instr m' (site + 5) words fp ∧ m'.reg .eax = object) m := by
  have hfits := hwf.fits
  have hout := @outside_of_placed p ctx ctor i symbol after site entry hfits hplaced hstart
  refine .instr (steps_popReg hfits (w := object) ?_ (Set.subset_univ _)) (hplaced.fetch 3 _ rfl) hpc rfl
    (hout (k := 3) (by decide) hpc) fun m₁ hat₁ hm₁ => ?_
  · show m.store.memory.read (m.reg .esp) 4 = _
    rw [hesp]
    exact hholds.read_top
  have hesp₁ : (snap Instr m₁).regs .esp = wordAddress words.length := by
    rw [hm₁, Snapshot.set_of_ne _ (by decide), Snapshot.set_self]
    show m.reg .esp + 4 = _
    rw [hesp]
    exact stackPointer_cons_add 0 (0 :: words)
  refine .instr (steps_addImm hfits .esp _) (hplaced.fetch 4 _ rfl) hat₁ rfl
    (hout (k := 4) (by decide) hat₁) fun m₂ hat₂ hm₂ => .here ⟨poised_iff.mpr ⟨hat₂, ?_, ?_, ?_⟩, ?_⟩
  · show (snap Instr m₂).regs .esp = _
    rw [hm₂, Snapshot.set_self, hesp₁]
    exact stackPointer_cons_add 0 words
  · show (snap Instr m₂).regs .ebp = _
    rw [hm₂, Snapshot.set_of_ne _ (by decide), hm₁, Snapshot.set_of_ne _ (by decide),
      Snapshot.set_of_ne _ (by decide)]
    exact hebp
  · show (snap Instr m₂).store.memory.Holds words
    rw [hm₂]
    show (snap Instr m₁).store.memory.Holds words
    rw [hm₁]
    exact hholds.2.2.2.2
  · show (snap Instr m₂).regs .eax = _
    rw [hm₂, Snapshot.set_of_ne _ (by decide), hm₁, Snapshot.set_self]

/-- The template allocates without getting to the constructor, and the words of the stack stay. -/
theorem allocates (hresolve : p.resolve symbol = .ok descriptor)
    (hobject : p.newObject descriptor m.store = .ok object s)
    (hbelow : HeapBelow p m.store (words.length + 1)) (hroom : words.length + 1 < stackCapacity)
    (hm : Poised Instr m site words fp) :
    Avoids (Machine.cycle p) (fun m' => m'.pc = codeAddress entry)
      (fun m' => Poised Instr m' (site + 5) words fp ∧ m'.reg .eax = object) m := by
  have hout := @outside_of_placed p ctx ctor i symbol after site entry hwf.fits hplaced hstart
  obtain ⟨-, -, -, hholds⟩ := poised_iff.mp hm
  obtain ⟨store₂, hrun, hholds₂⟩ :=
    runIntrinsic_newObject_holds hobject hbelow hroom (hholds.put_word (by omega))
  refine (avoids_pushDescriptor hwf hplaced hstart hresolve hroom hm).trans
    fun m₁ ⟨hpc₁, hesp₁, hebp₁, hstore₁⟩ => ?_
  -- the allocator is called, and leaves the object in its slot
  have hruns : ∀ site, p.runIntrinsic .newObject ((snap Instr m₁).regs .esp) site (snap Instr m₁).store =
      .ok none store₂ := by
    show ∀ site, p.runIntrinsic .newObject (m₁.reg .esp) site m₁.store = _
    rw [hesp₁, hstore₁]
    exact hrun
  refine .instr (steps_newObject hwf hruns) (hplaced.fetch 2 _ rfl) hpc₁ rfl
    (hout (k := 2) (by decide) hpc₁) fun m₂ hat₂ hm₂ => ?_
  refine avoids_popObject hwf hplaced hstart hat₂ ?_ ?_ (?_ : m₂.store.memory.Holds (object :: descriptor :: words))
  · show (snap Instr m₂).regs .esp = _
    rw [hm₂]
    exact hesp₁
  · show (snap Instr m₂).regs .ebp = _
    rw [hm₂]
    exact hebp₁
  · show (snap Instr m₂).store.memory.Holds _
    rw [hm₂]
    exact hholds₂

theorem ends_outOfMemory (hroom : words.length < stackCapacity) (hm : Poised Instr m (site + 5) words fp)
    (heax : m.reg .eax = 0) :
    EndsOutside (Machine.cycle p) (fun m' => m'.pc = codeAddress entry)
      (.halt HaltReason.outOfMemory.code) m := by
  have hfits := hwf.fits
  have hout := @outside_of_placed p ctx ctor i symbol after site entry hfits hplaced hstart
  obtain ⟨hpc, hesp, -, -⟩ := poised_iff.mp hm
  have htest : Tests p Set.univ (.testReg .eax) (snap Instr m) .ne false := by
    have hnull : Tests p Set.univ (.testReg .eax) (snap Instr m) .ne ((snap Instr m).regs .eax != 0) :=
      tests_testReg .eax
    rwa [show (snap Instr m).regs .eax = 0 from heax] at hnull
  obtain ⟨m₁, hcycle, hpc₁, hm₁, hcond⟩ := htest.cycles hfits (hplaced.fetch 5 _ rfl) hpc rfl
  refine .step (hout (k := 5) (by decide) hpc) hcycle.ok ?_
  obtain ⟨m₂, hpassed, hpc₂, hm₂⟩ : ∃ m₂ : Machine, Machine.cycle p m₁ = .ok () m₂ ∧
      m₂.pc = codeAddress (site + 7) ∧ snap Instr m₂ = snap Instr m := by
    have hjump : Acts Set.univ (Machine.cycle p) m₁ () { m₁.fetched (site + 6) with
        pc := if m₁.flags.holds .ne then codeAddress 0 else codeAddress (site + 7) } :=
      acts_jcc hfits (hplaced.fetch 6 _ rfl) hpc₁ fun htaken => by
        rw [hcond] at htaken
        cases htaken
    refine ⟨_, hjump.ok, ?_, hm₁⟩
    show (if m₁.flags.holds .ne then codeAddress 0 else codeAddress (site + 7)) = _
    rw [hcond]
    rfl
  refine .step (hout (k := 6) (by decide) hpc₁) hpassed ?_
  have hmapped : Memory.mapped (m.reg .esp - 4) 4 = true := by
    rw [hesp, stackPointer_sub 0, stackPointer_cons]
    exact mapped_wordAddress hroom
  have hpush : StepsWithin p Set.univ (Instr.pushImm HaltReason.outOfMemory.code.toInt32) (snap Instr m)
      (((snap Instr m).put (m.reg .esp - 4) 4 HaltReason.outOfMemory.code).set .esp (m.reg .esp - 4)) := by
    refine steps_push hfits (fun m' _ => ?_) hmapped (Set.subset_univ _)
    exact .pure _
  refine .instr hpush (hplaced.fetch 7 _ rfl) hpc₂ hm₂ (hout (k := 7) (by decide) hpc₂)
    fun m₃ hat₃ hm₃ => .here ⟨hout (k := 8) (by decide) hat₃, ?_⟩
  refine (Rests.of_pc hat₃).stops hwf (hplaced.fetch 8 _ rfl) fun site => Program.runIntrinsic_halt ?_
  show (snap Instr m₃).store.memory.read ((snap Instr m₃).regs .esp) 4 = _
  rw [hm₃, Snapshot.set_self]
  exact Store.read_withWord hmapped _ m.store

end Allocates

theorem passes_check (hfits : p.code.size ≤ codeLimit)
    (hplaced : Placed p site (allocate ctx i .newObject symbol ++ after))
    (hm : Poised Instr m (site + 5) words fp) (hobject : m.reg .eax ≠ 0) :
    Reaches (Machine.cycle p) m fun m' =>
      Poised Instr m' (site + 10) words fp ∧ m'.reg .eax = m.reg .eax := by
  have hallocated : p.labels[ctx.inside i "Allocated" 0]? = some (site + 9) := hplaced.labels 9 _ _ rfl rfl
  obtain ⟨-, hesp, hebp, hholds⟩ := poised_iff.mp hm
  refine ((rests_of_poised hm).test hfits (hplaced.fetch 5 _ rfl)).reaches fun m₁ h₁ => ?_
  refine (h₁.jcc_taken hfits (hplaced.fetch 6 _ rfl) ?_ hallocated).reaches fun m₂ h₂ => ?_
  · intro flags hflag
    rw [Flags.holds, hflag, beq_false_of_ne hobject]
    rfl
  refine (h₂.label hfits (hplaced.fetch 9 _ rfl)).reaches fun m₃ h₃ =>
    .here ⟨poised_iff.mpr ⟨h₃.pc, ?_, ?_, ?_⟩, h₃.reg .eax⟩
  · rw [h₃.reg, hesp]
  · rw [h₃.reg, hebp]
  · rw [h₃.store]
    exact hholds

end Allocation

/-! ## Arguments that move down -/

section Lowering

variable {slots args deep : List UInt32} {fp : UInt32}

theorem exec_slideArgument (hslots : slots.length = 2) {k : Nat} (hk : k < args.length)
    {v : View Registers} (hv : v.At (lowering slots args deep k) fp) :
    ∃ v', Exec (slideArgument k) v .next v' ∧ v'.At (lowering slots args deep (k + 1)) fp ∧
      get v' .eax = get v .eax := by
  obtain ⟨front, tail, hread, hfront⟩ := lowering_read deep hslots hk
  obtain ⟨old, tail', hbefore, hafter⟩ := lowering_write deep hslots hk
  have htake : (args.take k).length = k := List.length_take_of_le hk.le
  have hload : (Int32.ofNat (4 * k) + 8).toUInt32 + get v .esp = wordAddress tail.length := by
    have haddress := stackPointer_word front args[k] tail
    rw [hfront, ← hread, ← hv.words_eq, UInt32.add_comm, UInt32.ofNat_add, UInt32.mul_add,
      ← ofNat_four_mul] at haddress
    rw [Int32.toUInt32_add]
    exact haddress
  have hstore : (Int32.ofNat (4 * k)).toUInt32 + get v .esp = wordAddress tail'.length := by
    have haddress := stackPointer_word (args.take k) old tail'
    rw [htake, ← hbefore, ← hv.words_eq, UInt32.add_comm, ← ofNat_four_mul] at haddress
    exact haddress
  obtain ⟨t, hput⟩ : ∃ t, put? v .esi args[k] = some t := ⟨_, rfl⟩
  have ht := at_put? hv hput
  have hesi : get t .esi = args[k] := by rw [get_put? hput, if_pos rfl]
  have hesp : get t .esp = get v .esp := by rw [get_put? hput, if_neg (by decide)]
  have heax : get t .eax = get v .eax := by rw [get_put? hput, if_neg (by decide)]
  rw [← hesp] at hstore
  have hfirst : Exec [Instr.load .esi (.based .esp (Int32.ofNat (4 * k) + 8))] v .next t :=
    .of_steps (Steps.load (hv.words_eq.trans hread) hload hput)
  have hsecond : Exec [Instr.store (.based .esp (Int32.ofNat (4 * k))) .esi] t .next
      { t with words := args.take k ++ get t .esi :: tail' } :=
    .of_steps (Steps.store (ht.words_eq.trans hbefore) hstore)
  refine ⟨_, hfirst.append hsecond, ⟨?_, ht.fp_eq, ?_⟩, heax⟩
  · rw [hesi, hafter]
  · have hfits := ht.fits
    rw [hbefore, List.length_append, List.length_cons] at hfits
    rw [hafter, List.length_append, List.length_cons]
    exact hfits

theorem exec_storeObject {v : View Registers} (front : List UInt32) {tail : List UInt32} {old : UInt32}
    {disp : Int32} (hdisp : disp.toUInt32 = UInt32.ofNat (4 * front.length))
    (hv : v.At (front ++ old :: tail) fp) :
    ∃ v', Exec [Instr.store (.based .esp disp) .eax] v .next v' ∧
      v'.At (front ++ get v .eax :: tail) fp ∧ get v' .eax = get v .eax := by
  have haddress := stackPointer_word front old tail
  rw [← hv.words_eq, UInt32.add_comm, ← ofNat_four_mul, ← hdisp] at haddress
  refine ⟨_, .of_steps (Steps.store (r := .esp) hv.words_eq haddress), ⟨rfl, hv.fp_eq, ?_⟩, rfl⟩
  have hfits := hv.fits
  rw [List.length_append, List.length_cons] at hfits ⊢
  exact hfits

theorem turns_drop {words : List UInt32} (front : List UInt32) :
    Turns (Instr.drop (4 * front.length)) (front ++ words) fp .next words fp := by
  intro v hv
  obtain ⟨v', hexec, hv', -⟩ := exec_drop front hv
  exact ⟨v', hexec, hv'⟩

/-- The code that makes room for the object under the arguments and stores it there twice. -/
def passObject (count : Nat) : List Instr :=
  (List.range count).flatMap slideArgument ++
    ([Instr.store (.based .esp (Int32.ofNat (4 * count))) .eax] ++
      [Instr.store (.based .esp (Int32.ofNat (4 * count) + 4)) .eax])

theorem exec_passObject (hslots : slots.length = 2) {v : View Registers}
    (hv : v.At (slots ++ (args ++ deep)) fp) :
    ∃ v', Exec (passObject args.length) v .next v' ∧
      v'.At (args ++ get v .eax :: get v .eax :: deep) fp := by
  rw [← lowering_zero] at hv
  obtain ⟨t, hslide, ht, heax⟩ := Exec.countUp slideArgument
    (fun k t => t.At (lowering slots args deep k) fp ∧ get t .eax = get v .eax)
    (fun k hk t ⟨ht, heax⟩ => by
      obtain ⟨t', hexec, ht', heax'⟩ := exec_slideArgument hslots hk ht
      exact ⟨t', hexec, ht', heax'.trans heax⟩) ⟨hv, rfl⟩
  obtain ⟨x, y, hfree⟩ := lowering_length deep hslots
  rw [hfree] at ht
  obtain ⟨u, hfirst, hu, heax'⟩ := exec_storeObject args rfl ht
  rw [heax, ← List.singleton_append (x := get v .eax), ← List.append_assoc] at hu
  have hdisp : (Int32.ofNat (4 * args.length) + 4).toUInt32 =
      UInt32.ofNat (4 * (args ++ [get v .eax]).length) := by
    rw [Int32.toUInt32_add, List.length_append, List.length_singleton, Nat.mul_add, UInt32.ofNat_add]
    rfl
  obtain ⟨v', hsecond, hv', -⟩ := exec_storeObject (args ++ [get v .eax]) hdisp hu
  refine ⟨v', hslide.append (hfirst.append hsecond), ?_⟩
  rwa [heax', heax, List.append_assoc, List.singleton_append] at hv'

end Lowering

/-! ## The constructor -/

theorem construct_eq (ctx : EmitContext) (i : Instruction) (descriptor ctor : Symbol) {count : Nat}
    (hcount : count ≤ stackCapacity) :
    construct ctx i descriptor ctor (4 * count) = allocate ctx i .newObject descriptor ++
      (Instr.reserve (4 * 2) ++ (passObject count ++ ([Instr.callSymbol ctor] ++
        Instr.drop (4 * (count + 1))))) := by
  have hcapacity : stackCapacity < 2 ^ 20 := by decide
  have hfits : 4 * count + 4 < UInt32.size := by
    rw [UInt32.size]
    omega
  rw [construct, Nat.mul_div_cancel_left _ (by decide), Nat.mod_eq_of_lt hfits]
  simp only [passObject, List.append_assoc]
  rfl

/-- With the object in `eax` the machine gets behind the start of the constructor, which finds the object
above its arguments. -/
theorem enters_constructor {p : Program Instr} {caller ctor : EmitContext} {create : Instruction}
    {descriptor : Symbol} {site entry : Nat} {args deep : List UInt32} {after : List Instr} {fp : UInt32}
    {m : Machine} (hfits : p.code.size ≤ codeLimit)
    (hplaced : Placed p site (allocate caller create .newObject descriptor ++ (Instr.reserve (4 * 2) ++
      (passObject args.length ++ ([Instr.callSymbol ctor.method.symbol] ++ after)))))
    (hresolve : p.resolve ctor.method.symbol = .ok (codeAddress entry))
    (hstart : Placed p entry (prologue ctor)) (hreturn : ctor.frame.returnBytes = 0)
    (hroom : ctor.frame.localBytes / 4 + ((args ++ deep).length + 4) ≤ stackCapacity)
    (hm : Poised Instr m (site + 5) (args ++ deep) fp) (hobject : m.reg .eax ≠ 0) :
    EntersMethod Instr p ctor.frame (entry + (prologue ctor).length)
      (site + 10 + (Instr.reserve (4 * 2)).length + (passObject args.length).length + 1)
      (args ++ m.reg .eax :: m.reg .eax :: deep) fp m := by
  have hback := hplaced.back
  refine (passes_check hfits hplaced hm hobject).trans fun m₁ ⟨hm₁, heax₁⟩ => ?_
  refine (reserves hfits hback.front (by omega) hm₁).trans fun m₂ ⟨⟨slots, hslots, hm₂⟩, hregs⟩ => ?_
  obtain ⟨v, hstands, hv⟩ := hm₂.view
  obtain ⟨v', hexec, hv'⟩ := exec_passObject hslots hv
  obtain ⟨n, m₃, j, -, hcycles, rfl, hstands₃⟩ :=
    hexec.reaches hfits hback.back.front (fun l hl => by cases hl) hstands
  have heax : get v .eax = m.reg .eax := by rw [← hstands.sees.reg, hregs .eax (by decide), heax₁]
  rw [heax] at hv'
  have hpasses : Reaches (Machine.cycle p) m₂ fun m₃ => Poised Instr m₃ (site + 10 +
      (Instr.reserve (4 * 2)).length + (passObject args.length).length)
      (args ++ m.reg .eax :: m.reg .eax :: deep) fp :=
    ⟨n, m₃, hcycles, v', hstands₃, hv'.words_eq, hv'.fp_eq⟩
  refine hpasses.trans fun m₄ hm₄ => ?_
  have hcall : Placed p (site + 10 + (Instr.reserve (4 * 2)).length + (passObject args.length).length)
      (Instr.reserve (4 * 0) ++ [Instr.callSymbol ctor.method.symbol]) := hback.back.back.front
  have henters := enters hfits hcall (aims_symbol hresolve) hstart ?_ hm₄
  · refine henters.mono fun m₅ ⟨slot, hslot, hm₅⟩ => ⟨slot, ?_, hm₅⟩
    rw [hslot, hreturn]
  · rw [List.length_append] at hroom
    simp only [List.length_append, List.length_cons]
    omega

theorem deliversObjects {env : SimEnv} {caller ctor : EmitContext} {create ret : Instruction}
    {t : TypeDescriptor} {e' : Effect} (h : SimulatedConstructor env caller ctor create ret t e') :
    DeliversObjects backend Machine.store Machine.pc caller ctor create ret t e' := by
  intro e hfine p site entry exit stop descriptor hwf hplaced hplaces hresolve args deep fp object m s hm
    hobject hfill hbelow hroom
  have hargs : (pushedWords args).length ≤ stackCapacity := by
    rw [List.length_append] at hroom
    omega
  have hresolved := h.resolved
  have hdeclaring := h.declaring
  rw [← h.tables] at hresolved hdeclaring
  have hcode : (backend.emit caller create e).code =
      construct caller create t.symbol ctor.method.symbol (4 * (pushedWords args).length) := by
    rw [emit_newObject h.creates, newObject, methodAndType_ok hresolved hdeclaring]
    simp only [bind, Except.bind, h.notDelegate, h.paramBytes hfill hargs, Bool.false_eq_true, if_false]
    rfl
  rw [hcode, construct_eq _ _ _ _ hargs] at hplaced ⊢
  have hfits := hwf.fits
  have halloc := allocates hwf hplaced hplaces.starts hresolve hobject hbelow (by omega) hm
  constructor
  · intro hne
    obtain ⟨⟨items, localItems, hof⟩, hlocals, hreturn⟩ := words_of_ofMethod h.framed
    have hspan := hof.localBytes_eq (by omega)
    rw [← hspan] at hroom
    have hwords : pushedWords ([object] :: args) ++ object :: deep =
        pushedWords args ++ object :: object :: deep := by
      rw [pushedWords_cons, List.append_assoc, List.singleton_append]
    have henters : EntersMethod Instr p ctor.frame (entry + (prologue ctor).length)
        (site + 10 + (Instr.reserve (4 * 2)).length + (passObject (pushedWords args).length).length + 1)
        (pushedWords ([object] :: args) ++ object :: deep) fp m :=
      halloc.reaches.trans fun m₁ hreached => by
        obtain ⟨hm₁, heax⟩ := hreached
        rw [hwords, ← heax]
        exact enters_constructor hfits hplaced hplaces.resolves hplaces.starts h.returnBytes hroom hm₁
          (by rwa [heax])
    refine callRuns_of_parts hof hlocals hspan hreturn hfill henters
      (leaves_of_places h.returns h.poppedBytes hplaces _) ?_
    intro value args' m₁ hvalue hargs' hm₁
    obtain rfl : value = [] := List.length_eq_zero_iff.mp (by rw [h.returnBytes] at hvalue; omega)
    rw [pushedWords_cons, List.length_append, List.length_singleton] at hargs'
    have hback := hplaced.back.back.back.back
    have hdrop : Turns (Instr.drop (4 * args'.length)) (args' ++ object :: deep) fp .next
      (object :: deep) fp := turns_drop args'
    rw [hargs'] at hdrop
    have hlength : site + (allocate caller create .newObject t.symbol ++ (Instr.reserve (4 * 2) ++
        (passObject (pushedWords args).length ++ ([Instr.callSymbol ctor.method.symbol] ++
          Instr.drop (4 * ((pushedWords args).length + 1)))))).length =
        site + 10 + (Instr.reserve (4 * 2)).length + (passObject (pushedWords args).length).length + 1 +
          (Instr.drop (4 * ((pushedWords args).length + 1))).length := by
      simp only [List.length_append, Nat.add_assoc]
      rfl
    rw [hlength]
    exact hm₁.turns hdrop hfits hback
  · intro hnull
    have hends : EndsOutside (Machine.cycle p) (fun m' => m'.pc = codeAddress entry)
        (.halt HaltReason.outOfMemory.code) m := halloc.trans fun m₁ hreached =>
      ends_outOfMemory hwf hplaced hplaces.starts (by omega) hreached.1 (hreached.2.trans hnull)
    exact ⟨hends.ends, fun hcycles => hends.never hcycles⟩

end Stencil.X86
