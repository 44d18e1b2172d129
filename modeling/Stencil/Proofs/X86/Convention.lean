import Stencil.Proofs.Calls.Agreement
import Stencil.Proofs.X86.Moves
import Stencil.X86.Backend

/-!
# The calling convention on x86

What the templates of a call make of the stack: the method start, a return, the method end and the
exchange of the arguments for the result. `enters` and `leaves` put them together to the way into a
method and the way back, and `callActs` collects what a call needs.
-/

namespace Stencil.X86

open AddressMap Stateful

variable {words : List UInt32} {fp : UInt32}

/-! ## Start, return and end of a method -/

/-- The method start saves the frame pointer and clears the locals. -/
theorem turns_prologue {ctx : EmitContext}
    (hroom : ctx.frame.localBytes / 4 + (words.length + 1) ≤ stackCapacity) :
    Turns (prologue ctx) words fp .next
      (List.replicate (ctx.frame.localBytes / 4) 0 ++ fp :: words) (stackPointer (fp :: words)) := by
  have hsave : Turns [Instr.pushReg .ebp] words fp .next (fp :: words) fp := by
    intro v hv
    obtain ⟨v', hexec, hv', -⟩ := exec_pushReg (r := .ebp) hv (by omega)
    rw [show get v .ebp = fp from hv.fp_eq] at hv'
    exact ⟨v', hexec, hv'⟩
  have hset : Turns [Instr.movReg .ebp .esp] (fp :: words) fp .next (fp :: words)
      (stackPointer (fp :: words)) := by
    intro v hv
    refine ⟨_, .of_steps Steps.enter, hv.words_eq, ?_, hv.fits⟩
    rw [hv.words_eq]
  have hclear : Turns (List.replicate (ctx.frame.localBytes / 4) [Instr.pushImm 0]).flatten (fp :: words)
      (stackPointer (fp :: words)) .next
      (List.replicate (ctx.frame.localBytes / 4) 0 ++ fp :: words) (stackPointer (fp :: words)) :=
    Turns.zeros (fun _ hshort => turns_pushImm 0 hshort) hroom
  rw [List.flatten_replicate_singleton] at hclear
  exact (hsave.append hset).append hclear

section Return

variable {ctx : EmitContext} {value own slot rest : List UInt32} {saved back : UInt32}

/-- A return takes the result from the stack and goes to the end of the method. -/
theorem exec_ret (ctx : EmitContext) {e : Effect} {v : View Registers} (hbytes : e.poppedBytes = 4 * value.length)
    (hslot : slot.length = value.length)
    (hv : v.At (value ++ (own ++ saved :: back :: (slot ++ rest)))
      (stackPointer (saved :: back :: (slot ++ rest)))) :
    ∃ v' slot', Exec (ret ctx e) v (.goto ctx.endLabel) v' ∧ slot'.length = value.length ∧
      v'.At (own ++ saved :: back :: (slot' ++ rest)) (stackPointer (saved :: back :: (slot ++ rest))) ∧
      Carries (v'.regs.gpr .eax) (v'.regs.gpr .edx) value slot' := by
  unfold ret
  rw [hbytes]
  match value, hslot with
  | [], hslot => exact ⟨v, slot, .of_jumps .jump, hslot, hv, trivial⟩
  | [w], hslot =>
    obtain ⟨v', hexec, hv', hlow, -⟩ := exec_popReg (r := .eax) hv (by decide)
    exact ⟨v', slot, hexec.append (.of_jumps .jump), hslot, hv', hlow⟩
  | [w, w'], hslot =>
    obtain ⟨t, hfirst, ht, hlow, -⟩ := exec_popReg (r := .eax) hv (by decide)
    obtain ⟨v', hsecond, hv', hhigh, hkeep⟩ := exec_popReg (r := .edx) ht (by decide)
    rw [← hkeep .eax (by decide)] at hlow
    exact ⟨v', slot, (hfirst.append hsecond).append (.of_jumps .jump), hslot, hv', hlow, hhigh⟩
  | w :: w' :: w'' :: more, hslot =>
    have hturns := turns_popSlot (lies_returnSlot own saved back slot rest) hslot.symm
    obtain ⟨v', hexec, hv'⟩ := hturns v hv
    refine ⟨v', _, Exec.append ?_ (.of_jumps .jump), rfl, ?_, rfl⟩
    · rw [List.length_cons, List.length_cons, List.length_cons] at *
      split
      · omega
      · omega
      · omega
      · rw [Nat.mul_div_cancel_left _ (by decide)]
        exact hexec
    · simpa using hv'

def storeResult (bytes : Nat) : List Instr :=
  match bytes with
  | 4 => [Instr.store returnSlot .eax]
  | 8 => [Instr.store returnSlot .eax, .store (returnSlot.offset 4) .edx]
  | _ => []

theorem epilogue_eq (ctx : EmitContext) : epilogue ctx = storeResult ctx.frame.returnBytes ++
    [Instr.movReg .esp .ebp, Instr.popReg .ebp] ++ [Instr.ret] := by
  rw [List.append_assoc]
  rfl

theorem exec_storeSlot {v : View Registers} (r : Reg) (before : List UInt32) {after : List UInt32}
    {old : UInt32} (hslot : slot = before ++ old :: after) (hfp : fp = stackPointer (saved :: back :: (slot ++ rest)))
    (hv : v.At (own ++ saved :: back :: (slot ++ rest)) fp) :
    ∃ v', Exec [Instr.store (returnSlot.offset (Int32.ofNat (4 * before.length))) r] v .next v' ∧
      v'.At (own ++ saved :: back :: (before ++ get v r :: after ++ rest)) fp ∧ v'.regs = v.regs := by
  obtain ⟨hwords, haddress⟩ := (lies_returnSlot own saved back slot rest).word hslot
  rw [← hfp, ← hv.fp_eq, UInt32.add_comm] at haddress
  refine ⟨_, .of_steps (Steps.store (r := .ebp) (hv.words_eq.trans hwords) haddress), ⟨?_, hv.fp_eq, ?_⟩,
    rfl⟩
  · simp only [List.append_assoc, List.cons_append, List.nil_append]
  · have hfits := hv.fits
    rw [hslot] at hfits
    simpa using hfits

/-- The end of a method puts the result into the return slot. -/
theorem exec_storeResult {v : View Registers} (hslot : slot.length = value.length)
    (hcarries : Carries (v.regs.gpr .eax) (v.regs.gpr .edx) value slot)
    (hfp : fp = stackPointer (saved :: back :: (slot ++ rest)))
    (hv : v.At (own ++ saved :: back :: (slot ++ rest)) fp) :
    ∃ v', Exec (storeResult (4 * value.length)) v .next v' ∧
      v'.At (own ++ saved :: back :: (value ++ rest)) fp := by
  rcases value with _ | ⟨w, _ | ⟨w', _ | ⟨w'', more⟩⟩⟩
  · obtain rfl := List.length_eq_zero_iff.mp hslot
    exact ⟨v, .nil, hv⟩
  · obtain ⟨old, rfl⟩ := List.length_eq_one_iff.mp hslot
    obtain ⟨v', hexec, hv', -⟩ := exec_storeSlot .eax [] rfl hfp hv
    rw [show get v .eax = w from hcarries] at hv'
    exact ⟨v', hexec, hv'⟩
  · obtain ⟨old, old', rfl⟩ := List.length_eq_two.mp hslot
    obtain ⟨t, hfirst, ht, hregs⟩ := exec_storeSlot .eax [] rfl hfp hv
    rw [show get v .eax = w from hcarries.1] at ht
    have hfp' : fp = stackPointer (saved :: back :: ([w, old'] ++ rest)) :=
      hfp.trans (stackPointer_of_length rfl)
    obtain ⟨v', hsecond, hv', -⟩ := exec_storeSlot .edx [w] rfl hfp' ht
    have hhigh : get t .edx = w' := (congrArg (Registers.gpr · .edx) hregs).trans hcarries.2
    rw [hhigh] at hv'
    exact ⟨v', hfirst.append hsecond, hv'⟩
  · obtain rfl : slot = w :: w' :: w'' :: more := hcarries
    refine ⟨v, ?_, hv⟩
    unfold storeResult
    rw [List.length_cons, List.length_cons, List.length_cons]
    split
    · omega
    · omega
    · exact .nil

/-- The end of a method drops what lies below its frame and restores the frame pointer. -/
theorem turns_unwind {own words : List UInt32} (saved : UInt32) :
    Turns [Instr.movReg .esp .ebp, Instr.popReg .ebp] (own ++ saved :: words)
      (stackPointer (saved :: words)) .next words saved := by
  intro v hv
  have hfits := hv.fits
  rw [List.length_append, List.length_cons] at hfits
  have hdrop : (v.drop own.length).words = saved :: words := by
    show v.words.drop own.length = _
    rw [hv.words_eq, List.drop_left]
  have hleave := Exec.of_steps (I := Instr) (Steps.leave hv.words_eq hv.fp_eq)
  refine ⟨_, hleave.append (.of_steps (Steps.restore hdrop)), ?_, rfl, ?_⟩
  · show (v.drop own.length).words.drop 1 = words
    rw [hdrop]
    rfl
  · show words.length + (v.free + own.length + 1) = _
    omega

/-- The machine goes back to the address on top of the stack. -/
theorem Stands.ret {p : Program Instr} {m : Machine} {v : View Registers} {base k : Nat}
    (h : Stands m base v) (hfits : p.code.size ≤ codeLimit) (hplaced : Placed p base [Instr.ret])
    (hwords : v.words = codeAddress k :: words) :
    ∃ m', Machine.cycle p m = .ok () m' ∧ Stands m' k { v with words, free := v.free + 1 } := by
  obtain ⟨t, hpop, -, hsees⟩ := (h.sees.fetched base).pop hwords
  refine ⟨{ t with pc := codeAddress k }, ?_, rfl, hsees.reg, hsees.flags, hsees.shows⟩
  rw [Machine.cycle_at hfits h.pc (hplaced.fetch 0 _ rfl), Machine.execute, bind_of_ok hpop]
  rfl

/-- From a return the machine gets back to the caller, with the result in place of the return slot. -/
theorem leaves {p : Program Instr} {m : Machine} {e : Effect} {exit stop k : Nat}
    (hfits : p.code.size ≤ codeLimit) (hret : Placed p exit (ret ctx e))
    (hend : Placed p stop (Instr.label ctx.endLabel :: epilogue ctx))
    (hbytes : e.poppedBytes = 4 * value.length) (hframe : ctx.frame.returnBytes = 4 * value.length)
    (hslot : slot.length = value.length)
    (h : Poised Instr m exit (value ++ (own ++ saved :: codeAddress k :: (slot ++ rest)))
      (stackPointer (saved :: codeAddress k :: (slot ++ rest)))) :
    Reaches (Machine.cycle p) m fun m' => Poised Instr m' k (value ++ rest) saved := by
  obtain ⟨v, hstands, hv⟩ := h.view
  obtain ⟨t, slot', hexec, hslot', ht, hcarries⟩ := exec_ret ctx hbytes hslot hv
  have hlabel : p.labels[ctx.endLabel]? = some stop := hend.labels 0 _ ctx.endLabel rfl rfl
  obtain ⟨n, m₁, j, -, hcycles, hj, hstands₁⟩ :=
    hexec.reaches hfits hret (fun l hl => ⟨stop, by rw [← Exit.goto.inj hl]; exact hlabel⟩) hstands
  obtain rfl : j = stop := Option.some.inj (hj.symm.trans hlabel)
  -- the end of the method up to the last instruction
  have hfp : stackPointer (saved :: codeAddress k :: (slot ++ rest)) =
      stackPointer (saved :: codeAddress k :: (slot' ++ rest)) :=
    stackPointer_of_length (by simp [hslot, hslot'])
  obtain ⟨u, hstore, hu⟩ := exec_storeResult hslot' hcarries hfp ht
  have hfp' : stackPointer (saved :: codeAddress k :: (slot ++ rest)) =
      stackPointer (saved :: codeAddress k :: (value ++ rest)) :=
    stackPointer_of_length (by simp [hslot])
  rw [hfp'] at hu
  obtain ⟨w, hunwind, hw⟩ := turns_unwind saved u hu
  rw [epilogue_eq, hframe, ← List.singleton_append, ← List.append_assoc] at hend
  have hopen : Exec [Instr.label ctx.endLabel] t .next t := .of_steps (Steps.plain rfl)
  obtain ⟨n', m₂, j, -, hcycles', rfl, hstands₂⟩ :=
    (hopen.append (hstore.append hunwind)).reaches hfits hend.front (fun l hl => by cases hl) hstands₁
  obtain ⟨m₃, hcycle, hstands₃⟩ := Stands.ret hstands₂ hfits hend.back hw.words_eq
  exact ⟨n + n' + 1, m₃, (hcycles.trans hcycles').trans (.one hcycle), _, hstands₃, rfl, hw.fp_eq⟩

end Return

/-! ## Calls -/

theorem turns_slideResult {value args deep : List UInt32} {k : Nat} (hk : k < value.length) :
    Turns (slideResult (4 * args.length) k) (sliding value args deep (k + 1)) fp .next
      (sliding value args deep k) fp := by
  intro v hv
  obtain ⟨front, tail, hread, hfront⟩ := sliding_read args deep hk
  obtain ⟨gap, old, tail', hbefore, hafter, hgap⟩ := sliding_write args deep hk
  have hload : (Int32.ofNat (4 * k)).toUInt32 + get v .esp = wordAddress tail.length := by
    have haddress := stackPointer_word front value[k] tail
    rw [hfront, ← hread, ← hv.words_eq, UInt32.add_comm, ← ofNat_four_mul] at haddress
    exact haddress
  have hstore : (Int32.ofNat (4 * args.length) + Int32.ofNat (4 * k)).toUInt32 + get v .esp =
      wordAddress tail'.length := by
    have haddress := stackPointer_word gap old tail'
    rw [hgap, ← hbefore, ← hv.words_eq, UInt32.add_comm, UInt32.ofNat_add, UInt32.mul_add,
      ← ofNat_four_mul, ← ofNat_four_mul] at haddress
    rw [Int32.toUInt32_add]
    exact haddress
  obtain ⟨t, hput⟩ : ∃ t, put? v .esi value[k] = some t := ⟨_, rfl⟩
  have ht := at_put? hv hput
  have hesi : get t .esi = value[k] := by rw [get_put? hput, if_pos rfl]
  have hesp : get t .esp = get v .esp := by rw [get_put? hput, if_neg (by decide)]
  rw [← hesp] at hstore
  have hfirst : Exec [Instr.load .esi (.based .esp (Int32.ofNat (4 * k)))] v .next t :=
    .of_steps (Steps.load (hv.words_eq.trans hread) hload hput)
  have hsecond : Exec [Instr.store (.based .esp (Int32.ofNat (4 * args.length) + Int32.ofNat (4 * k)))
      .esi] t .next { t with words := gap ++ get t .esi :: tail' } :=
    .of_steps (Steps.store (ht.words_eq.trans hbefore) hstore)
  refine ⟨_, hfirst.append hsecond, ?_, ht.fp_eq, ?_⟩
  · rw [hesi, hafter]
  · have hfits := ht.fits
    rw [hbefore, List.length_append, List.length_cons] at hfits
    rw [hafter, List.length_append, List.length_cons]
    exact hfits

theorem turns_slide {value args deep : List UInt32} :
    Turns ((List.range value.length).reverse.flatMap (slideResult (4 * args.length)) ++
      Instr.drop (4 * args.length)) (value ++ (args ++ deep)) fp .next (value ++ deep) fp := by
  intro v hv
  have hslide : Turns ((List.range value.length).reverse.flatMap (slideResult (4 * args.length)))
      (sliding value args deep value.length) fp .next (sliding value args deep 0) fp :=
    Turns.countDown _ _ fun k hk => turns_slideResult hk
  rw [sliding_length, sliding_zero] at hslide
  obtain ⟨t, hcopy, ht⟩ := hslide v hv
  have hlength : ((value ++ args).take args.length).length = args.length :=
    List.length_take_of_le (by rw [List.length_append]; omega)
  obtain ⟨v', hdrop, hv', -⟩ := exec_drop _ ht
  rw [hlength] at hdrop
  exact ⟨v', hcopy.append hdrop, hv'⟩

/-- After a call the result takes the place of the arguments. -/
theorem turns_afterCall {value args deep : List UInt32} {ret bytes : Nat} (hret : 4 * value.length = ret)
    (hargs : 4 * args.length = bytes) :
    Turns (afterCall ret bytes) (value ++ (args ++ deep)) fp .next (value ++ deep) fp := by
  subst hret hargs
  unfold afterCall
  split
  · rename_i hzero
    obtain rfl : args = [] := List.length_eq_zero_iff.mp (by omega)
    exact Turns.nil
  · intro v hv
    have hfits := hv.fits
    rw [List.length_append, List.length_append] at hfits
    rcases value with _ | ⟨w, _ | ⟨w', _ | ⟨w'', more⟩⟩⟩
    · obtain ⟨v', hexec, hv', -⟩ := exec_drop args hv
      exact ⟨v', hexec, hv'⟩
    · rw [List.length_singleton] at hfits
      obtain ⟨t, hpop, ht, hlow, -⟩ := exec_popReg (r := .eax) hv (by decide)
      obtain ⟨u, hdrop, hu, hregs⟩ := exec_drop args ht
      obtain ⟨v', hpush, hv', -⟩ := exec_pushReg (r := .eax) hu (by omega)
      rw [show get u .eax = w from (congrFun hregs .eax).trans hlow] at hv'
      exact ⟨v', (hpop.append hdrop).append hpush, hv'⟩
    · rw [List.length_cons, List.length_singleton] at hfits
      obtain ⟨t, hpop, ht, hlow, -⟩ := exec_popReg (r := .eax) hv (by decide)
      obtain ⟨t', hpop', ht', hhigh, hkeep⟩ := exec_popReg (r := .edx) ht (by decide)
      obtain ⟨u, hdrop, hu, hregs⟩ := exec_drop args ht'
      obtain ⟨u', hpush, hu', hregs'⟩ := exec_pushReg (r := .edx) hu (by omega)
      rw [show get u .edx = w' from (congrFun hregs .edx).trans hhigh] at hu'
      obtain ⟨v', hpush', hv', -⟩ := exec_pushReg (r := .eax) hu' (by rw [List.length_cons]; omega)
      have heax : get u' .eax = w := by
        show u'.regs.gpr .eax = w
        rw [hregs', hregs, hkeep .eax (by decide), hlow]
      rw [heax] at hv'
      exact ⟨v', ((hpop.append hpop').append hdrop).append (hpush.append hpush'), hv'⟩
    · obtain ⟨v', hexec, hv'⟩ := turns_slide v hv
      refine ⟨v', ?_, hv'⟩
      rw [List.length_cons, List.length_cons, List.length_cons] at hexec ⊢
      split
      · omega
      · omega
      · omega
      · rw [Nat.mul_div_cancel_left _ (by decide)]
        exact hexec

section Enter

variable {p : Program Instr} {m : Machine} {base : Nat}

/-- Whatever lies below the stack becomes the return slot; the other registers are kept. -/
theorem reserves {count : Nat} (hfits : p.code.size ≤ codeLimit)
    (hplaced : Placed p base (Instr.reserve (4 * count))) (hroom : count + words.length ≤ stackCapacity)
    (h : Poised Instr m base words fp) :
    Reaches (Machine.cycle p) m fun m' => (∃ slot, slot.length = count ∧
      Poised Instr m' (base + (Instr.reserve (4 * count)).length) (slot ++ words) fp) ∧
        ∀ r, r ≠ .esp → m'.reg r = m.reg r := by
  by_cases hzero : 4 * count = 0
  · obtain rfl : count = 0 := by omega
    exact .here ⟨⟨[], rfl, h⟩, fun _ _ => rfl⟩
  · obtain ⟨v, hstands, hv⟩ := h.view
    obtain ⟨slot, hslot, hholds⟩ := h.holds.extend count hroom
    rw [Instr.reserve, if_neg hzero] at hplaced ⊢
    have hsees := hstands.sees.fetched base
    have hsp : (alu .sub 32 (stackPointer v.words) (Int32.ofNat (4 * count)).toUInt32
        v.regs.flags.carry).1 = stackPointer (slot ++ words) := by
      have hpointer := stackPointer_append slot words
      rw [hslot, ← ofNat_four_mul] at hpointer
      rw [alu_sub, hv.words_eq, ← hpointer]
      show stackPointer (slot ++ words) + UInt32.ofNat (4 * count) - UInt32.ofNat (4 * count) = _
      grind
    have hread : Machine.read p (.reg .esp) (m.fetched base) =
        .ok (stackPointer v.words) (m.fetched base) := read_value hsees rfl
    have hlength : (slot ++ words).length + (v.free - count) = stackCapacity := by
      have := hv.fits
      rw [List.length_append]
      omega
    have hmoved := (hsees.moveStack hlength hholds).withFlags
      (alu .sub 32 (stackPointer v.words) (Int32.ofNat (4 * count)).toUInt32 v.regs.flags.carry).2
    have hkeep : ∀ flags r, r ≠ .esp →
        ({ (m.fetched base).setReg .esp (stackPointer (slot ++ words)) with flags } : Machine).reg r =
          m.reg r :=
      fun flags r hr => Machine.reg_setReg_of_ne _ _ hr
    refine .step ?_ (.here ⟨⟨slot, hslot, _, ⟨rfl, hmoved⟩, rfl, hv.fp_eq⟩, hkeep _⟩)
    rw [Machine.cycle_at hfits hstands.pc (hplaced.fetch 0 _ rfl), Instr.aluImm, Machine.execute,
      bind_of_ok hread, bind_of_ok (read_value hsees rfl), bind_of_ok (estate_get_apply _),
      hsees.flags, ← hsp]
    rfl

/-- Wherever the stack pointer is, the call goes to the instruction of this index. -/
def Aims (p : Program Instr) (target : Target) (entry : Nat) (m : Machine) : Prop :=
  ∀ m' : Machine, (∀ r, r ≠ .esp → m'.reg r = m.reg r) →
    Machine.targetAddress p target m' = .ok (codeAddress entry) m'

theorem aims_symbol {s : Symbol} {entry : Nat} (hsymbol : p.resolve s = .ok (codeAddress entry)) :
    Aims p (.symbol s) entry m := by
  intro m' _
  rw [Machine.targetAddress, hsymbol]
  rfl

theorem aims_reg {r : Reg} {entry : Nat} (hr : r ≠ .esp) (hreg : m.reg r = codeAddress entry) :
    Aims p (.reg r) entry m := by
  intro m' hsame
  rw [← hreg, ← hsame r hr]
  rfl

/-- A call pushes the return address and goes to the method. -/
theorem Stands.call {v v' : View Registers} {target : Target} {entry : Nat} (h : Stands m base v)
    (hfits : p.code.size ≤ codeLimit) (hplaced : Placed p base [Instr.call target])
    (htarget : Machine.targetAddress p target (m.fetched base) = .ok (codeAddress entry) (m.fetched base))
    (hentry : entry < codeLimit) (hpush : v.push? (codeAddress (base + 1)) = some v') :
    ∃ m', Machine.cycle p m = .ok () m' ∧ Stands m' entry v' := by
  obtain ⟨t, ht, hsees, -⟩ := (h.sees.fetched base).push hpush
  refine ⟨{ t with pc := codeAddress entry }, ?_, rfl, hsees.reg, hsees.flags, hsees.shows⟩
  rw [Machine.cycle_at hfits h.pc (hplaced.fetch 0 _ rfl), Machine.execute, Machine.call,
    bind_of_ok htarget]
  simp only [atAddress?_codeAddress hentry]
  rw [codeAddress_succ, bind_of_ok ht]
  rfl

/-- From the call the machine gets behind the start of the method, where the frame is set up. -/
theorem enters {ctx : EmitContext} {target : Target} {count entry : Nat}
    (hfits : p.code.size ≤ codeLimit)
    (hplaced : Placed p base (Instr.reserve (4 * count) ++ [Instr.call target]))
    (haims : Aims p target entry m) (hstart : Placed p entry (prologue ctx))
    (hroom : ctx.frame.localBytes / 4 + (count + words.length + 2) ≤ stackCapacity)
    (h : Poised Instr m base words fp) :
    Reaches (Machine.cycle p) m fun m' => ∃ slot, slot.length = count ∧
      Poised Instr m' (entry + (prologue ctx).length)
        (List.replicate (ctx.frame.localBytes / 4) 0 ++ fp ::
          codeAddress (base + (Instr.reserve (4 * count) ++ [Instr.call target]).length) ::
            (slot ++ words))
        (stackPointer (fp ::
          codeAddress (base + (Instr.reserve (4 * count) ++ [Instr.call target]).length) ::
            (slot ++ words))) := by
  have hentry : entry < codeLimit := by
    have := hstart.index_lt (k := 0) (Nat.zero_lt_succ _)
    omega
  refine (reserves hfits hplaced.front (by omega) h).trans fun t ⟨⟨slot, hslot, ht⟩, hregs⟩ => ?_
  obtain ⟨v, hstands, hv⟩ := ht.view
  rw [List.length_append, List.length_singleton, ← Nat.add_assoc]
  have hlength : (slot ++ words).length = count + words.length := by rw [List.length_append, hslot]
  obtain ⟨v', hpush, hv', -⟩ := hv.push? (by omega)
    (codeAddress (base + (Instr.reserve (4 * count)).length + 1))
  obtain ⟨u, hcall, hu⟩ := Stands.call hstands hfits hplaced.back (haims _ hregs) hentry hpush
  have hpoised : Poised Instr u entry _ fp := ⟨v', hu, hv'.words_eq, hv'.fp_eq⟩
  refine .step hcall ((hpoised.turns (turns_prologue ?_) hfits hstart).mono fun m' hm' =>
    ⟨slot, hslot, hm'⟩)
  rw [List.length_cons, hlength]
  omega

end Enter

/-- From a return of a method control goes back to wherever it was called from. -/
theorem leaves_of_places {p : Program Instr} {callee : EmitContext} {ret : Instruction} {e' : Effect}
    {entry exit stop : Nat} (hret : ret.op.operation = .ret)
    (hreturned : e'.poppedBytes = callee.frame.returnBytes)
    (h : CalleePlaces backend p callee ret e' entry exit stop) (back : Nat) :
    LeavesMethod (M := Machine) Instr p callee.frame exit back := by
  have hexit : (backend.emit callee ret e').code = X86.ret callee e' := by
    show (emit callee ret e').code = _
    rw [emit, hret]
  have hreturns := h.returns
  rw [hexit] at hreturns
  intro m value own slot rest saved hvalue hslot hm
  exact leaves h.fits hreturns h.ends (hreturned.trans hvalue.symm) hvalue.symm hslot hm

/-- The parts of a call do what the convention asks for. -/
theorem callActs {p : Program Instr} {caller callee : EmitContext} {call ret : Instruction}
    {e e' : Effect} {site entry exit stop : Nat} (hcall : call.op.operation = .call)
    (hret : ret.op.operation = .ret) (hcallee : caller.tables.resolveMethod call = .ok callee.method)
    (hpopped : e.poppedBytes = callee.frame.argBytes)
    (hpushed : e.pushedBytes = callee.frame.returnBytes)
    (hreturned : e'.poppedBytes = callee.frame.returnBytes) (hwords : callee.frame.returnBytes % 4 = 0)
    (h : CallPlaces backend p caller callee call ret e e' site entry exit stop) :
    ∃ back, CallActs p callee.frame site
      (entry + (backend.emit callee (.pseudo 0 .methodStart) {}).code.length) exit back
      (site + (backend.emit caller call e).code.length) := by
  have hcode : (backend.emit caller call e).code =
      Instr.reserve (4 * (callee.frame.returnBytes / 4)) ++ [Instr.callSymbol callee.method.symbol] ++
        afterCall callee.frame.returnBytes callee.frame.argBytes := by
    rw [show 4 * (callee.frame.returnBytes / 4) = callee.frame.returnBytes by omega, ← hpopped, ← hpushed]
    show (emit caller call e).code = _
    rw [emit, hcall]
    show (Template.ofExcept (X86.call caller call e)).code = _
    rw [X86.call, hcallee]
    rfl
  have hcalls := h.calls
  rw [hcode] at hcalls
  rw [hcode, List.length_append, ← Nat.add_assoc]
  refine ⟨site + (Instr.reserve (4 * (callee.frame.returnBytes / 4)) ++
    [Instr.callSymbol callee.method.symbol]).length, ?_, leaves_of_places hret hreturned h.callee _, ?_⟩
  · intro m words fp hroom hm
    exact enters h.fits hcalls.front (aims_symbol h.resolves) h.starts hroom hm
  · intro m value args deep fp hvalue hargs hm
    exact hm.turns (turns_afterCall hvalue hargs) h.fits hcalls.back

end Stencil.X86
