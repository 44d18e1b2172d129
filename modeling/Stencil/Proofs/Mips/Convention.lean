import Stencil.Proofs.Calls.Agreement
import Stencil.Proofs.Mips.Moves
import Stencil.Mips.Backend

/-!
# The calling convention on MIPS32

What the templates of a call make of the stack: the method start, a return, the method end and the
exchange of the arguments for the result. `enters` and `leaves` put them together to the way into a
method and the way back, and `callActs` collects what a call needs. The return address travels in `$ra`
and lies in the frame in between.
-/

namespace Stencil.Mips

open AddressMap Stateful

variable {words : List UInt32} {fp : UInt32}

/-! ## Start, return and end of a method -/

/-- The method start saves the return address and the frame pointer and clears the locals. -/
theorem exec_prologue (ctx : EmitContext) {v : View Registers} {back : UInt32} (hv : v.At words fp)
    (hback : get v .ra = back)
    (hroom : ctx.frame.localBytes / 4 + (words.length + 2) ≤ stackCapacity) :
    ∃ v', Exec (prologue ctx) v .next v' ∧
      v'.At (List.replicate (ctx.frame.localBytes / 4) 0 ++ fp :: back :: words)
        (stackPointer (fp :: back :: words)) := by
  have hset : Turns [Instr.move .fp .sp] (fp :: back :: words) fp .next (fp :: back :: words)
      (stackPointer (fp :: back :: words)) := by
    intro x hx
    refine ⟨_, .of_steps Steps.enter, hx.words_eq, ?_, hx.fits⟩
    rw [hx.words_eq]
  have hclear : Turns (List.replicate (ctx.frame.localBytes / 4) (Instr.push .zero)).flatten
      (fp :: back :: words) (stackPointer (fp :: back :: words)) .next
      (List.replicate (ctx.frame.localBytes / 4) 0 ++ fp :: back :: words)
      (stackPointer (fp :: back :: words)) :=
    Turns.zeros (fun _ hshort => turns_pushZero hshort) hroom
  obtain ⟨t, hlink, ht, -⟩ := exec_push (r := .ra) hv (by decide) (by omega)
  obtain ⟨u, hsave, hu, -⟩ := exec_push (r := .fp) ht (by decide) (by rw [List.length_cons]; omega)
  rw [show get t .fp = fp from ht.fp_eq, hback] at hu
  obtain ⟨v', hrest, hv'⟩ := hset.append hclear u hu
  refine ⟨v', ?_, hv'⟩
  rw [prologue, List.append_assoc]
  exact (hlink.append hsave).append hrest

section Return

variable {ctx : EmitContext} {value own slot rest : List UInt32} {saved back : UInt32}

theorem exec_returnValue {i : Instruction} {code : List Instr} {v : View Registers}
    (hcode : returnValue i (4 * value.length) = .ok code) (hslot : slot.length = value.length)
    (hv : v.At (value ++ (own ++ saved :: back :: (slot ++ rest)))
      (stackPointer (saved :: back :: (slot ++ rest)))) :
    ∃ v' slot', Exec code v .next v' ∧ slot'.length = value.length ∧
      v'.At (own ++ saved :: back :: (slot' ++ rest)) (stackPointer (saved :: back :: (slot ++ rest))) ∧
      Carries (v'.regs.gpr .v0) (v'.regs.gpr .v1) value slot' := by
  rcases value with _ | ⟨w, _ | ⟨w', _ | ⟨w'', more⟩⟩⟩
  · obtain rfl := Except.ok.inj hcode
    exact ⟨v, slot, .nil, hslot, hv, trivial⟩
  · obtain rfl := Except.ok.inj hcode
    obtain ⟨v', hexec, hv', hlow, -⟩ := exec_pop (r := .v0) hv (by decide)
    exact ⟨v', slot, hexec, hslot, hv', hlow⟩
  · obtain rfl := Except.ok.inj hcode
    obtain ⟨t, hfirst, ht, hlow, -⟩ := exec_pop (r := .v0) hv (by decide)
    obtain ⟨v', hsecond, hv', hhigh, hkeep⟩ := exec_pop (r := .v1) ht (by decide)
    have hlow' : v'.regs.gpr .v0 = w := (hkeep .v0 (by decide)).trans hlow
    exact ⟨v', slot, hfirst.append hsecond, hslot, hv', hlow', hhigh⟩
  · have hturns := turns_popSlot (lies_returnSlot own saved back slot rest) hslot.symm
    obtain ⟨v', hexec, hv'⟩ := hturns v hv
    refine ⟨v', _, ?_, rfl, ?_, rfl⟩
    · unfold returnValue at hcode
      rw [List.length_cons, List.length_cons, List.length_cons] at hexec hcode
      split at hcode
      · omega
      · omega
      · omega
      · obtain ⟨_, -, hcode⟩ := answer_bind.mp hcode
        obtain rfl := Except.ok.inj hcode
        rw [Nat.mul_div_cancel_left _ (by decide)]
        exact hexec
    · simpa using hv'

def storeResult (bytes : Nat) : List Instr :=
  match bytes with
  | 4 => [Instr.sw .v0 Frame.returnSlot .fp]
  | 8 => [Instr.sw .v0 Frame.returnSlot .fp, .sw .v1 (Frame.returnSlot + 4) .fp]
  | _ => []

theorem epilogue_eq (ctx : EmitContext) : epilogue ctx = storeResult ctx.frame.returnBytes ++
    ([Instr.move .sp .fp] ++ Instr.pop .fp) ++ Instr.pop .ra ++ [Instr.jr .ra, .nop] := by
  rw [← List.append_assoc (storeResult _)]
  rfl

theorem exec_storeSlot {v : View Registers} (r : Reg) (before : List UInt32) {after : List UInt32}
    {old : UInt32} (hslot : slot = before ++ old :: after) (hfp : fp = stackPointer (saved :: back :: (slot ++ rest)))
    (hv : v.At (own ++ saved :: back :: (slot ++ rest)) fp) :
    ∃ v', Exec [Instr.sw r (Frame.returnSlot + Int32.ofNat (4 * before.length)) .fp] v .next v' ∧
      v'.At (own ++ saved :: back :: (before ++ get v r :: after ++ rest)) fp ∧ v'.regs = v.regs := by
  obtain ⟨hwords, haddress⟩ := (lies_returnSlot own saved back slot rest).word hslot
  rw [← hfp, ← hv.fp_eq] at haddress
  obtain ⟨v', hexec, hv', hregs⟩ := exec_store r .fp hv hwords haddress
  refine ⟨v', hexec, ?_, hregs⟩
  simpa using hv'

/-- The end of a method puts the result into the return slot. -/
theorem exec_storeResult {v : View Registers} (hslot : slot.length = value.length)
    (hcarries : Carries (v.regs.gpr .v0) (v.regs.gpr .v1) value slot)
    (hfp : fp = stackPointer (saved :: back :: (slot ++ rest)))
    (hv : v.At (own ++ saved :: back :: (slot ++ rest)) fp) :
    ∃ v', Exec (storeResult (4 * value.length)) v .next v' ∧
      v'.At (own ++ saved :: back :: (value ++ rest)) fp := by
  rcases value with _ | ⟨w, _ | ⟨w', _ | ⟨w'', more⟩⟩⟩
  · obtain rfl := List.length_eq_zero_iff.mp hslot
    exact ⟨v, .nil, hv⟩
  · obtain ⟨old, rfl⟩ := List.length_eq_one_iff.mp hslot
    obtain ⟨v', hexec, hv', -⟩ := exec_storeSlot .v0 [] rfl hfp hv
    rw [show get v .v0 = w from hcarries] at hv'
    exact ⟨v', hexec, hv'⟩
  · obtain ⟨old, old', rfl⟩ := List.length_eq_two.mp hslot
    obtain ⟨t, hfirst, ht, hregs⟩ := exec_storeSlot .v0 [] rfl hfp hv
    rw [show get v .v0 = w from hcarries.1] at ht
    have hfp' : fp = stackPointer (saved :: back :: ([w, old'] ++ rest)) :=
      hfp.trans (stackPointer_of_length rfl)
    obtain ⟨v', hsecond, hv', -⟩ := exec_storeSlot .v1 [w] rfl hfp' ht
    have hhigh : get t .v1 = w' := (congrArg (Registers.gpr · .v1) hregs).trans hcarries.2
    rw [hhigh] at hv'
    exact ⟨v', hfirst.append hsecond, hv'⟩
  · obtain rfl : slot = w :: w' :: w'' :: more := hcarries
    refine ⟨v, ?_, hv⟩
    unfold storeResult
    rw [List.length_cons, List.length_cons, List.length_cons]
    split
    · omega
    · omega
    · exact .nil

/-- The end of a method drops what lies below its frame and restores the frame pointer. -/
theorem turns_unwind {own words : List UInt32} (saved : UInt32) :
    Turns ([Instr.move .sp .fp] ++ Instr.pop .fp) (own ++ saved :: words)
      (stackPointer (saved :: words)) .next words saved := by
  intro v hv
  have hfits := hv.fits
  rw [List.length_append, List.length_cons] at hfits
  have hdrop : (v.drop own.length).words = saved :: words := by
    show v.words.drop own.length = _
    rw [hv.words_eq, List.drop_left]
  have hleave := Exec.of_steps (I := Instr) (Steps.leave hv.words_eq hv.fp_eq)
  refine ⟨_, hleave.append (.of_steps (Steps.restore hdrop)), ?_, rfl, ?_⟩
  · show (v.drop own.length).words.drop 1 = words
    rw [hdrop]
    rfl
  · show words.length + (v.free + own.length + 1) = _
    omega

theorem Stands.ret {p : Program Instr} {m : Machine} {v : View Registers} {base k : Nat}
    (h : Stands m base v) (hfits : p.code.size ≤ codeLimit) (hplaced : Placed p base [Instr.jr .ra, .nop])
    (hback : get v .ra = codeAddress k) :
    ∃ m', Cycles (Machine.cycle p) 2 m m' ∧ Stands m' k v := by
  have hsees := h.sees.fetched base
  have hexecute : Machine.execute p (.jr .ra) (m.fetched base) =
      .ok (some (codeAddress k)) (m.fetched base) := by
    rw [← hback, ← hsees.reg]
    rfl
  obtain ⟨m', hcycles, hpc, hnpc, hsees'⟩ := h.transfer hfits hplaced hexecute rfl hsees
  exact ⟨m', hcycles, hpc, by rw [hnpc, codeAddress_succ], hsees'⟩

/-- From a return the machine gets back to the caller, with the result in place of the return slot, in no
more cycles than there are instructions. -/
theorem leaves {p : Program Instr} {m : Machine} {i : Instruction} {e : Effect} {code : List Instr}
    {exit stop k : Nat} (hfits : p.code.size ≤ codeLimit) (hcode : ret ctx i e = .ok code)
    (hret : Placed p exit code) (hend : Placed p stop (Instr.label ctx.endLabel :: epilogue ctx))
    (hbytes : e.poppedBytes = 4 * value.length) (hframe : ctx.frame.returnBytes = 4 * value.length)
    (hslot : slot.length = value.length)
    (h : Poised Instr m exit (value ++ (own ++ saved :: codeAddress k :: (slot ++ rest)))
      (stackPointer (saved :: codeAddress k :: (slot ++ rest)))) :
    ∃ n m', n ≤ code.length + ((epilogue ctx).length + 1) ∧ Cycles (Machine.cycle p) n m m' ∧
      Poised Instr m' k (value ++ rest) saved := by
  obtain ⟨v, hstands, hv⟩ := h.view
  unfold ret at hcode
  rw [hbytes] at hcode
  obtain ⟨result, hresult, hcode⟩ := answer_bind.mp hcode
  obtain rfl := Except.ok.inj hcode
  obtain ⟨t, slot', htake, hslot', ht, hcarries⟩ := exec_returnValue hresult hslot hv
  have hlabel : p.labels[ctx.endLabel]? = some stop := hend.labels 0 _ ctx.endLabel rfl rfl
  have hexec : Exec (result ++ Instr.jump ctx.endLabel) v (.goto ctx.endLabel) t :=
    htake.append (.of_jumps Jumps.jump)
  obtain ⟨n, m₁, j, hn, hcycles, hj, hstands₁⟩ :=
    hexec.reaches hfits hret (fun l hl => ⟨stop, by rw [← Exit.goto.inj hl]; exact hlabel⟩) hstands
  obtain rfl : j = stop := Option.some.inj (hj.symm.trans hlabel)
  -- the end of the method up to the jump
  have hfp : stackPointer (saved :: codeAddress k :: (slot ++ rest)) =
      stackPointer (saved :: codeAddress k :: (slot' ++ rest)) :=
    stackPointer_of_length (by simp [hslot, hslot'])
  obtain ⟨u, hstore, hu⟩ := exec_storeResult hslot' hcarries hfp ht
  have hfp' : stackPointer (saved :: codeAddress k :: (slot ++ rest)) =
      stackPointer (saved :: codeAddress k :: (value ++ rest)) :=
    stackPointer_of_length (by simp [hslot])
  rw [hfp'] at hu
  obtain ⟨x, hunwind, hx⟩ := turns_unwind saved u hu
  obtain ⟨y, hpop, hy, hback, -⟩ := exec_pop (r := .ra) hx (by decide)
  rw [epilogue_eq, hframe, ← List.singleton_append, ← List.append_assoc] at hend
  rw [epilogue_eq, hframe]
  have hopen : Exec [Instr.label ctx.endLabel] t .next t :=
    .of_steps (Semantics.steps_label (I := Instr) ctx.endLabel t)
  obtain ⟨n', m₂, j, hn', hcycles', rfl, hstands₂⟩ :=
    (hopen.append ((hstore.append hunwind).append hpop)).reaches hfits hend.front
      (fun l hl => by cases hl) hstands₁
  obtain ⟨m₃, hcycles'', hstands₃⟩ := Stands.ret hstands₂ hfits hend.back hback
  refine ⟨n + n' + 2, m₃, ?_, (hcycles.trans hcycles').trans hcycles'', _, hstands₃, hy.words_eq, hy.fp_eq⟩
  simp only [List.length_append, List.length_cons, List.length_nil] at hn hn' ⊢
  omega

end Return

/-! ## Calls -/

theorem turns_slideResult {value args deep : List UInt32} {k : Nat} (hk : k < value.length) :
    Turns (slideResult (4 * args.length) k) (sliding value args deep (k + 1)) fp .next
      (sliding value args deep k) fp := by
  intro v hv
  obtain ⟨front, tail, hread, hfront⟩ := sliding_read args deep hk
  obtain ⟨gap, old, tail', hbefore, hafter, hgap⟩ := sliding_write args deep hk
  have hload : get v .sp + (Int32.ofNat (4 * k)).toUInt32 = wordAddress tail.length := by
    have haddress := stackPointer_word front value[k] tail
    rw [hfront, ← hread, ← hv.words_eq, ← ofNat_four_mul] at haddress
    exact haddress
  have hstore : get v .sp + (Int32.ofNat (4 * args.length) + Int32.ofNat (4 * k)).toUInt32 =
      wordAddress tail'.length := by
    have haddress := stackPointer_word gap old tail'
    rw [hgap, ← hbefore, ← hv.words_eq, UInt32.ofNat_add, UInt32.mul_add, ← ofNat_four_mul,
      ← ofNat_four_mul] at haddress
    rw [Int32.toUInt32_add]
    exact haddress
  obtain ⟨t, hfirst, ht, hreg⟩ := exec_load .t6 .sp hv hread hload (by decide)
  have hsp : get t .sp = get v .sp := by rw [hreg, if_neg (by decide)]
  rw [← hsp] at hstore
  obtain ⟨v', hsecond, hv', -⟩ := exec_store .t6 .sp ht hbefore hstore
  rw [hreg, if_pos rfl, ← hafter] at hv'
  exact ⟨v', hfirst.append hsecond, hv'⟩

theorem turns_slide {value args deep : List UInt32} :
    Turns ((List.range value.length).reverse.flatMap (slideResult (4 * args.length)) ++
      Instr.drop (4 * args.length)) (value ++ (args ++ deep)) fp .next (value ++ deep) fp := by
  intro v hv
  have hslide : Turns ((List.range value.length).reverse.flatMap (slideResult (4 * args.length)))
      (sliding value args deep value.length) fp .next (sliding value args deep 0) fp :=
    Turns.countDown _ _ fun k hk => turns_slideResult hk
  rw [sliding_length, sliding_zero] at hslide
  obtain ⟨t, hcopy, ht⟩ := hslide v hv
  have hlength : ((value ++ args).take args.length).length = args.length :=
    List.length_take_of_le (by rw [List.length_append]; omega)
  obtain ⟨v', hdrop, hv', -⟩ := exec_drop _ ht
  rw [hlength] at hdrop
  exact ⟨v', hcopy.append hdrop, hv'⟩

/-- After a call the result takes the place of the arguments. -/
theorem turns_afterCall {value args deep : List UInt32} {ret bytes : Nat} (hret : 4 * value.length = ret)
    (hargs : 4 * args.length = bytes) :
    Turns (afterCall ret bytes) (value ++ (args ++ deep)) fp .next (value ++ deep) fp := by
  subst hret hargs
  unfold afterCall
  split
  · rename_i hzero
    obtain rfl : args = [] := List.length_eq_zero_iff.mp (by omega)
    exact Turns.nil
  · intro v hv
    have hfits := hv.fits
    rw [List.length_append, List.length_append] at hfits
    rcases value with _ | ⟨w, _ | ⟨w', _ | ⟨w'', more⟩⟩⟩
    · obtain ⟨v', hexec, hv', -⟩ := exec_drop args hv
      exact ⟨v', hexec, hv'⟩
    · rw [List.length_singleton] at hfits
      obtain ⟨t, hpop, ht, hlow, -⟩ := exec_pop (r := .t0) hv (by decide)
      obtain ⟨u, hdrop, hu, hregs⟩ := exec_drop args ht
      obtain ⟨v', hpush, hv', -⟩ := exec_push (r := .t0) hu (by decide) (by omega)
      have ht0 : get u .t0 = w := by
        rw [← hlow]
        exact congrArg (Registers.gpr · .t0) hregs
      rw [ht0] at hv'
      exact ⟨v', (hpop.append hdrop).append hpush, hv'⟩
    · rw [List.length_cons, List.length_singleton] at hfits
      obtain ⟨t, hpop, ht, hlow, -⟩ := exec_pop (r := .t0) hv (by decide)
      obtain ⟨t', hpop', ht', hhigh, hkeep⟩ := exec_pop (r := .t1) ht (by decide)
      obtain ⟨u, hdrop, hu, hregs⟩ := exec_drop args ht'
      obtain ⟨u', hpush, hu', hregs'⟩ := exec_push (r := .t1) hu (by decide) (by omega)
      have ht1 : get u .t1 = w' := by
        rw [← hhigh]
        exact congrArg (Registers.gpr · .t1) hregs
      rw [ht1] at hu'
      obtain ⟨v', hpush', hv', -⟩ :=
        exec_push (r := .t0) hu' (by decide) (by rw [List.length_cons]; omega)
      have ht0 : get u' .t0 = w := by
        show u'.regs.gpr .t0 = w
        rw [hregs', hregs, hkeep .t0 (by decide)]
        exact hlow
      rw [ht0] at hv'
      exact ⟨v', (((hpop.append hpop').append hdrop).append hpush).append hpush', hv'⟩
    · obtain ⟨v', hexec, hv'⟩ := turns_slide v hv
      refine ⟨v', ?_, hv'⟩
      rw [List.length_cons, List.length_cons, List.length_cons] at hexec ⊢
      split
      · omega
      · omega
      · omega
      · rw [Nat.mul_div_cancel_left _ (by decide)]
        exact hexec

section Enter

variable {p : Program Instr} {m : Machine} {base : Nat}

/-- Whatever lies below the stack becomes the return slot; the other registers are kept. -/
theorem reserves {count : Nat} (hfits : p.code.size ≤ codeLimit)
    (hplaced : Placed p base (Instr.reserve (4 * count))) (hroom : count + words.length ≤ stackCapacity)
    (h : Poised Instr m base words fp) :
    Reaches (Machine.cycle p) m fun m' => (∃ slot, slot.length = count ∧
      Poised Instr m' (base + (Instr.reserve (4 * count)).length) (slot ++ words) fp) ∧
        ∀ r, r ≠ .sp → m'.reg r = m.reg r := by
  by_cases hzero : 4 * count = 0
  · obtain rfl : count = 0 := by omega
    exact .here ⟨⟨[], rfl, h⟩, fun _ _ => rfl⟩
  · obtain ⟨v, hstands, hv⟩ := h.view
    obtain ⟨slot, hslot, hholds⟩ := h.holds.extend count hroom
    rw [Instr.reserve, if_neg hzero] at hplaced ⊢
    have hsees := hstands.sees.fetched base
    have hlength : (slot ++ words).length + (v.free - count) = stackCapacity := by
      have := hv.fits
      rw [List.length_append]
      omega
    have hsp : (m.fetched base).reg .sp + (-Int32.ofNat (4 * count)).toUInt32 =
        stackPointer (slot ++ words) := by
      have hpointer := stackPointer_append slot words
      rw [hslot, ← ofNat_four_mul] at hpointer
      rw [hsees.reg, get, hv.words_eq, ← hpointer, Int32.toUInt32_neg]
      show stackPointer (slot ++ words) + UInt32.ofNat (4 * count) + -UInt32.ofNat (4 * count) = _
      grind
    have hexecute : Machine.execute p (.addiu .sp .sp (-Int32.ofNat (4 * count))) (m.fetched base) =
        .ok none ((m.fetched base).setReg .sp (stackPointer (slot ++ words))) := by
      rw [← hsp]
      rfl
    obtain ⟨hcycle, hnext⟩ := hstands.one hfits (hplaced.fetch 0 _ rfl) hexecute
      (Machine.setReg_npc ..) (hsees.moveStack hlength hholds)
    exact .step hcycle (.here ⟨⟨slot, hslot, _, hnext, rfl, hv.fp_eq⟩, fun r hr =>
      Machine.reg_setReg_of_ne (m.fetched base) _ hr⟩)

/-- Wherever the stack pointer is, the transfer goes to the instruction of this index, with its own
return address in `$ra`. -/
def Aims (p : Program Instr) (transfer : Instr) (entry : Nat) (m : Machine) : Prop :=
  ∀ (m' : Machine) (k : Nat), (∀ r, r ≠ .sp → m'.reg r = m.reg r) → m'.pc = codeAddress k →
    Machine.execute p transfer m' =
      .ok (some (codeAddress entry)) (m'.setReg .ra (codeAddress (k + 2)))

theorem codeAddress_add_eight (k : Nat) : codeAddress k + 8 = codeAddress (k + 2) := by
  rw [← codeAddress_succ (k + 1), ← codeAddress_succ k, UInt32.add_assoc]
  rfl

theorem aims_symbol {s : Symbol} {entry : Nat} (hsymbol : p.resolve s = .ok (codeAddress entry)) :
    Aims p (.jal s) entry m := by
  intro m' k _ hpc
  rw [← codeAddress_add_eight, ← hpc, Machine.execute, hsymbol]
  rfl

theorem aims_reg {r : Reg} {entry : Nat} (hr : r ≠ .sp) (hreg : m.reg r = codeAddress entry) :
    Aims p (.jalr r) entry m := by
  intro m' k hsame hpc
  rw [← codeAddress_add_eight, ← hpc, ← hreg, ← hsame r hr]
  rfl

/-- A call leaves the return address in `$ra` and goes to the method. -/
theorem Stands.call {v : View Registers} {transfer : Instr} {entry : Nat} (h : Stands m base v)
    (hfits : p.code.size ≤ codeLimit) (hplaced : Placed p base [transfer, .nop])
    (hexecute : Machine.execute p transfer (m.fetched base) =
      .ok (some (codeAddress entry)) ((m.fetched base).setReg .ra (codeAddress (base + 2)))) :
    ∃ m' v', Cycles (Machine.cycle p) 2 m m' ∧ Stands m' entry v' ∧
      put? v .ra (codeAddress (base + 2)) = some v' := by
  have hsees := h.sees.fetched base
  obtain ⟨v', hput⟩ : ∃ v', put? v .ra (codeAddress (base + 2)) = some v' := ⟨_, rfl⟩
  obtain ⟨m', hcycles, hpc, hnpc, hsees'⟩ := h.transfer hfits hplaced hexecute
    (Machine.setReg_npc ..) (hsees.setReg hput)
  exact ⟨m', v', hcycles, ⟨hpc, by rw [hnpc, codeAddress_succ], hsees'⟩, hput⟩

/-- From the call the machine gets behind the start of the method, where the frame is set up. -/
theorem enters {ctx : EmitContext} {transfer : Instr} {count entry : Nat}
    (hfits : p.code.size ≤ codeLimit)
    (hplaced : Placed p base (Instr.reserve (4 * count) ++ [transfer, .nop]))
    (haims : Aims p transfer entry m) (hstart : Placed p entry (prologue ctx))
    (hroom : ctx.frame.localBytes / 4 + (count + words.length + 2) ≤ stackCapacity)
    (h : Poised Instr m base words fp) :
    Reaches (Machine.cycle p) m fun m' => ∃ slot, slot.length = count ∧
      Poised Instr m' (entry + (prologue ctx).length)
        (List.replicate (ctx.frame.localBytes / 4) 0 ++ fp ::
          codeAddress (base + (Instr.reserve (4 * count) ++ [transfer, .nop]).length) ::
            (slot ++ words))
        (stackPointer (fp ::
          codeAddress (base + (Instr.reserve (4 * count) ++ [transfer, .nop]).length) ::
            (slot ++ words))) := by
  refine (reserves hfits hplaced.front (by omega) h).trans fun t ⟨⟨slot, hslot, ht⟩, hregs⟩ => ?_
  obtain ⟨v, hstands, hv⟩ := ht.view
  rw [List.length_append, ← Nat.add_assoc]
  have hlength : (slot ++ words).length = count + words.length := by rw [List.length_append, hslot]
  obtain ⟨u, v', hcall, hu, hput⟩ :=
    Stands.call hstands hfits hplaced.back (haims _ _ hregs hstands.pc)
  have hback : get v' .ra = codeAddress (base + (Instr.reserve (4 * count)).length + 2) := by
    rw [get_put? hput, if_pos rfl]
  obtain ⟨v'', hexec, hv''⟩ := exec_prologue ctx (at_put? hv hput) hback (by omega)
  obtain ⟨n, m', j, -, hcycles, rfl, hm'⟩ :=
    hexec.reaches hfits hstart (fun l hl => by cases hl) hu
  exact ⟨2 + n, m', hcall.trans hcycles, slot, hslot, v'', hm', hv''.words_eq, hv''.fp_eq⟩

end Enter

/-- From a return of a method control goes back to wherever it was called from. -/
theorem leaves_of_places {p : Program Instr} {callee : EmitContext} {ret : Instruction} {e' : Effect}
    {entry exit stop : Nat} (hret : ret.op.operation = .ret)
    (hreturned : e'.poppedBytes = callee.frame.returnBytes)
    (h : CalleePlaces backend p callee ret e' entry exit stop) (back : Nat) :
    LeavesMethod (M := Machine) Instr p callee.frame exit back := by
  obtain ⟨code, hcode, hexit⟩ : ∃ code, Mips.ret callee ret e' = .ok code ∧
      (backend.emit callee ret e').code = code := by
    have hfine := h.returned
    change (emit callee ret e').failure = none at hfine
    show ∃ code, _ ∧ (emit callee ret e').code = code
    rw [emit, hret] at hfine ⊢
    change (Template.ofExcept (Mips.ret callee ret e')).failure = none at hfine
    show ∃ code, _ ∧ (Template.ofExcept (Mips.ret callee ret e')).code = code
    cases hanswer : Mips.ret callee ret e' with
    | ok code => exact ⟨code, rfl, rfl⟩
    | error err =>
      rw [hanswer] at hfine
      cases hfine
  have hreturns := h.returns
  rw [hexit] at hreturns
  intro m value own slot rest saved hvalue hslot hm
  obtain ⟨n, m', -, hcycles, hm'⟩ :=
    leaves h.fits hcode hreturns h.ends (hreturned.trans hvalue.symm) hvalue.symm hslot hm
  exact ⟨n, m', hcycles, hm'⟩

/-- The parts of a call do what the convention asks for. -/
theorem callActs {p : Program Instr} {caller callee : EmitContext} {call ret : Instruction}
    {e e' : Effect} {site entry exit stop : Nat} (hcall : call.op.operation = .call)
    (hret : ret.op.operation = .ret) (hcallee : caller.tables.resolveMethod call = .ok callee.method)
    (hpopped : e.poppedBytes = callee.frame.argBytes)
    (hpushed : e.pushedBytes = callee.frame.returnBytes)
    (hreturned : e'.poppedBytes = callee.frame.returnBytes) (hwords : callee.frame.returnBytes % 4 = 0)
    (h : CallPlaces backend p caller callee call ret e e' site entry exit stop) :
    ∃ back, CallActs p callee.frame site
      (entry + (backend.emit callee (.pseudo 0 .methodStart) {}).code.length) exit back
      (site + (backend.emit caller call e).code.length) := by
  have hcode : (backend.emit caller call e).code =
      Instr.reserve (4 * (callee.frame.returnBytes / 4)) ++ Instr.callSymbol callee.method.symbol ++
        afterCall callee.frame.returnBytes callee.frame.argBytes := by
    rw [show 4 * (callee.frame.returnBytes / 4) = callee.frame.returnBytes by omega, ← hpopped, ← hpushed]
    show (emit caller call e).code = _
    rw [emit, hcall]
    show (Template.ofExcept (Mips.call caller call e)).code = _
    rw [Mips.call, hcallee]
    rfl
  have hcalls := h.calls
  rw [hcode] at hcalls
  rw [hcode, List.length_append, ← Nat.add_assoc]
  refine ⟨site + (Instr.reserve (4 * (callee.frame.returnBytes / 4)) ++
    Instr.callSymbol callee.method.symbol).length, ?_, leaves_of_places hret hreturned h.callee _, ?_⟩
  · intro m words fp hroom hm
    exact enters h.fits hcalls.front (aims_symbol h.resolves) h.starts hroom hm
  · intro m value args deep fp hvalue hargs hm
    exact hm.turns (turns_afterCall hvalue hargs) h.fits hcalls.back

end Stencil.Mips
