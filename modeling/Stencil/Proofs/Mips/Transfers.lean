import Stencil.Proofs.Execution.Moves
import Stencil.Proofs.Mips.Words
import Stencil.Mips.Backend

/-!
# Templates that move values on MIPS32

Loads, stores, constants, conversions and jumps out of a template. `movesValues` collects them.
-/

namespace Stencil.Mips

open Meaning Meaning.Value

variable {words : List UInt32} {fp : UInt32} {v : View Registers}

/-! ## Conversions -/

/-- A part that is shifted up and down again brings its sign along. -/
theorem sra_sll (a : UInt32) {c : UInt32} {bits : Nat}
    (hc : c.toNat = 24 ∧ bits = 8 ∨ c.toNat = 16 ∧ bits = 16) :
    shiftBy .sra (shiftBy .sll a c) c = narrowed true bits a := by
  have ha := a.toNat_lt
  have hlt : c.toNat % 32 = c.toNat := by omega
  have hup : shiftBy .sll a c = shiftedWord .shl a c.toNat := (alu_sllv a c).trans (by rw [hlt])
  have hdown : ∀ b, shiftBy .sra b c = shiftedWord .shr b c.toNat :=
    fun b => (alu_srav b c).trans (by rw [hlt])
  have hint : toInt [UInt32.ofNat (a.toNat * 2 ^ c.toNat)] / 2 ^ c.toNat = Int.bmod a.toNat (2 ^ bits) := by
    rw [toInt_word, UInt32.toNat_ofNat', Int.bmod_def]
    rcases hc with ⟨hcount, rfl⟩ | ⟨hcount, rfl⟩ <;> rw [hcount] <;> norm_num <;> omega
  rw [hdown, hup, shiftedWord, if_neg (by decide), shiftedWord, if_pos rfl, shiftee, if_neg (by decide),
    hint, narrowed, if_pos rfl]

theorem andi_part (a : UInt32) {bits : Nat} (hbits : bits = 8 ∨ bits = 16) :
    aluImm .andi a (Int32.ofNat (Word.modulus bits - 1)) = narrowed false bits a := by
  have hmask : (Int32.ofNat (Word.modulus bits - 1)).toUInt32 &&& 0xFFFF = UInt32.ofNat (2 ^ bits - 1) := by
    rcases hbits with rfl | rfl <;> rfl
  have hlt : 2 ^ bits - 1 < UInt32.size := by rcases hbits with rfl | rfl <;> decide
  rw [aluImm, hmask, narrowed, if_neg (by decide), ← UInt32.toNat_inj]
  show (a &&& UInt32.ofNat (2 ^ bits - 1)).toNat = _
  rw [UInt32.toNat_and, UInt32.toNat_ofNat_of_lt' hlt, Nat.and_two_pow_sub_one_eq_mod, ← natCast_two_pow,
    ← Int.natCast_mod, ofInt_natCast, UInt32.toNat_ofNat_of_lt']
  exact (Nat.mod_le _ _).trans_lt a.toNat_lt

theorem exec_narrow (signed : Bool) {size : Nat} (hsize : size = 1 ∨ size = 2 ∨ size = 4)
    (hv : v.At words fp) :
    ∃ v', Exec (narrow signed size) v .next v' ∧ v'.At words fp ∧
      get v' .t0 = narrowed signed (8 * size) (get v .t0) := by
  by_cases hpart : size < 4
  · rw [narrow, if_pos hpart]
    cases signed with
    | false =>
      obtain ⟨v', hexec, hv', hreg⟩ :=
        exec_put (.aluImm .andi .t0 .t0 (Int32.ofNat (Word.modulus (8 * size) - 1))) .t0 hv rfl rfl
      refine ⟨v', hexec, hv', ?_⟩
      rw [hreg, if_pos rfl]
      exact andi_part _ (by omega)
    | true =>
      have hrest : (UInt8.ofNat (32 - 8 * size)).toUInt32.toNat = 32 - 8 * size := by
        rcases hsize with rfl | rfl | rfl <;> rfl
      obtain ⟨v₁, hup, hv₁, hreg₁⟩ :=
        exec_put (.shift .sll .t0 .t0 (UInt8.ofNat (32 - 8 * size))) .t0 hv rfl rfl
      obtain ⟨v₂, hdown, hv₂, hreg₂⟩ :=
        exec_put (.shift .sra .t0 .t0 (UInt8.ofNat (32 - 8 * size))) .t0 hv₁ rfl rfl
      refine ⟨v₂, hup.append hdown, hv₂, ?_⟩
      rw [hreg₂, if_pos rfl, hreg₁, if_pos rfl]
      exact sra_sll _ (by omega)
  · obtain rfl : size = 4 := by omega
    exact ⟨v, .nil, hv, (narrowed_word signed _).symm⟩

theorem turns_widen {target : ConvTarget} (hsize : target.valueSize 4 = 8) (a : UInt32)
    (hroom : 2 + words.length ≤ stackCapacity) :
    Turns (convertTo 4 4 target) (a :: words) fp .next
      (a :: (if target.isSigned then outWord .shr a else 0) :: words) fp := by
  intro v hv
  obtain ⟨v₁, hpop, hv₁, hlow, -⟩ := exec_pop (r := .t0) hv (by decide)
  obtain ⟨v₂, hhigh, hv₂, hkeep⟩ : ∃ v₂,
      Exec (if target.isSigned then .shift .sra .t1 .t0 31 :: Instr.push .t1 else Instr.push .zero) v₁
        .next v₂ ∧ v₂.At ((if target.isSigned then outWord .shr a else 0) :: words) fp ∧
      get v₂ .t0 = a := by
    split
    · obtain ⟨t, hsign, ht, hreg⟩ := exec_put (.shift .sra .t1 .t0 31) .t1 hv₁ rfl rfl
      obtain ⟨v₂, hpush, hv₂, hregs⟩ := exec_push (r := .t1) ht (by decide) (by omega)
      have hword : get t .t1 = outWord .shr a := by
        rw [hreg, if_pos rfl, hlow]
        exact shiftBy_sign a
      rw [hword] at hv₂
      refine ⟨v₂, hsign.append hpush, hv₂, ?_⟩
      show v₂.regs.gpr .t0 = a
      rw [hregs]
      exact (hreg .t0).trans hlow
    · obtain ⟨v₂, hpush, hv₂, hregs⟩ := exec_push (r := .zero) hv₁ (by decide) (by omega)
      refine ⟨v₂, hpush, hv₂, ?_⟩
      show v₂.regs.gpr .t0 = a
      rw [hregs]
      exact hlow
  obtain ⟨v₃, hpush, hv₃, -⟩ := exec_push (r := .t0) hv₂ (by decide) (by rw [List.length_cons]; omega)
  rw [hkeep] at hv₃
  have hcode : convertTo 4 4 target = Instr.pop .t0 ++
      (if target.isSigned then .shift .sra .t1 .t0 31 :: Instr.push .t1 else Instr.push .zero) ++
      Instr.push .t0 := by
    cases target <;> first | rfl | cases hsize
  rw [hcode]
  exact ⟨v₃, (hpop.append hhigh).append hpush, hv₃⟩

def cutDown (signed : Bool) (words size : Nat) : List Instr :=
  Instr.pop .t0 ++ (if words = 2 then Instr.drop 4 else []) ++ narrow signed size ++ Instr.push .t0

theorem turns_cutDown (signed : Bool) {size : Nat} (hsize : size = 1 ∨ size = 2 ∨ size = 4) {a : UInt32}
    {rest : Value} (ha : Value.isInteger (a :: rest) = true) :
    Turns (cutDown signed (a :: rest).length size) (a :: (rest ++ words)) fp .next
      (narrowed signed (8 * size) a :: words) fp := by
  intro v hv
  have hfits := hv.fits
  rw [List.length_cons, List.length_append] at hfits
  obtain ⟨v₁, hpop, hv₁, hlow, -⟩ := exec_pop (r := .t0) hv (by decide)
  obtain ⟨v₂, hdrop, hv₂, hword⟩ : ∃ v₂,
      Exec (if (a :: rest).length = 2 then Instr.drop 4 else []) v₁ .next v₂ ∧ v₂.At words fp ∧
        get v₂ .t0 = a := by
    rcases isInteger_cases ha with ⟨_, hword⟩ | ⟨_, b, hpair⟩
    · obtain ⟨rfl, rfl⟩ := List.cons.inj hword
      exact ⟨v₁, .nil, hv₁, hlow⟩
    · obtain ⟨rfl, rfl⟩ := List.cons.inj hpair
      obtain ⟨v₂, hdrop, hv₂, hregs⟩ := exec_drop [b] hv₁
      refine ⟨v₂, hdrop, hv₂, ?_⟩
      show v₂.regs.gpr .t0 = a
      rw [hregs]
      exact hlow
  obtain ⟨v₃, hnarrow, hv₃, hreg⟩ := exec_narrow signed hsize hv₂
  obtain ⟨v₄, hpush, hv₄, -⟩ := exec_push (r := .t0) hv₃ (by decide) (by omega)
  rw [hreg, hword] at hv₄
  exact ⟨v₄, ((hpop.append hdrop).append hnarrow).append hpush, hv₄⟩

theorem turns_convert {target : ConvTarget} {a c : Value} (h : Meaning.convert target a = some c)
    (hroom : c.length + words.length ≤ stackCapacity) :
    Turns (convertTo 4 (4 * a.length) target) (a ++ words) fp .next (c ++ words) fp := by
  have ha := isInteger_of_convert h
  rcases isInteger_cases ha with ⟨w, rfl⟩ | ⟨w, w', rfl⟩
  · cases target with
    | i4 | u4 | i | u =>
      rw [convert_word rfl] at h
      obtain rfl := Option.some.inj h
      exact Turns.nil
    | i8 | u8 =>
      rw [convert_widen rfl] at h
      obtain rfl := Option.some.inj h
      exact turns_widen rfl w hroom
    | i1 | i2 | u1 | u2 =>
      rw [convert_narrow (by decide) ha] at h
      obtain rfl := Option.some.inj h
      exact turns_cutDown _ (by decide) ha
  · cases target with
    | i8 | u8 =>
      rw [convert_same rfl] at h
      obtain rfl := Option.some.inj h
      exact Turns.nil
    | i4 | u4 | i | u | i1 | i2 | u1 | u2 =>
      rw [convert_narrow (by decide) ha] at h
      obtain rfl := Option.some.inj h
      exact turns_cutDown _ (by decide) ha

/-! ## Constants, copies and switches -/

theorem turns_pushImm (value : Int32) (hroom : words.length < stackCapacity) :
    Turns (Instr.pushImm value) words fp .next (value.toUInt32 :: words) fp := by
  unfold Instr.pushImm
  split
  · rename_i hzero
    rw [hzero]
    exact turns_pushZero hroom
  · intro v hv
    obtain ⟨v₁, hli, hv₁, hreg⟩ := exec_put (.li .t9 value) .t9 hv rfl rfl
    obtain ⟨v₂, hpush, hv₂, -⟩ := exec_push (r := .t9) hv₁ (by decide) hroom
    rw [hreg, if_pos rfl] at hv₂
    exact ⟨v₂, hli.append hpush, hv₂⟩

theorem turns_loadConst {i : Instruction} {value : Value} (hvalue : constant? i = some value)
    (hroom : value.length + words.length ≤ stackCapacity) :
    ∃ code, loadConst i = .ok code ∧ Turns code words fp .next (value ++ words) fp := by
  unfold constant? at hvalue
  unfold loadConst
  split at hvalue
  · rename_i hlong
    obtain ⟨n, hn, rfl⟩ := Option.map_eq_some_iff.mp hvalue
    rw [ofInt_long] at hroom ⊢
    have hroom' : 2 + words.length ≤ stackCapacity := hroom
    rw [if_pos hlong, toOption_eq_some.mp hn]
    refine ⟨_, rfl, (turns_pushImm _ (by omega)).append (turns_pushImm _ ?_)⟩
    rw [List.length_cons]
    omega
  · rename_i hword
    obtain ⟨n, hn, rfl⟩ := Option.map_eq_some_iff.mp hvalue
    have hroom' : 1 + words.length ≤ stackCapacity := hroom
    rw [if_neg hword, toOption_eq_some.mp hn]
    exact ⟨_, rfl, turns_pushImm n (by omega)⟩

theorem turns_dup {i : Instruction} {e : Effect} {value deep : List UInt32} {code : List Instr}
    (hcode : dup i e = .ok code) (hsize : e.result.size = 4 * value.length)
    (hroom : value.length + (value ++ deep).length ≤ stackCapacity) :
    Turns code (value ++ deep) fp .next (value ++ (value ++ deep)) fp := by
  obtain ⟨offset, hoffset, hcode⟩ := Stateful.answer_bind.mp hcode
  obtain rfl := Except.ok.inj hcode
  obtain rfl := displacement_ok hoffset
  rw [hsize, Nat.mul_div_cancel_left _ (by decide)]
  refine Turns.copies (fun {front tail w} hfront hshort v hv => ?_) hroom
  have haddress : get v .sp + (Int32.ofInt (((4 * value.length : Nat) : Int) - 4)).toUInt32 =
      wordAddress tail.length := by
    have hoffset : ((4 * value.length : Nat) : Int) - 4 = ((4 * front.length : Nat) : Int) := by omega
    rw [← stackPointer_word front w tail, hoffset, toUInt32_ofInt, ofInt_natCast, ofNat_four_mul]
    show stackPointer v.words + _ = _
    rw [hv.words_eq]
  obtain ⟨t, hload, ht, hreg⟩ := exec_load .t6 .sp hv rfl haddress (by decide)
  obtain ⟨v', hpush, hv', -⟩ := exec_push (r := .t6) ht (by decide) hshort
  rw [hreg, if_pos rfl] at hv'
  exact ⟨v', hload.append hpush, hv'⟩

/-- The selector is compared with one case after the other. -/
theorem exec_switchCases {ctx : EmitContext} {i : Instruction} {targets : List Int} {case : Nat}
    {selector : UInt32} (hemitted : (switchCases ctx i case targets).failure = none)
    (hcase : case ≤ selector.toNat) (hlength : case + targets.length < 0x100000000)
    (hv : v.At words fp) (ht0 : get v .t0 = selector) :
    ∃ v', Exec (switchCases ctx i case targets).code v
      (switchExit ctx targets (selector.toNat - case)) v' ∧ v'.At words fp := by
  induction targets generalizing case v with
  | nil => exact ⟨v, .nil, hv⟩
  | cons target rest ih =>
    rw [List.length_cons] at hlength
    unfold switchCases at hemitted ⊢
    split at hemitted
    · cases hemitted
    · rename_i label hlabel
      obtain rfl := targetLabel_ok hlabel
      obtain ⟨v₁, hli, hv₁, hreg⟩ := exec_put (.li .t5 (Int32.ofNat case)) .t5 hv rfl rfl
      have hkeep : get v₁ .t0 = selector := (hreg .t0).trans ht0
      have hbranch := exec_branch (v := v₁) true .t0 .t5 (ctx.labelAt target.toNat)
      have hequal : (get v₁ .t0 == get v₁ .t5) = decide (selector.toNat = case) := by
        rw [hkeep, hreg, if_pos rfl, Bool.eq_iff_iff, beq_iff_eq, decide_eq_true_eq, ← UInt32.toNat_inj]
        show selector.toNat = (UInt32.ofNat case).toNat ↔ _
        rw [UInt32.toNat_ofNat_of_lt' (by rw [UInt32.size]; omega)]
      rw [hequal] at hbranch
      dsimp only
      by_cases heq : selector.toNat = case
      · rw [if_pos (decide_eq_true heq)] at hbranch
        rw [heq, Nat.sub_self]
        exact ⟨v₁, hli.append hbranch.append_goto, hv₁⟩
      · rw [if_neg (by simpa using heq)] at hbranch
        obtain ⟨v', hrest, hv'⟩ := ih hemitted (by omega) (by omega) hv₁ hkeep
        have hexit : switchExit ctx (target :: rest) (selector.toNat - case) =
            switchExit ctx rest (selector.toNat - (case + 1)) := by
          obtain ⟨k, hk⟩ : ∃ k, selector.toNat - case = k + 1 := ⟨selector.toNat - case - 1, by omega⟩
          rw [show selector.toNat - (case + 1) = k by omega, hk]
          rfl
        rw [hexit]
        exact ⟨v', hli.append (hbranch.append hrest), hv'⟩

theorem turns_switch {ctx : EmitContext} {i : Instruction} {targets : List Int} {selector : UInt32}
    (hemitted : (switchCases ctx i 0 targets).failure = none) (hlength : targets.length < 0x100000000) :
    Turns (Instr.pop .t0 ++ (switchCases ctx i 0 targets).code) (selector :: words) fp
      (switchExit ctx targets selector.toNat) words fp := by
  intro v hv
  obtain ⟨v₁, hpop, hv₁, ht0, -⟩ := exec_pop (r := .t0) hv (by decide)
  obtain ⟨v₂, hcases, hv₂⟩ := exec_switchCases hemitted (Nat.zero_le _) (by omega) hv₁ ht0
  exact ⟨v₂, hpop.append hcases, hv₂⟩

/-! ## All of them -/

/-- A slot that can be reached has the words and the offset of the slot. -/
theorem reachableSlot_eq {ctx : EmitContext} {i : Instruction} {isArg : Bool} {slot : FrameSlot}
    {reached : Nat × Int32} (hslot : ctx.slot i isArg = .ok slot)
    (h : reachableSlot ctx i isArg = .ok reached) : reached = (slot.item.words, slot.offset) := by
  obtain ⟨slot', hslot', h⟩ := Stateful.answer_bind.mp h
  obtain rfl := Except.ok.inj (hslot.symm.trans hslot')
  obtain ⟨base, hbase, h⟩ := Stateful.answer_bind.mp h
  obtain ⟨_, _, h⟩ := Stateful.answer_bind.mp h
  obtain rfl := displacement_ok hbase
  rw [← Except.ok.inj h, Int32.ofInt_toInt]

theorem movesValues : MovesValues backend where
  nop {_ _ _} hop := by
    refine .of_turns [Instr.nop] ?_ fun deep fp v hv =>
      ⟨v, .of_steps (show Steps (Group.one .nop).code v v from .plain rfl), hv⟩
    simp only [backend, emit, hop]
  load isArg {ctx i e slot _ _ value _ _} hop hemitted hslot hsize hlies hroom := by
    have hemit : backend.emit ctx i e = .ofExcept (loadSlot ctx i isArg) := by
      cases isArg <;> simp only [backend, emit, hop, ↓reduceIte, Bool.false_eq_true]
    rw [hemit] at hemitted
    obtain ⟨reached, hreached, hcode⟩ := Stateful.answer_bind.mp (Template.ofExcept_ok hemitted)
    obtain rfl := reachableSlot_eq hslot hreached
    refine .of_turns _ ?_ (turns_pushSlot hlies hroom)
    rw [hemit, ← StackItem.words_of_size hsize]
    exact (Except.ok.inj hcode).symm
  store isArg {ctx i e slot _ _ _ _ value _} hop hemitted hslot hsize hlength hlies := by
    have hemit : backend.emit ctx i e = .ofExcept (storeSlot ctx i isArg) := by
      cases isArg <;> simp only [backend, emit, hop, ↓reduceIte, Bool.false_eq_true]
    rw [hemit] at hemitted
    obtain ⟨reached, hreached, hcode⟩ := Stateful.answer_bind.mp (Template.ofExcept_ok hemitted)
    obtain rfl := reachableSlot_eq hslot hreached
    refine .of_turns _ ?_ (turns_popSlot hlies hlength)
    rw [hemit, ← StackItem.words_of_size hsize]
    exact (Except.ok.inj hcode).symm
  constant {ctx i e value words fp} hop hvalue hroom := by
    obtain ⟨code, hcode, hturns⟩ := turns_loadConst hvalue hroom
    refine .of_turns code ?_ hturns
    simp only [backend, emit, hop, hcode]
    rfl
  null {ctx i e _ _} hop hroom := by
    refine .of_turns (Instr.pushImm 0) ?_ (turns_pushImm 0 hroom)
    simp only [backend, emit, hop]
  dup {ctx i e _ _ _} hop hemitted hsize hroom := by
    have hemit : backend.emit ctx i e = .ofExcept (Mips.dup i e) := by
      simp only [backend, emit, hop]
    rw [hemit] at hemitted
    refine .of_turns _ (by rw [hemit]) (turns_dup (Template.ofExcept_ok hemitted) hsize hroom)
  pop {ctx i e value} hop hsize hold := by
    refine .of_turns (Instr.drop (4 * value.length)) ?_ fun deep fp v hv => ?_
    · simp only [backend, emit, hop, Mips.pop, hold, hsize]
      rfl
    · obtain ⟨v', hdrop, hv', -⟩ := exec_drop value hv
      exact ⟨v', hdrop, hv'⟩
  convert {ctx i e target a _ _ _} hop hpointer hconvert hsize hroom := by
    refine .of_turns (convertTo 4 (4 * a.length) target) ?_ (turns_convert hconvert hroom)
    simp only [backend, emit, hop, Mips.convert, hpointer, hsize]
    rfl
  jump {ctx i e target l} hop htarget hlabel := by
    refine .of_turns (Instr.jump l) ?_ fun deep fp v hv => ⟨v, .of_jumps .jump, hv⟩
    simp only [backend, emit, hop, branch, htarget, bind, Except.bind, hlabel]
    rfl
  switch {ctx i e targets selector} hop htargets hemitted := by
    have hemit : backend.emit ctx i e = { switchCases ctx i 0 targets with
        code := Instr.pop .t0 ++ (switchCases ctx i 0 targets).code } := by
      simp only [backend, emit, hop, switch, htargets]
    rw [hemit] at hemitted
    refine .of_turns _ (hemit.trans ?_) fun deep fp =>
      turns_switch hemitted (Instruction.length_switchTargets htargets)
    exact congrArg (Template.mk _) hemitted
  leave {ctx i e target l values} hop htarget hlabel hsize := by
    refine .of_turns (Instr.drop (4 * values.length) ++ Instr.jump l) ?_ fun deep fp v hv => ?_
    · simp only [backend, emit, hop, leave, htarget, bind, Except.bind, hlabel, hsize]
      rfl
    · obtain ⟨v', hdrop, hv', -⟩ := exec_drop values hv
      exact ⟨v', hdrop.append (.of_jumps .jump), hv'⟩
  target {ctx i e} hop hemitted := by
    rcases hop with ⟨condition, hop⟩ | hop
    · simp only [backend, emit, hop] at hemitted
      exact target_of_emitted hemitted
    · simp only [backend, emit, hop] at hemitted
      exact target_of_emitted hemitted

end Stencil.Mips
