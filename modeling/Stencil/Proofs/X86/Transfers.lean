import Stencil.Proofs.Execution.Moves
import Stencil.Proofs.X86.Words
import Stencil.X86.Backend

/-!
# Templates that move values on x86

Loads, stores, constants, conversions and jumps out of a template. `movesValues` collects them.
-/

namespace Stencil.X86

open Meaning Meaning.Value

variable {words : List UInt32} {fp : UInt32} {v : View Registers}

/-! ## Conversions -/

theorem signExtend_part (bits : Nat) (a : UInt32) :
    Word.signExtend bits (UInt32.ofNat (a.toNat % Word.modulus bits)) = narrowed true bits a := by
  have hmodulus : Word.modulus bits = 2 ^ bits := by rw [Word.modulus, Nat.one_shiftLeft]
  have hpart : (UInt32.ofNat (a.toNat % 2 ^ bits)).toNat = a.toNat % 2 ^ bits := by
    have ha := a.toNat_lt
    have hle := Nat.mod_le a.toNat (2 ^ bits)
    exact UInt32.toNat_ofNat_of_lt' (by simp only [UInt32.size]; omega)
  rw [Word.signExtend, Word.signed, hmodulus, hpart, toUInt32_ofInt, narrowed, if_pos rfl, Int.natCast_mod,
    Int.emod_bmod]

theorem zeroExtend_part (bits : Nat) (a : UInt32) :
    UInt32.ofNat (a.toNat % Word.modulus bits) = narrowed false bits a := by
  have hmodulus : Word.modulus bits = 2 ^ bits := by rw [Word.modulus, Nat.one_shiftLeft]
  rw [hmodulus, narrowed, if_neg (by decide), ← ofInt_natCast, Int.natCast_mod, natCast_two_pow]

theorem exec_narrow (signed : Bool) {size : Nat} (hsize : size = 1 ∨ size = 2 ∨ size = 4)
    (hv : v.At words fp) :
    ∃ v', Exec (narrow signed size) v .next v' ∧ v'.At words fp ∧
      get v' .eax = narrowed signed (8 * size) (get v .eax) := by
  rcases hsize with rfl | rfl | rfl
  · cases signed with
    | false =>
      obtain ⟨v', hexec, hv', hreg⟩ := exec_put (.movzx .eax (.part .eax .byte)) .eax hv rfl rfl
      exact ⟨v', hexec, hv', by rw [hreg, if_pos rfl]; exact zeroExtend_part 8 _⟩
    | true =>
      obtain ⟨v', hexec, hv', hreg⟩ := exec_put (.movsx .eax (.part .eax .byte)) .eax hv rfl rfl
      exact ⟨v', hexec, hv', by rw [hreg, if_pos rfl]; exact signExtend_part 8 _⟩
  · cases signed with
    | false =>
      obtain ⟨v', hexec, hv', hreg⟩ := exec_put (.movzx .eax (.part .eax .word)) .eax hv rfl rfl
      exact ⟨v', hexec, hv', by rw [hreg, if_pos rfl]; exact zeroExtend_part 16 _⟩
    | true =>
      obtain ⟨v', hexec, hv', hreg⟩ := exec_put (.movsx .eax (.part .eax .word)) .eax hv rfl rfl
      exact ⟨v', hexec, hv', by rw [hreg, if_pos rfl]; exact signExtend_part 16 _⟩
  · exact ⟨v, .nil, hv, (narrowed_word signed _).symm⟩

theorem signWord (a : UInt32) : (if a < 0x80000000 then 0 else 0xFFFFFFFF) = outWord .shr a := by
  have ha := a.toNat_lt
  have hnat : a < 0x80000000 ↔ a.toNat < 0x80000000 := UInt32.lt_iff_toNat_lt
  have hsign : outWord .shr a = UInt32.ofInt (toInt [a] / 2 ^ 31) := by
    rw [outWord, if_pos rfl, shiftedWord, if_neg (by decide), shiftee, if_neg (by decide)]
  rw [hsign, toInt_word, if_congr hnat rfl rfl]
  split
  · rw [Int.ediv_eq_zero_of_lt (by omega) (by norm_num; omega)]
    rfl
  · rw [Int.ediv_eq_neg_one_of_neg_of_le (by omega) (by norm_num; omega)]
    rfl

theorem turns_widen {target : ConvTarget} (hsize : target.valueSize 4 = 8) (a : UInt32)
    (hroom : 2 + words.length ≤ stackCapacity) :
    Turns (convertTo 4 4 target) (a :: words) fp .next
      (a :: (if target.isSigned then outWord .shr a else 0) :: words) fp := by
  intro v hv
  obtain ⟨v₁, hpop, hv₁, hlow, -⟩ := exec_popReg (r := .eax) hv (by decide)
  have heax : get v₁ .eax = a := hlow
  have hcode : convertTo 4 4 target =
      if target.isSigned then [Instr.popReg .eax, .cdq, .pushReg .edx, .pushReg .eax]
      else [Instr.popReg .eax, .pushImm 0, .pushReg .eax] := by
    cases target <;> first | rfl | cases hsize
  rw [hcode]
  split
  · obtain ⟨v₂, hcdq, hv₂, hreg⟩ := @exec_put _ _ v₁ .cdq .edx v₁.regs.flags _ hv₁ rfl rfl
    obtain ⟨v₃, hhigh, hv₃, hregs₃⟩ := exec_pushReg (r := .edx) hv₂ (by omega)
    rw [hreg, if_pos rfl, heax, signWord] at hv₃
    obtain ⟨v₄, hpush, hv₄, -⟩ := exec_pushReg (r := .eax) hv₃ (by rw [List.length_cons]; omega)
    have heax₃ : get v₃ .eax = a := by
      show v₃.regs.gpr .eax = a
      rw [hregs₃]
      exact (hreg .eax).trans heax
    rw [heax₃] at hv₄
    exact ⟨v₄, hpop.append (hcdq.append (hhigh.append hpush)), hv₄⟩
  · obtain ⟨v₂, hpush, hv₂, hregs₂⟩ := hv₁.push? (by omega) (0 : UInt32)
    have hhigh : Exec [Instr.pushImm 0] v₁ .next v₂ := .of_steps (Steps.plain hpush)
    obtain ⟨v₃, hpush', hv₃, -⟩ := exec_pushReg (r := .eax) hv₂ (by rw [List.length_cons]; omega)
    have heax₂ : get v₂ .eax = a := by
      show v₂.regs.gpr .eax = a
      rw [hregs₂]
      exact heax
    rw [heax₂] at hv₃
    exact ⟨v₃, hpop.append (hhigh.append hpush'), hv₃⟩

def cutDown (signed : Bool) (words size : Nat) : List Instr :=
  [Instr.popReg .eax] ++ (if words = 2 then Instr.drop 4 else []) ++ narrow signed size ++
    [Instr.pushReg .eax]

theorem turns_cutDown (signed : Bool) {size : Nat} (hsize : size = 1 ∨ size = 2 ∨ size = 4) {a : UInt32}
    {rest : Value} (ha : Value.isInteger (a :: rest) = true) :
    Turns (cutDown signed (a :: rest).length size) (a :: (rest ++ words)) fp .next
      (narrowed signed (8 * size) a :: words) fp := by
  intro v hv
  have hfits := hv.fits
  rw [List.length_cons, List.length_append] at hfits
  obtain ⟨v₁, hpop, hv₁, hlow, -⟩ := exec_popReg (r := .eax) hv (by decide)
  obtain ⟨v₂, hdrop, hv₂, heax⟩ : ∃ v₂,
      Exec (if (a :: rest).length = 2 then Instr.drop 4 else []) v₁ .next v₂ ∧ v₂.At words fp ∧
        get v₂ .eax = a := by
    rcases isInteger_cases ha with ⟨_, hword⟩ | ⟨_, b, hpair⟩
    · obtain ⟨rfl, rfl⟩ := List.cons.inj hword
      exact ⟨v₁, .nil, hv₁, hlow⟩
    · obtain ⟨rfl, rfl⟩ := List.cons.inj hpair
      obtain ⟨v₂, hdrop, hv₂, hgpr⟩ := exec_drop [b] hv₁
      exact ⟨v₂, hdrop, hv₂, (congrFun hgpr .eax).trans hlow⟩
  obtain ⟨v₃, hnarrow, hv₃, hreg⟩ := exec_narrow signed hsize hv₂
  obtain ⟨v₄, hpush, hv₄, -⟩ := exec_pushReg (r := .eax) hv₃ (by omega)
  rw [hreg, heax] at hv₄
  exact ⟨v₄, ((hpop.append hdrop).append hnarrow).append hpush, hv₄⟩

theorem turns_convert {target : ConvTarget} {a c : Value} (h : Meaning.convert target a = some c)
    (hroom : c.length + words.length ≤ stackCapacity) :
    Turns (convertTo 4 (4 * a.length) target) (a ++ words) fp .next (c ++ words) fp := by
  have ha := isInteger_of_convert h
  rcases isInteger_cases ha with ⟨w, rfl⟩ | ⟨w, w', rfl⟩
  · cases target with
    | i4 | u4 | i | u =>
      rw [convert_word rfl] at h
      obtain rfl := Option.some.inj h
      exact Turns.nil
    | i8 | u8 =>
      rw [convert_widen rfl] at h
      obtain rfl := Option.some.inj h
      exact turns_widen rfl w hroom
    | i1 | i2 | u1 | u2 =>
      rw [convert_narrow (by decide) ha] at h
      obtain rfl := Option.some.inj h
      exact turns_cutDown _ (by decide) ha
  · cases target with
    | i8 | u8 =>
      rw [convert_same rfl] at h
      obtain rfl := Option.some.inj h
      exact Turns.nil
    | i4 | u4 | i | u | i1 | i2 | u1 | u2 =>
      rw [convert_narrow (by decide) ha] at h
      obtain rfl := Option.some.inj h
      exact turns_cutDown _ (by decide) ha

/-! ## Constants, copies and switches -/

theorem turns_loadConst {i : Instruction} {value : Value} (hvalue : constant? i = some value)
    (hroom : value.length + words.length ≤ stackCapacity) :
    ∃ code, loadConst i = .ok code ∧ Turns code words fp .next (value ++ words) fp := by
  unfold constant? at hvalue
  unfold loadConst
  split at hvalue
  · rename_i hlong
    obtain ⟨n, hn, rfl⟩ := Option.map_eq_some_iff.mp hvalue
    rw [ofInt_long] at hroom ⊢
    have hroom' : 2 + words.length ≤ stackCapacity := hroom
    rw [if_pos hlong, toOption_eq_some.mp hn]
    refine ⟨_, rfl, (turns_pushImm _ (by omega)).append (turns_pushImm _ ?_)⟩
    rw [List.length_cons]
    omega
  · rename_i hword
    obtain ⟨n, hn, rfl⟩ := Option.map_eq_some_iff.mp hvalue
    have hroom' : 1 + words.length ≤ stackCapacity := hroom
    rw [if_neg hword, toOption_eq_some.mp hn]
    exact ⟨_, rfl, turns_pushImm n (by omega)⟩

theorem turns_dup {e : Effect} {value deep : List UInt32} (hsize : e.result.size = 4 * value.length)
    (hroom : value.length + (value ++ deep).length ≤ stackCapacity) :
    Turns (dup e) (value ++ deep) fp .next (value ++ (value ++ deep)) fp := by
  have hread : ∀ {front tail : List UInt32} {w : UInt32}, front.length + 1 = value.length →
      (front ++ w :: tail).length < stackCapacity →
      Turns [Instr.pushMem (.based .esp (Int32.ofNat (4 * value.length) - 4))] (front ++ w :: tail) fp .next
        (w :: (front ++ w :: tail)) fp := by
    intro front tail w hfront hshort v hv
    have haddress : (Int32.ofNat (4 * value.length) - 4).toUInt32 + get v .esp =
        wordAddress tail.length := by
      rw [← stackPointer_word front w tail, ← hfront]
      show _ + stackPointer v.words = _
      rw [hv.words_eq, UInt32.add_comm, Int32.toUInt32_sub]
      show _ + (UInt32.ofNat (4 * (front.length + 1)) - UInt32.ofNat 4) = _
      rw [ofNat_four_mul, UInt32.ofNat_add]
      grind
    obtain ⟨v', hpush, hv', -⟩ := hv.push? hshort w
    exact ⟨v', .of_steps (Steps.pushMem hv.words_eq haddress hpush), hv'⟩
  have hcode : dup e =
      (List.replicate value.length [Instr.pushMem (.based .esp (Int32.ofNat (4 * value.length) - 4))]).flatten := by
    rw [List.flatten_replicate_singleton, dup, hsize, Nat.mul_div_cancel_left _ (by decide)]
  rw [hcode]
  exact Turns.copies hread hroom

/-- The selector is compared with one case after the other. -/
theorem exec_switchCases {ctx : EmitContext} {i : Instruction} {targets : List Int} {case : Nat}
    {selector : UInt32} (hemitted : (switchCases ctx i case targets).failure = none)
    (hcase : case ≤ selector.toNat) (hlength : case + targets.length < 0x100000000)
    (hv : v.At words fp) (heax : get v .eax = selector) :
    ∃ v', Exec (switchCases ctx i case targets).code v
      (switchExit ctx targets (selector.toNat - case)) v' ∧ v'.At words fp := by
  induction targets generalizing case v with
  | nil => exact ⟨v, .nil, hv⟩
  | cons target rest ih =>
    rw [List.length_cons] at hlength
    unfold switchCases at hemitted ⊢
    split at hemitted
    · cases hemitted
    · rename_i label hlabel
      obtain rfl := targetLabel_ok hlabel
      obtain ⟨v₁, hcmp, hv₁, hregs, hholds⟩ :=
        exec_cmp .eax hv heax (rfl : value? v (.imm (Int32.ofNat case)) = some (UInt32.ofNat case))
      have hjcc := exec_jcc (v := v₁) .e (ctx.labelAt target.toNat)
      have hequal : v₁.regs.flags.holds .e = decide (selector.toNat = case) := by
        refine (hholds ⟨.eq, false⟩).trans ?_
        show decide (toNat [selector] = toNat [UInt32.ofNat case]) = _
        rw [toNat_word, toNat_word, UInt32.toNat_ofNat_of_lt' (by rw [UInt32.size]; omega)]
      rw [hequal] at hjcc
      dsimp only
      by_cases heq : selector.toNat = case
      · rw [if_pos (decide_eq_true heq)] at hjcc
        rw [heq, Nat.sub_self]
        exact ⟨v₁, hcmp.append hjcc.append_goto, hv₁⟩
      · rw [if_neg (by simpa using heq)] at hjcc
        obtain ⟨v', hrest, hv'⟩ := ih hemitted (by omega) (by omega) hv₁ ((hregs .eax).trans heax)
        have hexit : switchExit ctx (target :: rest) (selector.toNat - case) =
            switchExit ctx rest (selector.toNat - (case + 1)) := by
          obtain ⟨k, hk⟩ : ∃ k, selector.toNat - case = k + 1 := ⟨selector.toNat - case - 1, by omega⟩
          rw [show selector.toNat - (case + 1) = k by omega, hk]
          rfl
        rw [hexit]
        exact ⟨v', hcmp.append (hjcc.append hrest), hv'⟩

theorem turns_switch {ctx : EmitContext} {i : Instruction} {targets : List Int} {selector : UInt32}
    (hemitted : (switchCases ctx i 0 targets).failure = none) (hlength : targets.length < 0x100000000) :
    Turns (.popReg .eax :: (switchCases ctx i 0 targets).code) (selector :: words) fp
      (switchExit ctx targets selector.toNat) words fp := by
  intro v hv
  obtain ⟨v₁, hpop, hv₁, heax, -⟩ := exec_popReg (r := .eax) hv (by decide)
  obtain ⟨v₂, hcases, hv₂⟩ := exec_switchCases hemitted (Nat.zero_le _) (by omega) hv₁ heax
  exact ⟨v₂, hpop.append hcases, hv₂⟩

/-! ## All of them -/

theorem movesValues : MovesValues backend where
  nop {_ _ _} hop := by
    refine .of_turns [Instr.nop] ?_ fun deep fp v hv => ⟨v, .of_steps (Steps.plain rfl), hv⟩
    simp only [backend, emit, hop]
  load isArg {ctx i e slot _ _ value _ _} hop _ hslot hsize hlies hroom := by
    have hcode : (backend.emit ctx i e).code =
        (List.range value.length).reverse.map fun k =>
          Instr.pushMem ((Mem.based .ebp slot.offset).word k) := by
      have hload : loadSlot ctx i isArg = .ok ((List.range value.length).reverse.map fun k =>
          Instr.pushMem ((Mem.based .ebp slot.offset).word k)) := by
        rw [loadSlot, hslot, ← StackItem.words_of_size hsize]
        rfl
      cases isArg <;> simp only [backend, emit, hop, ↓reduceIte, hload] <;> rfl
    exact .of_turns _ hcode (turns_pushSlot hlies hroom)
  store isArg {ctx i e slot _ _ _ _ value _} hop _ hslot hsize hlength hlies := by
    have hcode : (backend.emit ctx i e).code =
        (List.range value.length).map fun k => Instr.popMem ((Mem.based .ebp slot.offset).word k) := by
      have hstore : storeSlot ctx i isArg = .ok ((List.range value.length).map fun k =>
          Instr.popMem ((Mem.based .ebp slot.offset).word k)) := by
        rw [storeSlot, hslot, ← StackItem.words_of_size hsize]
        rfl
      cases isArg <;> simp only [backend, emit, hop, ↓reduceIte, hstore] <;> rfl
    exact .of_turns _ hcode (turns_popSlot hlies hlength)
  constant {ctx i e value words fp} hop hvalue hroom := by
    obtain ⟨code, hcode, hturns⟩ := turns_loadConst hvalue hroom
    refine .of_turns code ?_ hturns
    simp only [backend, emit, hop, hcode]
    rfl
  null {ctx i e _ _} hop hroom := by
    refine .of_turns [Instr.pushImm 0] ?_ (turns_pushImm 0 hroom)
    simp only [backend, emit, hop]
  dup {ctx i e _ _ _} hop _ hsize hroom := by
    refine .of_turns (X86.dup e) ?_ (turns_dup hsize hroom)
    simp only [backend, emit, hop]
  pop {ctx i e value} hop hsize hold := by
    refine .of_turns (Instr.drop (4 * value.length)) ?_ fun deep fp v hv => ?_
    · simp only [backend, emit, hop, X86.pop, hold, hsize]
      rfl
    · obtain ⟨v', hdrop, hv', -⟩ := exec_drop value hv
      exact ⟨v', hdrop, hv'⟩
  convert {ctx i e target a _ _ _} hop hpointer hconvert hsize hroom := by
    refine .of_turns (convertTo 4 (4 * a.length) target) ?_ (turns_convert hconvert hroom)
    simp only [backend, emit, hop, X86.convert, hpointer, hsize]
    rfl
  jump {ctx i e target l} hop htarget hlabel := by
    refine .of_turns [Instr.jump l] ?_ fun deep fp v hv => ⟨v, .of_jumps .jump, hv⟩
    simp only [backend, emit, hop, branch, htarget, bind, Except.bind, hlabel]
    rfl
  switch {ctx i e targets selector} hop htargets hemitted := by
    have hemit : backend.emit ctx i e = { switchCases ctx i 0 targets with
        code := .popReg .eax :: (switchCases ctx i 0 targets).code } := by
      simp only [backend, emit, hop, switch, htargets]
    rw [hemit] at hemitted
    refine .of_turns _ (hemit.trans ?_) fun deep fp =>
      turns_switch hemitted (Instruction.length_switchTargets htargets)
    exact congrArg (Template.mk _) hemitted
  leave {ctx i e target l values} hop htarget hlabel hsize := by
    refine .of_turns (Instr.drop (4 * values.length) ++ [Instr.jump l]) ?_ fun deep fp v hv => ?_
    · simp only [backend, emit, hop, leave, htarget, bind, Except.bind, hlabel, hsize]
      rfl
    · obtain ⟨v', hdrop, hv', -⟩ := exec_drop values hv
      exact ⟨v', hdrop.append (.of_jumps .jump), hv'⟩
  target {ctx i e} hop hemitted := by
    rcases hop with ⟨condition, hop⟩ | hop
    · simp only [backend, emit, hop] at hemitted
      exact target_of_emitted hemitted
    · simp only [backend, emit, hop] at hemitted
      exact target_of_emitted hemitted

end Stencil.X86
