import Stencil.Proofs.X86.Words

/-!
# Integer templates on x86

Each template of an integer operation takes its operands from the stack and leaves what the operation
means.
-/

namespace Stencil.X86

open Meaning Meaning.Value

variable {words : List UInt32} {fp : UInt32}

/-! ## Arithmetic -/

section Word

variable (a b : UInt32)

theorem turns_aluWord {op : AluOp} {c : UInt32} (hop : op ≠ .cmp)
    (h : ∀ carry, (alu op 32 a b carry).1 = c) :
    Turns (popOperands false ++ [.aluReg op .eax .ebx] ++ pushResult false) ([b, a] ++ words) fp .next
      ([c] ++ words) fp := by
  refine turns_of_run 1 rfl fun free regs => ?_
  cases op <;> first
    | exact absurd rfl hop
    | exact ⟨_, rfl, congrArg (· :: words) (h regs.flags.carry), rfl, rfl⟩

theorem turns_binaryWord {op : BinaryOp} {c : Value} (h : Meaning.binary op [a] [b] = some c) :
    Turns (popOperands false ++ binaryWord op ++ pushResult false) ([b, a] ++ words) fp .next
      (c ++ words) fp := by
  cases op with
  | add =>
    obtain rfl := Option.some.inj ((binary_add_word a b).symm.trans h)
    exact turns_aluWord a b (by decide) (alu_add a b)
  | sub =>
    obtain rfl := Option.some.inj ((binary_sub_word a b).symm.trans h)
    exact turns_aluWord a b (by decide) (alu_sub a b)
  | mul =>
    obtain rfl := Option.some.inj ((binary_mul_word a b).symm.trans h)
    refine turns_of_run 1 rfl fun free regs => ⟨_, rfl, ?_, rfl, rfl⟩
    show productLow a b :: words = _
    rw [productLow_eq]
    rfl
  | and =>
    obtain rfl := Option.some.inj h
    exact turns_aluWord a b (by decide) (alu_and a b)
  | or =>
    obtain rfl := Option.some.inj h
    exact turns_aluWord a b (by decide) (alu_or a b)
  | xor =>
    obtain rfl := Option.some.inj h
    exact turns_aluWord a b (by decide) (alu_xor a b)
  | div | divUn | rem | remUn => cases h

end Word

section Wide

variable (a₀ a₁ b₀ b₁ : UInt32)

theorem turns_bitwiseWide {op : AluOp} {c : UInt32 → UInt32 → UInt32}
    (hop : op = .and ∨ op = .or ∨ op = .xor) (h : ∀ a b carry, (alu op 32 a b carry).1 = c a b) :
    Turns (popOperands true ++ [.aluReg op .eax .ebx, .aluReg op .edx .ecx] ++ pushResult true)
      ([b₀, b₁, a₀, a₁] ++ words) fp .next ([c a₀ b₀, c a₁ b₁] ++ words) fp := by
  refine turns_of_run 2 rfl fun free regs => ?_
  have hwords : (alu op 32 a₀ b₀ false).1 :: (alu op 32 a₁ b₁ false).1 :: words =
      [c a₀ b₀, c a₁ b₁] ++ words := by
    rw [h, h]
    rfl
  rcases hop with rfl | rfl | rfl <;> exact ⟨_, rfl, hwords, rfl, rfl⟩

/-- Three products of words, of which the cross products reach the high word only. -/
theorem turns_multiplyWide :
    Turns (popOperands true ++ multiplyWide ++ pushResult true) ([b₀, b₁, a₀, a₁] ++ words) fp .next
      ([a₀ * b₀, productHigh a₀ b₀ + a₁ * b₀ + a₀ * b₁] ++ words) fp := by
  refine turns_of_run 2 rfl fun free regs => ⟨_, rfl, ?_, rfl, rfl⟩
  show UInt32.ofNat (a₀.toNat * b₀.toNat) ::
    (alu .add 32 (productHigh a₀ b₀)
      (alu .add 32 (productLow a₁ b₀) (productLow b₁ a₀) false).1 false).1 :: words = _
  rw [alu_add, alu_add, productLow_eq, productLow_eq, UInt32.ofNat_mul, UInt32.ofNat_toNat,
    UInt32.ofNat_toNat, UInt32.mul_comm b₁, ← UInt32.add_assoc]
  rfl

theorem turns_binaryWide {op : BinaryOp} {code : List Instr} {c : Value}
    (h : Meaning.binary op [a₀, a₁] [b₀, b₁] = some c) (hcode : binaryWide? op = some code) :
    Turns (popOperands true ++ code ++ pushResult true) ([b₀, b₁, a₀, a₁] ++ words) fp .next
      (c ++ words) fp := by
  cases op with
  | add =>
    obtain rfl := Option.some.inj ((binary_add_pair a₀ a₁ b₀ b₁).symm.trans h)
    obtain rfl := Option.some.inj hcode
    refine turns_of_run 2 rfl fun free regs => ⟨_, rfl, ?_, rfl, rfl⟩
    show (alu .add 32 a₀ b₀ regs.flags.carry).1 ::
      (alu .adc 32 a₁ b₁ (alu .add 32 a₀ b₀ regs.flags.carry).2.carry).1 :: words = _
    rw [alu_add, alu_adc, ofNat_carry_add]
    rfl
  | sub =>
    obtain rfl := Option.some.inj ((binary_sub_pair a₀ a₁ b₀ b₁).symm.trans h)
    obtain rfl := Option.some.inj hcode
    refine turns_of_run 2 rfl fun free regs => ⟨_, rfl, ?_, rfl, rfl⟩
    show (alu .sub 32 a₀ b₀ regs.flags.carry).1 ::
      (alu .sbb 32 a₁ b₁ (alu .sub 32 a₀ b₀ regs.flags.carry).2.carry).1 :: words = _
    rw [alu_sub, alu_sbb, ofNat_carry_sub]
    rfl
  | mul =>
    obtain rfl := Option.some.inj ((binary_mul_pair a₀ a₁ b₀ b₁).symm.trans h)
    obtain rfl := Option.some.inj hcode
    exact turns_multiplyWide a₀ a₁ b₀ b₁
  | and =>
    obtain rfl := Option.some.inj h
    obtain rfl := Option.some.inj hcode
    exact turns_bitwiseWide a₀ a₁ b₀ b₁ (by decide) alu_and
  | or =>
    obtain rfl := Option.some.inj h
    obtain rfl := Option.some.inj hcode
    exact turns_bitwiseWide a₀ a₁ b₀ b₁ (by decide) alu_or
  | xor =>
    obtain rfl := Option.some.inj h
    obtain rfl := Option.some.inj hcode
    exact turns_bitwiseWide a₀ a₁ b₀ b₁ (by decide) alu_xor
  | div | divUn | rem | remUn => cases h

end Wide

theorem turns_binary (i : Instruction) {e : Effect} {op : BinaryOp} {a b c : Value}
    (h : Meaning.binary op a b = some c) (hsize : (e.operand 0).size = 4 * b.length) :
    ∃ code, binary i e op = { code } ∧ ∀ words fp,
      Turns code (b ++ (a ++ words)) fp .next (c ++ words) fp := by
  unfold binary isWide
  rcases binary_shapes h with ⟨x, y, rfl, rfl⟩ | ⟨x₀, x₁, y₀, y₁, rfl, rfl⟩
  · rw [hsize]
    exact ⟨_, rfl, fun words fp => turns_binaryWord x y h⟩
  · obtain ⟨code, hcode⟩ : ∃ code, binaryWide? op = some code := by
      cases op <;> first | exact ⟨_, rfl⟩ | cases h
    rw [hsize, hcode]
    exact ⟨_, rfl, fun words fp => turns_binaryWide x₀ x₁ y₀ y₁ h hcode⟩

/-- Arithmetic on one integer: a negative borrows from the high word unless the low one is zero. -/
theorem turns_unary {e : Effect} {op : UnaryOp} {a c : Value} (h : Meaning.unary op a = some c)
    (hsize : (e.operand 0).size = 4 * a.length) :
    Turns (unary e op) (a ++ words) fp .next (c ++ words) fp := by
  unfold unary isWide
  rcases unary_shapes h with ⟨x, rfl⟩ | ⟨x₀, x₁, rfl⟩
  · rw [hsize]
    cases op with
    | neg =>
      obtain rfl := Option.some.inj ((unary_neg_word x).symm.trans h)
      refine turns_of_run 0 rfl fun free regs => ⟨_, rfl, ?_, rfl, rfl⟩
      show (alu .sub 32 0 x false).1 :: words = _
      rw [alu_sub]
      rfl
    | not =>
      obtain rfl := Option.some.inj h
      exact turns_of_run 0 rfl fun free regs => ⟨_, rfl, rfl, rfl, rfl⟩
  · rw [hsize]
    cases op with
    | neg =>
      obtain rfl := Option.some.inj ((unary_neg_pair x₀ x₁).symm.trans h)
      refine turns_of_run 0 rfl fun free regs => ⟨_, rfl, ?_, rfl, rfl⟩
      show (alu .sub 32 0 x₀ false).1 ::
        (alu .sub 32 0 (alu .adc 32 x₁ 0 (alu .sub 32 0 x₀ false).2.carry).1 false).1 :: words = _
      rw [alu_sub, alu_sub, alu_adc, ofNat_carry_sub, UInt32.add_zero, sub_add_eq_sub_sub]
      rfl
    | not =>
      obtain rfl := Option.some.inj h
      exact turns_of_run 0 rfl fun free regs => ⟨_, rfl, rfl, rfl, rfl⟩

/-! ## Shifts -/

section Shift

variable {v : View Registers} (op : ShiftOp)

/-- The double word that the registers of a result hold. -/
def wideResult (v : View Registers) : Value := [get v .eax, get v .edx]

theorem exec_shiftAcross (hv : v.At words fp) (hcount : (get v .ecx).toNat < 32) :
    ∃ v', Exec (shiftAcross op) v .next v' ∧ v'.At words fp ∧
      wideResult v' = acrossPair op (get v .eax) (get v .edx) (get v .ecx).toNat := by
  have hcl : (get v .ecx).toNat % 32 = (get v .ecx).toNat := Nat.mod_eq_of_lt hcount
  cases op with
  | shl =>
    obtain ⟨v₁, h₁, hv₁, hreg₁⟩ := exec_put (.shld (.reg .edx) .eax .cl) .edx hv rfl rfl
    obtain ⟨v₂, h₂, hv₂, hreg₂⟩ := exec_put (.shiftCl .shl .eax) .eax hv₁ rfl rfl
    refine ⟨v₂, h₁.append h₂, hv₂, ?_⟩
    simp [wideResult, acrossPair, hreg₂, hreg₁, count, hcl, shiftedDouble_up _ _ hcount, shifted_shl]
  | shr =>
    obtain ⟨v₁, h₁, hv₁, hreg₁⟩ := exec_put (.shrd (.reg .eax) .edx .cl) .eax hv rfl rfl
    obtain ⟨v₂, h₂, hv₂, hreg₂⟩ := exec_put (.shiftCl .sar .edx) .edx hv₁ rfl rfl
    refine ⟨v₂, h₁.append h₂, hv₂, ?_⟩
    simp [wideResult, acrossPair, hreg₂, hreg₁, count, hcl, shiftedDouble_down _ _ hcount, shifted_sar]
  | shrUn =>
    obtain ⟨v₁, h₁, hv₁, hreg₁⟩ := exec_put (.shrd (.reg .eax) .edx .cl) .eax hv rfl rfl
    obtain ⟨v₂, h₂, hv₂, hreg₂⟩ := exec_put (.shiftCl .shr .edx) .edx hv₁ rfl rfl
    refine ⟨v₂, h₁.append h₂, hv₂, ?_⟩
    simp [wideResult, acrossPair, hreg₂, hreg₁, count, hcl, shiftedDouble_down _ _ hcount, shifted_shr]

theorem exec_shiftOver (hv : v.At words fp) (hle : 32 ≤ (get v .ecx).toNat)
    (hlt : (get v .ecx).toNat < 64) :
    ∃ t v', Exec [Instr.aluImm .sub .ecx 32] v .next t ∧ Exec (shiftOver op) t .next v' ∧
      v'.At words fp ∧ wideResult v' =
        overPair op (get v .eax) (get v .edx) ((get v .ecx).toNat - 32) := by
  obtain ⟨t, ht, hvt, hreg⟩ := exec_put (.aluImm .sub .ecx 32) .ecx hv rfl rfl
  have hcl : (get t .ecx).toNat % 32 = (get v .ecx).toNat - 32 := by
    rw [hreg, if_pos rfl, alu_sub, UInt32.toNat_sub]
    show (2 ^ 32 - 32 + (get v .ecx).toNat) % 2 ^ 32 % 32 = _
    omega
  rw [show get v .eax = get t .eax from (hreg .eax).symm, show get v .edx = get t .edx from (hreg .edx).symm,
    ← hcl]
  cases op with
  | shl =>
    obtain ⟨v₁, h₁, hv₁, hreg₁⟩ := exec_put (.movReg .edx .eax) .edx hvt rfl rfl
    obtain ⟨v₂, h₂, hv₂, hreg₂⟩ := exec_put (.shiftCl .shl .edx) .edx hv₁ rfl rfl
    obtain ⟨v₃, h₃, hv₃, hreg₃⟩ := exec_put (.aluReg .xor .eax .eax) .eax hv₂ rfl rfl
    refine ⟨t, v₃, ht, (h₁.append h₂).append h₃, hv₃, ?_⟩
    simp [wideResult, overPair, hreg₃, hreg₂, hreg₁, count, shifted_shl, alu_xor]
  | shr =>
    obtain ⟨v₁, h₁, hv₁, hreg₁⟩ := exec_put (.movReg .eax .edx) .eax hvt rfl rfl
    obtain ⟨v₂, h₂, hv₂, hreg₂⟩ := exec_put (.shiftCl .sar .eax) .eax hv₁ rfl rfl
    obtain ⟨v₃, h₃, hv₃, hreg₃⟩ := exec_put (.shiftImm .sar .edx 31) .edx hv₂ rfl rfl
    refine ⟨t, v₃, ht, (h₁.append h₂).append h₃, hv₃, ?_⟩
    simp [wideResult, overPair, outWord, hreg₃, hreg₂, hreg₁, count, shifted_sar]
  | shrUn =>
    obtain ⟨v₁, h₁, hv₁, hreg₁⟩ := exec_put (.movReg .eax .edx) .eax hvt rfl rfl
    obtain ⟨v₂, h₂, hv₂, hreg₂⟩ := exec_put (.shiftCl .shr .eax) .eax hv₁ rfl rfl
    obtain ⟨v₃, h₃, hv₃, hreg₃⟩ := exec_put (.aluReg .xor .edx .edx) .edx hv₂ rfl rfl
    refine ⟨t, v₃, ht, (h₁.append h₂).append h₃, hv₃, ?_⟩
    simp [wideResult, overPair, outWord, hreg₃, hreg₂, hreg₁, count, shifted_shr, alu_xor]

theorem exec_shiftOut (hv : v.At words fp) :
    ∃ v', Exec (shiftOut op) v .next v' ∧ v'.At words fp ∧
      wideResult v' = outPair op (get v .edx) := by
  cases op with
  | shr =>
    obtain ⟨v₁, h₁, hv₁, hreg₁⟩ := exec_put (.shiftImm .sar .edx 31) .edx hv rfl rfl
    obtain ⟨v₂, h₂, hv₂, hreg₂⟩ := exec_put (.movReg .eax .edx) .eax hv₁ rfl rfl
    refine ⟨v₂, h₁.append h₂, hv₂, ?_⟩
    simp [wideResult, outPair, outWord, hreg₂, hreg₁, count, shifted_sar]
  | shl | shrUn =>
    obtain ⟨v₁, h₁, hv₁, hreg₁⟩ := exec_put (.aluReg .xor .eax .eax) .eax hv rfl rfl
    obtain ⟨v₂, h₂, hv₂, hreg₂⟩ := exec_put (.aluReg .xor .edx .edx) .edx hv₁ rfl rfl
    refine ⟨v₂, h₁.append h₂, hv₂, ?_⟩
    simp [wideResult, outPair, outWord, hreg₂, hreg₁, alu_xor]

theorem exec_jumpAtLeast (r : Reg) (l : Label) {bound : Int32} {n : Nat}
    (hbound : bound.toUInt32.toNat = n) (hv : v.At words fp) :
    ∃ v', Exec [Instr.aluImm .cmp r bound, .jcc .ae l] v
        (if n ≤ (get v r).toNat then .goto l else .next) v' ∧
      v'.At words fp ∧ ∀ r', get v' r' = get v r' := by
  subst hbound
  obtain ⟨v', hcompare, hv', hregs, hflags⟩ := exec_cmp r hv rfl (rfl : value? v (.imm bound) = _)
  have hcond : v'.regs.flags.holds .ae = decide (bound.toUInt32.toNat ≤ (get v r).toNat) := by
    have hge := hflags ⟨.ge, true⟩
    rw [decides, toNat_word, toNat_word] at hge
    exact hge
  have hjump := @exec_jcc v' .ae l
  rw [hcond] at hjump
  simp only [decide_eq_true_eq] at hjump
  exact ⟨v', hcompare.append hjump, hv', hregs⟩

theorem exec_ranges (saturate big : Label) (hv : v.At words fp) :
    ∃ v', Exec [Instr.aluImm .cmp .ecx 64, .jcc .ae saturate, .aluImm .cmp .ecx 32, .jcc .ae big] v
        (if 64 ≤ (get v .ecx).toNat then .goto saturate
          else if 32 ≤ (get v .ecx).toNat then .goto big else .next) v' ∧
      v'.At words fp ∧ ∀ r, get v' r = get v r := by
  obtain ⟨v₁, hfar, hv₁, hreg₁⟩ := @exec_jumpAtLeast words fp v .ecx saturate 64 64 rfl hv
  obtain ⟨v₂, hnear, hv₂, hreg₂⟩ := @exec_jumpAtLeast words fp v₁ .ecx big 32 32 rfl hv₁
  rw [hreg₁] at hnear
  by_cases hout : 64 ≤ (get v .ecx).toNat
  · rw [if_pos hout]
    rw [if_pos hout] at hfar
    exact ⟨v₁, hfar.append_goto, hv₁, hreg₁⟩
  · rw [if_neg hout]
    rw [if_neg hout] at hfar
    exact ⟨v₂, hfar.append hnear, hv₂, fun r => (hreg₂ r).trans (hreg₁ r)⟩

/-- A high word of the count that is not zero shifts everything out. -/
theorem exec_guardCount (wideCount : Bool) (saturate : Label) (hv : v.At words fp) :
    ∃ v', Exec (if wideCount then [Instr.testReg .esi, .jcc .ne saturate] else []) v
        (if wideCount = true ∧ get v .esi ≠ 0 then .goto saturate else .next) v' ∧
      v'.At words fp ∧ ∀ r, get v' r = get v r := by
  cases wideCount with
  | false => exact ⟨v, .nil, hv, fun _ => rfl⟩
  | true =>
    obtain ⟨v', htest, hv', hregs, hzero⟩ := exec_testReg .esi hv
    have hcond : v'.regs.flags.holds .ne = true ↔ true = true ∧ get v .esi ≠ 0 := by
      show (!v'.regs.flags.zero) = true ↔ _
      rw [hzero]
      simp
    have hjump := @exec_jcc v' .ne saturate
    rw [if_congr hcond rfl rfl] at hjump
    exact ⟨v', htest.append hjump, hv', hregs⟩

/-- A shift of a double word: the count is out of range, or in one of three ranges. -/
theorem exec_shiftWide (ctx : EmitContext) (i : Instruction) (wideCount : Bool) (hv : v.At words fp) :
    ∃ v', Exec (shiftWide ctx i op wideCount) v .next v' ∧ v'.At words fp ∧
      Meaning.shift .saturating op (wideResult v) (integer wideCount (get v .ecx) (get v .esi)) =
        some (wideResult v') := by
  have hinteger := isInteger_integer wideCount (get v .ecx) (get v .esi)
  have hmod := toNat_integer_mod wideCount (get v .ecx) (get v .esi)
  have hle := le_toNat_integer wideCount (get v .ecx) (get v .esi)
  obtain ⟨v₁, hguard, hv₁, hreg₁⟩ := exec_guardCount wideCount (ctx.inside i "Saturate" 0) hv
  obtain ⟨v₂, hrange, hv₂, hreg₂⟩ :=
    exec_ranges (ctx.inside i "Saturate" 0) (ctx.inside i "Big" 1) hv₁
  rw [hreg₁] at hrange
  unfold shiftWide
  dsimp only
  generalize integer wideCount (get v .ecx) (get v .esi) = count at *
  by_cases hhuge : wideCount = true ∧ get v .esi ≠ 0
  · rw [if_pos hhuge] at hguard
    have hfar := hle.mpr hhuge
    obtain ⟨v', hexec, hv', hresult⟩ := exec_shiftOut op hv₁
    refine ⟨v', .append (.append ?_ hexec) exec_label, hv', ?_⟩
    · exact hguard.append_goto.append_goto.append_goto.append_goto.land [.jump _] .nil
    · rw [hresult, hreg₁]
      exact shift_out .saturating op _ _ hinteger (by omega)
  have hsmall : count.toNat = (get v .ecx).toNat := by
    have hnear : ¬0x100000000 ≤ count.toNat := fun h => hhuge (hle.mp h)
    omega
  rw [if_neg hhuge] at hguard
  have hstart := hguard.append hrange
  have hreg : ∀ r, get v₂ r = get v r := fun r => (hreg₂ r).trans (hreg₁ r)
  by_cases hout : 64 ≤ (get v .ecx).toNat
  · rw [if_pos hout] at hstart
    obtain ⟨v', hexec, hv', hresult⟩ := exec_shiftOut op hv₂
    refine ⟨v', .append (.append ?_ hexec) exec_label, hv', ?_⟩
    · exact hstart.append_goto.append_goto.append_goto.land [.jump _] .nil
    · rw [hresult, hreg]
      exact shift_out .saturating op _ _ hinteger (by omega)
  rw [if_neg hout] at hstart
  by_cases hover : 32 ≤ (get v .ecx).toNat
  · rw [if_pos hover] at hstart
    obtain ⟨t, v', hsub, hexec, hv', hresult⟩ :=
      exec_shiftOver op hv₂ (by rwa [hreg]) (by rw [hreg]; omega)
    refine ⟨v', .land [] (.append_goto (.append (.append ?_ hexec) (exec_jump _))) .nil, hv', ?_⟩
    · exact hstart.append_goto.land [.jump _] hsub
    · rw [hresult, hreg, hreg, hreg, ← hsmall]
      exact shift_over .saturating op _ _ hinteger (by omega) (by omega)
  · rw [if_neg hover] at hstart
    obtain ⟨v', hexec, hv', hresult⟩ := exec_shiftAcross op hv₂ (by rw [hreg]; omega)
    refine ⟨v', .land [] (.append_goto (.append_goto (.append_goto ?_))) .nil, hv', ?_⟩
    · exact (hstart.append hexec).append (exec_jump _)
    · rw [hresult, hreg, hreg, hreg, ← hsmall]
      exact shift_across .saturating op _ _ hinteger (by omega)

theorem exec_shiftOutWord (hv : v.At words fp) :
    ∃ v', Exec [match op with
        | .shr => Instr.shiftImm .sar .eax 31
        | .shl | .shrUn => .aluReg .xor .eax .eax] v .next v' ∧
      v'.At words fp ∧ get v' .eax = outWord op (get v .eax) := by
  cases op with
  | shr =>
    obtain ⟨v', hexec, hv', hreg⟩ := exec_put (.shiftImm .sar .eax 31) .eax hv rfl rfl
    refine ⟨v', hexec, hv', ?_⟩
    rw [hreg, if_pos rfl, shifted_sar, outWord, if_pos rfl]
    rfl
  | shl | shrUn =>
    obtain ⟨v', hexec, hv', hreg⟩ := exec_put (.aluReg .xor .eax .eax) .eax hv rfl rfl
    refine ⟨v', hexec, hv', ?_⟩
    rw [hreg, if_pos rfl, alu_xor, UInt32.xor_self, outWord, if_neg (by decide)]

theorem exec_shiftWord (ctx : EmitContext) (i : Instruction) (wideCount : Bool) (hv : v.At words fp) :
    ∃ v', Exec (shiftWord ctx i op wideCount) v .next v' ∧ v'.At words fp ∧
      Meaning.shift .saturating op [get v .eax] (integer wideCount (get v .ecx) (get v .esi)) =
        some [get v' .eax] := by
  have hshift := shift_word .saturating op (get v .eax)
    (isInteger_integer wideCount (get v .ecx) (get v .esi))
  rw [shiftAmount_integer] at hshift
  cases wideCount with
  | false =>
    obtain ⟨v', hexec, hv', hreg⟩ := exec_put (.shiftCl (shiftKind op) .eax) .eax hv rfl rfl
    refine ⟨v', hexec, hv', ?_⟩
    rw [hshift, if_neg (fun h => Bool.noConfusion h.1), hreg, if_pos rfl, shifted_eq, count]
  | true =>
    obtain ⟨t, hguard, ht, hregs⟩ := exec_guardCount true (ctx.inside i "Saturate" 0) hv
    by_cases hhigh : true = true ∧ get v .esi ≠ 0
    · rw [if_pos hhigh] at hguard hshift
      obtain ⟨v', hexec, hv', hresult⟩ := exec_shiftOutWord op ht
      refine ⟨v', ?_, hv', ?_⟩
      · have hland := hguard.land
          [.shiftCl (shiftKind op) .eax, .jump (ctx.inside i "Done" 1)] hexec
        exact hland.append exec_label
      · rw [hshift, shiftedWord_out, hresult, hregs]
    · rw [if_neg hhigh] at hguard hshift
      obtain ⟨v', hexec, hv', hreg⟩ := exec_put (.shiftCl (shiftKind op) .eax) .eax ht rfl rfl
      refine ⟨v', ?_, hv', ?_⟩
      · exact .land [] ((hguard.append hexec).append (exec_jump [.label _, _])) .nil
      · rw [hshift, hreg, if_pos rfl, shifted_eq, hregs, count, hregs]

theorem exec_popCount {count : Value} (hcount : count.isInteger = true)
    (hv : v.At (count ++ words) fp) :
    ∃ v', Exec ([Instr.popReg .ecx] ++ (if count.length == 2 then [Instr.popReg .esi] else [])) v
        .next v' ∧
      v'.At words fp ∧ integer (count.length == 2) (get v' .ecx) (get v' .esi) = count := by
  rcases isInteger_cases hcount with ⟨c, rfl⟩ | ⟨c₀, c₁, rfl⟩
  · obtain ⟨v', hpop, hv', hreg, -⟩ := exec_popReg (r := .ecx) hv (by decide)
    exact ⟨v', hpop, hv', congrArg ([·]) hreg⟩
  · obtain ⟨t, hlow, ht, hreg, -⟩ := exec_popReg (r := .ecx) hv (by decide)
    obtain ⟨v', hhigh, hv', hreg', hkeep⟩ := exec_popReg (r := .esi) ht (by decide)
    refine ⟨v', hlow.append hhigh, hv', ?_⟩
    show [v'.regs.gpr .ecx, v'.regs.gpr .esi] = _
    rw [hkeep .ecx (by decide), hreg, hreg']

theorem exec_pushWide (hv : v.At words fp) (hroom : words.length + 2 ≤ stackCapacity) :
    ∃ v', Exec (pushResult true) v .next v' ∧ v'.At (wideResult v ++ words) fp := by
  obtain ⟨t, hhigh, ht, hregs⟩ := exec_pushReg (r := .edx) hv (by omega)
  obtain ⟨v', hlow, hv', -⟩ := exec_pushReg (r := .eax) ht (by rw [List.length_cons]; omega)
  have heax : get t .eax = get v .eax := congrArg (·.gpr .eax) hregs
  rw [heax] at hv'
  exact ⟨v', hhigh.append hlow, hv'⟩

/-- A shift of a word or a double word by a word or a double word. -/
theorem turns_shift (ctx : EmitContext) (i : Instruction) {e : Effect} {a count c : Value}
    (h : Meaning.shift .saturating op a count = some c)
    (hcount : (e.operand 0).size = 4 * count.length) (hvalue : (e.operand 1).size = 4 * a.length) :
    Turns (shift ctx i e op) (count ++ (a ++ words)) fp .next (c ++ words) fp := by
  obtain ⟨hvalueInt, hcountInt⟩ := shift_shapes h
  intro v hv
  have hfits := hv.fits
  rw [List.length_append, List.length_append] at hfits
  obtain ⟨v₁, hpop, hv₁, hcounted⟩ := exec_popCount hcountInt hv
  unfold shift
  dsimp only
  rw [isWide_value hcountInt hcount, isWide_value hvalueInt hvalue]
  rcases isInteger_cases hvalueInt with ⟨x, rfl⟩ | ⟨x₀, x₁, rfl⟩
  · obtain ⟨v₂, hpop₂, hv₂, hx, hkeep⟩ := exec_popReg (r := .eax) hv₁ (by decide)
    obtain ⟨v₃, hexec, hv₃, hresult⟩ := exec_shiftWord op ctx i (count.length == 2) hv₂
    rw [show get v₂ .ecx = get v₁ .ecx from hkeep .ecx (by decide),
      show get v₂ .esi = get v₁ .esi from hkeep .esi (by decide), hcounted,
      show get v₂ .eax = x from hx, h] at hresult
    obtain rfl := Option.some.inj hresult
    have hroom : words.length < stackCapacity := by
      rw [List.length_singleton] at hfits
      omega
    obtain ⟨v', hpush, hv', -⟩ := exec_pushReg (r := .eax) hv₃ hroom
    exact ⟨v', ((hpop.append hpop₂).append hexec).append hpush, hv'⟩
  · obtain ⟨v₂, hpop₂, hv₂, hx₀, hkeep⟩ := exec_popReg (r := .eax) hv₁ (by decide)
    obtain ⟨v₃, hpop₃, hv₃, hx₁, hkeep'⟩ := exec_popReg (r := .edx) hv₂ (by decide)
    obtain ⟨v₄, hexec, hv₄, hresult⟩ := exec_shiftWide op ctx i (count.length == 2) hv₃
    have hvalue₃ : wideResult v₃ = [x₀, x₁] := by
      show [v₃.regs.gpr .eax, v₃.regs.gpr .edx] = _
      rw [hkeep' .eax (by decide), hx₀, hx₁]
    rw [show get v₃ .ecx = get v₁ .ecx from (hkeep' .ecx (by decide)).trans (hkeep .ecx (by decide)),
      show get v₃ .esi = get v₁ .esi from (hkeep' .esi (by decide)).trans (hkeep .esi (by decide)),
      hcounted, hvalue₃, h] at hresult
    obtain rfl := Option.some.inj hresult
    have hroom : words.length + 2 ≤ stackCapacity := by
      rw [List.length_cons, List.length_singleton] at hfits
      omega
    obtain ⟨v', hpush, hv'⟩ := exec_pushWide hv₄ hroom
    exact ⟨v', ((hpop.append hpop₂).append (hpop₃.append hexec)).append hpush, hv'⟩

end Shift

end Stencil.X86
