import Stencil.Proofs.Mips.Words

/-!
# Integer templates on MIPS32

Each template of an integer operation takes its operands from the stack and leaves what the operation
means.
-/

namespace Stencil.Mips

open Meaning Meaning.Value

variable {words : List UInt32} {fp : UInt32}

/-! ## Arithmetic -/

/-- The operands are popped, code computes in registers, and the result is pushed. -/
def binaryGroups : (wide : Bool) → List Instr → List Group
  | true, code => [.pop .t2, .pop .t3, .pop .t0, .pop .t1] ++ code.map .one ++ [.push .t1, .push .t0]
  | false, code => [.pop .t2, .pop .t0] ++ code.map .one ++ [.push .t0]

theorem flatMap_map_one (code : List Instr) : (code.map Group.one).flatMap Group.code = code := by
  rw [List.flatMap_map]
  exact List.flatMap_singleton' code

theorem binaryGroups_code (wide : Bool) (code : List Instr) :
    (binaryGroups wide code).flatMap Group.code = popOperands wide ++ code ++ pushResult wide := by
  cases wide with
  | false =>
    rw [binaryGroups, List.flatMap_append, List.flatMap_append, flatMap_map_one]
    rfl
  | true =>
    rw [binaryGroups, List.flatMap_append, List.flatMap_append, flatMap_map_one]
    rfl

section Word

variable (a b : UInt32)

theorem turns_binaryWord {op : BinaryOp} {c : Value} (h : Meaning.binary op [a] [b] = some c) :
    Turns (popOperands false ++ binaryWord op ++ pushResult false) ([b, a] ++ words) fp .next
      (c ++ words) fp := by
  rw [← binaryGroups_code]
  cases op with
  | add =>
    obtain rfl := Option.some.inj ((binary_add_word a b).symm.trans h)
    exact turns_of_run _ 1 rfl fun free regs => ⟨_, rfl, rfl, rfl, rfl⟩
  | sub =>
    obtain rfl := Option.some.inj ((binary_sub_word a b).symm.trans h)
    exact turns_of_run _ 1 rfl fun free regs => ⟨_, rfl, rfl, rfl, rfl⟩
  | mul =>
    obtain rfl := Option.some.inj ((binary_mul_word a b).symm.trans h)
    refine turns_of_run _ 1 rfl fun free regs => ⟨_, rfl, ?_, rfl, rfl⟩
    show (product false a b).toUInt32 :: words = _
    rw [product_low]
    rfl
  | and | or | xor =>
    obtain rfl := Option.some.inj h
    exact turns_of_run _ 1 rfl fun free regs => ⟨_, rfl, rfl, rfl, rfl⟩
  | div | divUn | rem | remUn => cases h

end Word

section Wide

variable (a₀ a₁ b₀ b₁ : UInt32)

theorem turns_binaryWide {op : BinaryOp} {code : List Instr} {c : Value}
    (h : Meaning.binary op [a₀, a₁] [b₀, b₁] = some c) (hcode : binaryWide? op = some code) :
    Turns (popOperands true ++ code ++ pushResult true) ([b₀, b₁, a₀, a₁] ++ words) fp .next
      (c ++ words) fp := by
  cases op with
  | add =>
    obtain rfl := Option.some.inj ((binary_add_pair a₀ a₁ b₀ b₁).symm.trans h)
    obtain rfl := Option.some.inj hcode
    rw [← binaryGroups_code]
    refine turns_of_run _ 2 rfl fun free regs => ⟨_, rfl, ?_, rfl, rfl⟩
    show (a₀ + b₀) :: (a₁ + b₁ + alu .sltu (a₀ + b₀) b₀) :: words = _
    rw [sltu_sum]
    rfl
  | sub =>
    obtain rfl := Option.some.inj ((binary_sub_pair a₀ a₁ b₀ b₁).symm.trans h)
    obtain rfl := Option.some.inj hcode
    rw [← binaryGroups_code]
    exact turns_of_run _ 2 rfl fun free regs => ⟨_, rfl, rfl, rfl, rfl⟩
  | mul =>
    obtain rfl := Option.some.inj ((binary_mul_pair a₀ a₁ b₀ b₁).symm.trans h)
    obtain rfl := Option.some.inj hcode
    rw [← binaryGroups_code]
    refine turns_of_run _ 2 rfl fun free regs => ⟨_, rfl, ?_, rfl, rfl⟩
    show (product true a₀ b₀).toUInt32 :: ((product true a₀ b₀ >>> 32).toUInt32 +
      (product true a₁ b₀).toUInt32 + (product true a₀ b₁).toUInt32) :: words = _
    rw [product_low, product_low, product_low, product_high]
    rfl
  | and | or | xor =>
    obtain rfl := Option.some.inj h
    obtain rfl := Option.some.inj hcode
    rw [← binaryGroups_code]
    exact turns_of_run _ 2 rfl fun free regs => ⟨_, rfl, rfl, rfl, rfl⟩
  | div | divUn | rem | remUn => cases h

end Wide

theorem turns_binary (i : Instruction) {e : Effect} {op : BinaryOp} {a b c : Value}
    (h : Meaning.binary op a b = some c) (hsize : (e.operand 0).size = 4 * b.length) :
    ∃ code, binary i e op = .ok code ∧ ∀ words fp,
      Turns code (b ++ (a ++ words)) fp .next (c ++ words) fp := by
  unfold binary isWide
  rcases binary_shapes h with ⟨x, y, rfl, rfl⟩ | ⟨x₀, x₁, y₀, y₁, rfl, rfl⟩
  · rw [hsize]
    exact ⟨_, rfl, fun words fp => turns_binaryWord x y h⟩
  · obtain ⟨code, hcode⟩ : ∃ code, binaryWide? op = some code := by
      cases op <;> first | exact ⟨_, rfl⟩ | cases h
    rw [hsize, hcode]
    exact ⟨_, rfl, fun words fp => turns_binaryWide x₀ x₁ y₀ y₁ h hcode⟩

/-- Arithmetic on one integer: a negative borrows from the high word unless the low one is zero. -/
theorem turns_unary {e : Effect} {op : UnaryOp} {a c : Value} (h : Meaning.unary op a = some c)
    (hsize : (e.operand 0).size = 4 * a.length) :
    Turns (unary e op) (a ++ words) fp .next (c ++ words) fp := by
  unfold unary isWide
  rcases unary_shapes h with ⟨x, rfl⟩ | ⟨x₀, x₁, rfl⟩
  · rw [hsize]
    cases op with
    | neg =>
      obtain rfl := Option.some.inj ((unary_neg_word x).symm.trans h)
      exact turns_of_run [.pop .t0, .one (.alu .subu .t0 .zero .t0), .push .t0] 0 rfl
        fun free regs => ⟨_, rfl, rfl, rfl, rfl⟩
    | not =>
      obtain rfl := Option.some.inj h
      refine turns_of_run [.pop .t0, .one (.alu .nor .t0 .t0 .zero), .push .t0] 0 rfl
        fun free regs => ⟨_, rfl, ?_, rfl, rfl⟩
      show ~~~(x ||| 0) :: words = _
      rw [UInt32.or_zero]
      rfl
  · rw [hsize]
    cases op with
    | neg =>
      obtain rfl := Option.some.inj ((unary_neg_pair x₀ x₁).symm.trans h)
      exact turns_of_run [.pop .t0, .pop .t1, .one (.setLess true .t4 .zero .t0),
        .one (.alu .subu .t0 .zero .t0), .one (.alu .subu .t1 .zero .t1),
        .one (.alu .subu .t1 .t1 .t4), .push .t1, .push .t0] 0 rfl
        fun free regs => ⟨_, rfl, rfl, rfl, rfl⟩
    | not =>
      obtain rfl := Option.some.inj h
      refine turns_of_run [.pop .t0, .pop .t1, .one (.alu .nor .t0 .t0 .zero),
        .one (.alu .nor .t1 .t1 .zero), .push .t1, .push .t0] 0 rfl
        fun free regs => ⟨_, rfl, ?_, rfl, rfl⟩
      show ~~~(x₀ ||| 0) :: ~~~(x₁ ||| 0) :: words = _
      rw [UInt32.or_zero, UInt32.or_zero]
      rfl

/-! ## Shifts -/

section Shift

variable {v : View Registers} (op : Stencil.ShiftOp)

/-- The double word that the registers of a result hold. -/
def wideResult (v : View Registers) : Value := [get v .t0, get v .t1]

/-- The rest of the word that a shift by less than a word leaves. -/
theorem exec_rest (hv : v.At words fp) :
    ∃ v', Exec [Instr.addiu .t4 .zero 32, .alu .subu .t4 .t4 .t2] v .next v' ∧ v'.At words fp ∧
      get v' .t4 = 32 - get v .t2 ∧ ∀ r, r ≠ .t4 → get v' r = get v r := by
  obtain ⟨v₁, h₁, hv₁, hreg₁⟩ := exec_put (.addiu .t4 .zero 32) .t4 hv rfl rfl
  obtain ⟨v₂, h₂, hv₂, hreg₂⟩ := exec_put (.alu .subu .t4 .t4 .t2) .t4 hv₁ rfl rfl
  refine ⟨v₂, h₁.append h₂, hv₂, ?_, fun r hr => ?_⟩
  · rw [hreg₂, if_pos rfl, hreg₁, hreg₁, if_pos rfl, if_neg (by decide)]
    rfl
  · rw [hreg₂, if_neg hr, hreg₁, if_neg hr]

theorem exec_shiftAcross (hv : v.At words fp) (hpos : 0 < (get v .t2).toNat)
    (hlt : (get v .t2).toNat < 32) (hrest : get v .t4 = 32 - get v .t2) :
    ∃ v', Exec (shiftAcross op) v .next v' ∧ v'.At words fp ∧
      wideResult v' = acrossPair op (get v .t0) (get v .t1) (get v .t2).toNat := by
  have hmod := Nat.mod_eq_of_lt hlt
  cases op with
  | shl =>
    obtain ⟨v₁, h₁, hv₁, hreg₁⟩ := exec_put (.alu .srlv .t5 .t0 .t4) .t5 hv rfl rfl
    obtain ⟨v₂, h₂, hv₂, hreg₂⟩ := exec_put (.alu .sllv .t1 .t1 .t2) .t1 hv₁ rfl rfl
    obtain ⟨v₃, h₃, hv₃, hreg₃⟩ := exec_put (.alu .or .t1 .t1 .t5) .t1 hv₂ rfl rfl
    obtain ⟨v₄, h₄, hv₄, hreg₄⟩ := exec_put (.alu .sllv .t0 .t0 .t2) .t0 hv₃ rfl rfl
    refine ⟨v₄, ((h₁.append h₂).append h₃).append h₄, hv₄, ?_⟩
    have hup := or_sllv_srlv (get v .t0) (get v .t1) hpos hlt
    have hlow := alu_sllv (get v .t0) (get v .t2)
    rw [hmod] at hlow
    simp [wideResult, acrossPair, hreg₄, hreg₃, hreg₂, hreg₁, hrest, hlow, hup]
  | shr =>
    obtain ⟨v₁, h₁, hv₁, hreg₁⟩ := exec_put (.alu .sllv .t5 .t1 .t4) .t5 hv rfl rfl
    obtain ⟨v₂, h₂, hv₂, hreg₂⟩ := exec_put (.alu .srlv .t0 .t0 .t2) .t0 hv₁ rfl rfl
    obtain ⟨v₃, h₃, hv₃, hreg₃⟩ := exec_put (.alu .or .t0 .t0 .t5) .t0 hv₂ rfl rfl
    obtain ⟨v₄, h₄, hv₄, hreg₄⟩ := exec_put (.alu .srav .t1 .t1 .t2) .t1 hv₃ rfl rfl
    refine ⟨v₄, ((h₁.append h₂).append h₃).append h₄, hv₄, ?_⟩
    have hdown := or_srlv_sllv (get v .t0) (get v .t1) hpos hlt
    have hhigh := alu_srav (get v .t1) (get v .t2)
    rw [hmod] at hhigh
    simp [wideResult, acrossPair, hreg₄, hreg₃, hreg₂, hreg₁, hrest, hhigh, hdown]
  | shrUn =>
    obtain ⟨v₁, h₁, hv₁, hreg₁⟩ := exec_put (.alu .sllv .t5 .t1 .t4) .t5 hv rfl rfl
    obtain ⟨v₂, h₂, hv₂, hreg₂⟩ := exec_put (.alu .srlv .t0 .t0 .t2) .t0 hv₁ rfl rfl
    obtain ⟨v₃, h₃, hv₃, hreg₃⟩ := exec_put (.alu .or .t0 .t0 .t5) .t0 hv₂ rfl rfl
    obtain ⟨v₄, h₄, hv₄, hreg₄⟩ := exec_put (.alu .srlv .t1 .t1 .t2) .t1 hv₃ rfl rfl
    refine ⟨v₄, ((h₁.append h₂).append h₃).append h₄, hv₄, ?_⟩
    have hdown := or_srlv_sllv (get v .t0) (get v .t1) hpos hlt
    have hhigh := alu_srlv (get v .t1) (get v .t2)
    rw [hmod] at hhigh
    simp [wideResult, acrossPair, hreg₄, hreg₃, hreg₂, hreg₁, hrest, hhigh, hdown]

theorem exec_shiftOver (hv : v.At words fp) (hle : 32 ≤ (get v .t2).toNat)
    (hlt : (get v .t2).toNat < 64) :
    ∃ t v', Exec [Instr.addiu .t2 .t2 (-32)] v .next t ∧ Exec (shiftOver op) t .next v' ∧
      v'.At words fp ∧ wideResult v' =
        overPair op (get v .t0) (get v .t1) ((get v .t2).toNat - 32) := by
  obtain ⟨t, ht, hvt, hreg⟩ := exec_put (.addiu .t2 .t2 (-32)) .t2 hv rfl rfl
  have hcount : (get t .t2).toNat % 32 = (get v .t2).toNat - 32 := by
    have hadd : get t .t2 = get v .t2 + 0xFFFFFFE0 := by
      rw [hreg, if_pos rfl]
      rfl
    have hconst : (0xFFFFFFE0 : UInt32).toNat = 0xFFFFFFE0 := rfl
    rw [hadd, UInt32.toNat_add, hconst]
    omega
  rw [show get v .t0 = get t .t0 from (hreg .t0).symm, show get v .t1 = get t .t1 from (hreg .t1).symm,
    ← hcount]
  cases op with
  | shl =>
    obtain ⟨v₁, h₁, hv₁, hreg₁⟩ := exec_put (.alu .sllv .t1 .t0 .t2) .t1 hvt rfl rfl
    obtain ⟨v₂, h₂, hv₂, hreg₂⟩ := exec_put (.move .t0 .zero) .t0 hv₁ rfl rfl
    refine ⟨t, v₂, ht, h₁.append h₂, hv₂, ?_⟩
    simp [wideResult, overPair, hreg₂, hreg₁, alu_sllv, get_zero]
  | shr =>
    obtain ⟨v₁, h₁, hv₁, hreg₁⟩ := exec_put (.alu .srav .t0 .t1 .t2) .t0 hvt rfl rfl
    obtain ⟨v₂, h₂, hv₂, hreg₂⟩ := exec_put (.shift .sra .t1 .t1 31) .t1 hv₁ rfl rfl
    refine ⟨t, v₂, ht, h₁.append h₂, hv₂, ?_⟩
    simp [wideResult, overPair, hreg₂, hreg₁, alu_srav, shiftBy_sign]
  | shrUn =>
    obtain ⟨v₁, h₁, hv₁, hreg₁⟩ := exec_put (.alu .srlv .t0 .t1 .t2) .t0 hvt rfl rfl
    obtain ⟨v₂, h₂, hv₂, hreg₂⟩ := exec_put (.move .t1 .zero) .t1 hv₁ rfl rfl
    refine ⟨t, v₂, ht, h₁.append h₂, hv₂, ?_⟩
    simp [wideResult, overPair, outWord, hreg₂, hreg₁, alu_srlv, get_zero]

theorem exec_shiftOut (hv : v.At words fp) :
    ∃ v', Exec (shiftOut op) v .next v' ∧ v'.At words fp ∧
      wideResult v' = outPair op (get v .t1) := by
  cases op with
  | shr =>
    obtain ⟨v₁, h₁, hv₁, hreg₁⟩ := exec_put (.shift .sra .t1 .t1 31) .t1 hv rfl rfl
    obtain ⟨v₂, h₂, hv₂, hreg₂⟩ := exec_put (.move .t0 .t1) .t0 hv₁ rfl rfl
    refine ⟨v₂, h₁.append h₂, hv₂, ?_⟩
    simp [wideResult, outPair, hreg₂, hreg₁, shiftBy_sign]
  | shl | shrUn =>
    obtain ⟨v₁, h₁, hv₁, hreg₁⟩ := exec_put (.move .t0 .zero) .t0 hv rfl rfl
    obtain ⟨v₂, h₂, hv₂, hreg₂⟩ := exec_put (.move .t1 .zero) .t1 hv₁ rfl rfl
    refine ⟨v₂, h₁.append h₂, hv₂, ?_⟩
    simp [wideResult, outPair, outWord, hreg₂, hreg₁, get_zero]

theorem exec_jumpAtLeast (r : Reg) (l : Label) {bound : Int32} {n : Nat}
    (hbound : bound.toUInt32.toNat = n) (hv : v.At words fp) :
    ∃ v', Exec ([Instr.aluImm .sltiu .t8 r bound] ++ Instr.beq .t8 .zero l) v
        (if n ≤ (get v r).toNat then .goto l else .next) v' ∧
      v'.At words fp ∧ ∀ r', r' ≠ .t8 → get v' r' = get v r' := by
  subst hbound
  obtain ⟨v', hset, hv', hreg⟩ := exec_put (.aluImm .sltiu .t8 r bound) .t8 hv rfl rfl
  have hcond : ((get v' .t8 == get v' .zero) = true) ↔ bound.toUInt32.toNat ≤ (get v r).toNat := by
    have hless : get v' .t8 = if get v r < bound.toUInt32 then 1 else 0 := by
      rw [hreg, if_pos rfl]
      rfl
    rw [hless, get_zero, ← UInt32.le_iff_toNat_le, ← UInt32.not_lt]
    split
    · rename_i hlt
      exact ⟨fun h => absurd h (by decide), fun h => absurd hlt h⟩
    · rename_i hnot
      exact ⟨fun _ => hnot, fun _ => rfl⟩
  have hjump := @exec_branch v' true .t8 .zero l
  rw [if_congr hcond rfl rfl] at hjump
  exact ⟨v', hset.append hjump, hv', fun r' hr' => by rw [hreg, if_neg hr']⟩

def ranges (saturate big done : Label) : List Instr :=
  [Instr.aluImm .sltiu .t8 .t2 64] ++ Instr.beq .t8 .zero saturate ++ Instr.beq .t2 .zero done ++
    ([Instr.aluImm .sltiu .t8 .t2 32] ++ Instr.beq .t8 .zero big)

theorem exec_ranges (saturate big done : Label) (hv : v.At words fp) :
    ∃ v', Exec (ranges saturate big done) v
        (if 64 ≤ (get v .t2).toNat then .goto saturate
          else if get v .t2 = 0 then .goto done
          else if 32 ≤ (get v .t2).toNat then .goto big else .next) v' ∧
      v'.At words fp ∧ ∀ r, r ≠ .t8 → get v' r = get v r := by
  obtain ⟨v₁, hfar, hv₁, hreg₁⟩ := @exec_jumpAtLeast words fp v .t2 saturate 64 64 rfl hv
  obtain ⟨v₂, hnear, hv₂, hreg₂⟩ := @exec_jumpAtLeast words fp v₁ .t2 big 32 32 rfl hv₁
  have hzero := @exec_branch v₁ true .t2 .zero done
  rw [if_congr beq_iff_eq rfl rfl, get_zero, hreg₁ .t2 (by decide)] at hzero
  rw [hreg₁ .t2 (by decide)] at hnear
  by_cases hout : 64 ≤ (get v .t2).toNat
  · rw [if_pos hout] at hfar ⊢
    exact ⟨v₁, hfar.append_goto.append_goto, hv₁, hreg₁⟩
  · rw [if_neg hout] at hfar ⊢
    by_cases hnone : get v .t2 = 0
    · rw [if_pos hnone] at hzero ⊢
      exact ⟨v₁, (hfar.append hzero).append_goto, hv₁, hreg₁⟩
    · rw [if_neg hnone] at hzero ⊢
      exact ⟨v₂, (hfar.append hzero).append hnear, hv₂, fun r hr => (hreg₂ r hr).trans (hreg₁ r hr)⟩

/-- A high word of the count that is not zero shifts everything out. -/
theorem exec_guardCount (wideCount : Bool) (saturate : Label) :
    Exec (if wideCount then Instr.bne .t3 .zero saturate else []) v
      (if wideCount = true ∧ get v .t3 ≠ 0 then .goto saturate else .next) v := by
  cases wideCount with
  | false => exact .nil
  | true =>
    have hjump := @exec_branch v false .t3 .zero saturate
    have hcond : ((get v .t3 == get v .zero) = false) ↔ true = true ∧ get v .t3 ≠ 0 := by
      rw [get_zero]
      simp
    rw [if_congr hcond rfl rfl] at hjump
    exact hjump

theorem shiftWide_eq (ctx : EmitContext) (i : Instruction) (wideCount : Bool) :
    shiftWide ctx i op wideCount =
      (if wideCount then Instr.bne .t3 .zero (ctx.inside i "Saturate" 0) else []) ++
      ranges (ctx.inside i "Saturate" 0) (ctx.inside i "Big" 1) (ctx.inside i "Done" 2) ++
      ([Instr.addiu .t4 .zero 32, .alu .subu .t4 .t4 .t2] ++ shiftAcross op) ++
      Instr.jump (ctx.inside i "Done" 2) ++
      [Instr.label (ctx.inside i "Big" 1), .addiu .t2 .t2 (-32)] ++ shiftOver op ++
      Instr.jump (ctx.inside i "Done" 2) ++ [Instr.label (ctx.inside i "Saturate" 0)] ++
      shiftOut op ++ [Instr.label (ctx.inside i "Done" 2)] := by
  simp only [shiftWide, ranges, List.append_assoc]

theorem acrossPair_zero (a₀ a₁ : UInt32) : acrossPair op a₀ a₁ 0 = [a₀, a₁] := by
  unfold acrossPair
  split
  · rw [shiftedWord_zero, crossedUp_zero]
  · rw [shiftedWord_zero, crossedDown_zero]

/-- A shift of a double word: the count is out of range, zero, or in one of three ranges. -/
theorem exec_shiftWide (ctx : EmitContext) (i : Instruction) (wideCount : Bool) (hv : v.At words fp) :
    ∃ v', Exec (shiftWide ctx i op wideCount) v .next v' ∧ v'.At words fp ∧
      Meaning.shift .saturating op (wideResult v) (integer wideCount (get v .t2) (get v .t3)) =
        some (wideResult v') := by
  have hinteger := isInteger_integer wideCount (get v .t2) (get v .t3)
  have hmod := toNat_integer_mod wideCount (get v .t2) (get v .t3)
  have hle := le_toNat_integer wideCount (get v .t2) (get v .t3)
  have hguard := @exec_guardCount v wideCount (ctx.inside i "Saturate" 0)
  obtain ⟨v₁, hrange, hv₁, hreg⟩ :=
    exec_ranges (ctx.inside i "Saturate" 0) (ctx.inside i "Big" 1) (ctx.inside i "Done" 2) hv
  have ht0 := hreg .t0 (by decide)
  have ht1 := hreg .t1 (by decide)
  have ht2 := hreg .t2 (by decide)
  rw [shiftWide_eq]
  generalize integer wideCount (get v .t2) (get v .t3) = count at *
  by_cases hhuge : wideCount = true ∧ get v .t3 ≠ 0
  · rw [if_pos hhuge] at hguard
    have hfar := hle.mpr hhuge
    obtain ⟨v', hexec, hv', hresult⟩ := exec_shiftOut op hv
    refine ⟨v', .append (.append ?_ hexec) exec_label, hv', ?_⟩
    · refine Exec.land [] ?_ .nil
      exact hguard.append_goto.append_goto.append_goto.append_goto.append_goto.append_goto
    · rw [hresult]
      exact shift_out .saturating op _ _ hinteger (by omega)
  have hsmall : count.toNat = (get v .t2).toNat := by
    have hnear : ¬0x100000000 ≤ count.toNat := fun h => hhuge (hle.mp h)
    omega
  rw [if_neg hhuge] at hguard
  have hstart := hguard.append hrange
  by_cases hout : 64 ≤ (get v .t2).toNat
  · rw [if_pos hout] at hstart
    obtain ⟨v', hexec, hv', hresult⟩ := exec_shiftOut op hv₁
    refine ⟨v', .append (.append ?_ hexec) exec_label, hv', ?_⟩
    · exact hstart.append_goto.append_goto.append_goto.append_goto.append_goto.land [] .nil
    · rw [hresult, ht1]
      exact shift_out .saturating op _ _ hinteger (by omega)
  rw [if_neg hout] at hstart
  by_cases hnone : get v .t2 = 0
  · -- the value is left alone
    rw [if_pos hnone] at hstart
    have hcount : count.toNat = 0 := by rw [hsmall, hnone, UInt32.toNat_zero]
    refine ⟨v₁, .land [] (.append_goto (.append_goto (.append_goto (.append_goto (.append_goto
      (.append_goto (.append_goto hstart))))))) .nil, hv₁, ?_⟩
    have hshift := shift_across .saturating op (get v .t0) (get v .t1) hinteger (by omega)
    rw [hcount, acrossPair_zero] at hshift
    show _ = some [get v₁ .t0, get v₁ .t1]
    rw [ht0, ht1]
    exact hshift
  rw [if_neg hnone] at hstart
  have hpos : 0 < (get v .t2).toNat :=
    Nat.pos_of_ne_zero fun h => hnone (UInt32.toNat_inj.mp h)
  by_cases hover : 32 ≤ (get v .t2).toNat
  · rw [if_pos hover] at hstart
    obtain ⟨t, v', hsub, hexec, hv', hresult⟩ :=
      exec_shiftOver op hv₁ (by rwa [ht2]) (by rw [ht2]; omega)
    refine ⟨v', .land [] (.append_goto (.append_goto (.append (.append ?_ hexec) (.of_jumps .jump)))) .nil,
      hv', ?_⟩
    · exact hstart.append_goto.append_goto.land [] hsub
    · rw [hresult, ht0, ht1, ht2, ← hsmall]
      exact shift_over .saturating op _ _ hinteger (by omega) (by omega)
  · rw [if_neg hover] at hstart
    obtain ⟨t, hrest, ht, hcount, hkeep⟩ := exec_rest hv₁
    have hkeep2 := (hkeep .t2 (by decide)).trans ht2
    obtain ⟨v', hexec, hv', hresult⟩ := exec_shiftAcross op ht (by rwa [hkeep2]) (by rw [hkeep2]; omega)
      (by rw [hcount, hkeep2, ht2])
    refine ⟨v', .land [] (.append_goto (.append_goto (.append_goto (.append_goto (.append_goto ?_))))) .nil,
      hv', ?_⟩
    · exact (hstart.append (hrest.append hexec)).append (.of_jumps .jump)
    · rw [hresult, hkeep .t0 (by decide), hkeep .t1 (by decide), ht0, ht1, hkeep2, ← hsmall]
      exact shift_across .saturating op _ _ hinteger (by omega)

theorem exec_shiftOutWord (hv : v.At words fp) :
    ∃ v', Exec [match op with
        | .shr => Instr.shift .sra .t0 .t0 31
        | .shl | .shrUn => .move .t0 .zero] v .next v' ∧
      v'.At words fp ∧ get v' .t0 = outWord op (get v .t0) := by
  cases op with
  | shr =>
    obtain ⟨v', hexec, hv', hreg⟩ := exec_put (.shift .sra .t0 .t0 31) .t0 hv rfl rfl
    refine ⟨v', hexec, hv', ?_⟩
    rw [hreg, if_pos rfl]
    exact shiftBy_sign (get v .t0)
  | shl | shrUn =>
    obtain ⟨v', hexec, hv', hreg⟩ := exec_put (.move .t0 .zero) .t0 hv rfl rfl
    refine ⟨v', hexec, hv', ?_⟩
    rw [hreg, if_pos rfl, get_zero, outWord, if_neg (by decide)]

theorem exec_shiftWord (ctx : EmitContext) (i : Instruction) (wideCount : Bool) (hv : v.At words fp) :
    ∃ v', Exec (shiftWord ctx i op wideCount) v .next v' ∧ v'.At words fp ∧
      Meaning.shift .saturating op [get v .t0] (integer wideCount (get v .t2) (get v .t3)) =
        some [get v' .t0] := by
  have hshift := shift_word .saturating op (get v .t0)
    (isInteger_integer wideCount (get v .t2) (get v .t3))
  rw [shiftAmount_integer] at hshift
  obtain ⟨t, hvar, ht, hreg⟩ := exec_put (.alu (shiftVar op) .t0 .t0 .t2) .t0 hv rfl rfl
  cases wideCount with
  | false =>
    refine ⟨t, hvar, ht, ?_⟩
    rw [hshift, if_neg (fun h => Bool.noConfusion h.1), hreg, if_pos rfl, alu_shiftVar]
  | true =>
    have hguard := @exec_guardCount v true (ctx.inside i "Saturate" 0)
    by_cases hhigh : true = true ∧ get v .t3 ≠ 0
    · rw [if_pos hhigh] at hguard hshift
      obtain ⟨v', hexec, hv', hresult⟩ := exec_shiftOutWord op hv
      refine ⟨v', ?_, hv', ?_⟩
      · exact hguard.append_goto.append_goto.land [] (hexec.append exec_label)
      · rw [hshift, shiftedWord_out, hresult]
    · rw [if_neg hhigh] at hguard hshift
      have hjump : Exec (Instr.jump (ctx.inside i "Done" 1)) t (.goto (ctx.inside i "Done" 1)) t :=
        .of_jumps .jump
      refine ⟨t, ?_, ht, ?_⟩
      · exact ((hguard.append hvar).append hjump).land [.label _, _] .nil
      · rw [hshift, hreg, if_pos rfl, alu_shiftVar]

theorem exec_popCount {count : Value} (hcount : count.isInteger = true)
    (hv : v.At (count ++ words) fp) :
    ∃ v', Exec (Instr.pop .t2 ++ (if count.length == 2 then Instr.pop .t3 else [])) v .next v' ∧
      v'.At words fp ∧ integer (count.length == 2) (get v' .t2) (get v' .t3) = count := by
  rcases isInteger_cases hcount with ⟨c, rfl⟩ | ⟨c₀, c₁, rfl⟩
  · obtain ⟨v', hpop, hv', hreg, -⟩ := exec_pop (r := .t2) hv (by decide)
    exact ⟨v', hpop.append .nil, hv', congrArg ([·]) hreg⟩
  · obtain ⟨t, hlow, ht, hreg, -⟩ := exec_pop (r := .t2) hv (by decide)
    obtain ⟨v', hhigh, hv', hreg', hkeep⟩ := exec_pop (r := .t3) ht (by decide)
    refine ⟨v', hlow.append hhigh, hv', ?_⟩
    show [get v' .t2, get v' .t3] = _
    rw [hreg', show get v' .t2 = get t .t2 from hkeep .t2 (by decide), hreg]

theorem exec_pushWide (hv : v.At words fp) (hroom : words.length + 2 ≤ stackCapacity) :
    ∃ v', Exec (pushResult true) v .next v' ∧ v'.At (wideResult v ++ words) fp := by
  obtain ⟨t, hhigh, ht, hregs⟩ := exec_push (r := .t1) hv (by decide) (by omega)
  obtain ⟨v', hlow, hv', -⟩ := exec_push (r := .t0) ht (by decide) (by rw [List.length_cons]; omega)
  have ht0 : get t .t0 = get v .t0 := congrArg (·.gpr .t0) hregs
  rw [ht0] at hv'
  exact ⟨v', hhigh.append hlow, hv'⟩

/-- A shift of a word or a double word by a word or a double word. -/
theorem turns_shift (ctx : EmitContext) (i : Instruction) {e : Effect} {a count c : Value}
    (h : Meaning.shift .saturating op a count = some c)
    (hcount : (e.operand 0).size = 4 * count.length) (hvalue : (e.operand 1).size = 4 * a.length) :
    Turns (shift ctx i e op) (count ++ (a ++ words)) fp .next (c ++ words) fp := by
  obtain ⟨hvalueInt, hcountInt⟩ := shift_shapes h
  intro v hv
  have hfits := hv.fits
  rw [List.length_append, List.length_append] at hfits
  obtain ⟨v₁, hpop, hv₁, hcounted⟩ := exec_popCount hcountInt hv
  unfold shift
  dsimp only
  rw [isWide_value hcountInt hcount, isWide_value hvalueInt hvalue]
  rcases isInteger_cases hvalueInt with ⟨x, rfl⟩ | ⟨x₀, x₁, rfl⟩
  · obtain ⟨v₂, hpop₂, hv₂, hx, hkeep⟩ := exec_pop (r := .t0) hv₁ (by decide)
    obtain ⟨v₃, hexec, hv₃, hresult⟩ := exec_shiftWord op ctx i (count.length == 2) hv₂
    rw [show get v₂ .t2 = get v₁ .t2 from hkeep .t2 (by decide),
      show get v₂ .t3 = get v₁ .t3 from hkeep .t3 (by decide), hcounted, hx, h] at hresult
    obtain rfl := Option.some.inj hresult
    have hroom : words.length < stackCapacity := by
      rw [List.length_singleton] at hfits
      omega
    obtain ⟨v', hpush, hv', -⟩ := exec_push (r := .t0) hv₃ (by decide) hroom
    exact ⟨v', ((hpop.append hpop₂).append hexec).append hpush, hv'⟩
  · obtain ⟨v₂, hpop₂, hv₂, hx₀, hkeep⟩ := exec_pop (r := .t0) hv₁ (by decide)
    obtain ⟨v₃, hpop₃, hv₃, hx₁, hkeep'⟩ := exec_pop (r := .t1) hv₂ (by decide)
    obtain ⟨v₄, hexec, hv₄, hresult⟩ := exec_shiftWide op ctx i (count.length == 2) hv₃
    have hvalue₃ : wideResult v₃ = [x₀, x₁] := by
      rw [wideResult, hx₁, show get v₃ .t0 = get v₂ .t0 from hkeep' .t0 (by decide), hx₀]
    rw [show get v₃ .t2 = get v₁ .t2 from (hkeep' .t2 (by decide)).trans (hkeep .t2 (by decide)),
      show get v₃ .t3 = get v₁ .t3 from (hkeep' .t3 (by decide)).trans (hkeep .t3 (by decide)),
      hcounted, hvalue₃, h] at hresult
    obtain rfl := Option.some.inj hresult
    have hroom : words.length + 2 ≤ stackCapacity := by
      rw [List.length_cons, List.length_singleton] at hfits
      omega
    obtain ⟨v', hpush, hv'⟩ := exec_pushWide hv₄ hroom
    exact ⟨v', ((hpop.append hpop₂).append (hpop₃.append hexec)).append hpush, hv'⟩

end Shift

end Stencil.Mips
