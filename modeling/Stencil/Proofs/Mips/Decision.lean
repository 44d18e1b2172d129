import Stencil.Proofs.Mips.Words

/-!
# Comparisons and branches on MIPS32

A template decides its relation and pushes the answer or branches. Equality branches at once, and orders
go through `$t8`. Of double words the high ones are compared first: they decide, or they differ and rule
the relation out, or they leave it to the low ones.
-/

namespace Stencil.Mips

open Meaning Meaning.Value

variable {words : List UInt32} {fp : UInt32} {v : View Registers}

/-! ## Operands -/

/-- The operands lie in registers: the first in `$t1:$t0`, the second in `$t3:$t2`. -/
def Operands (v : View Registers) (a b : Value) : Prop :=
  match a, b with
  | [a₀], [b₀] => get v .t0 = a₀ ∧ get v .t2 = b₀
  | [a₀, a₁], [b₀, b₁] => get v .t0 = a₀ ∧ get v .t1 = a₁ ∧ get v .t2 = b₀ ∧ get v .t3 = b₁
  | _, _ => False

theorem exec_popOperands {a b : Value} (hb : b.isInteger = true) (hlength : a.length = b.length)
    (hv : v.At (b ++ (a ++ words)) fp) :
    ∃ v', Exec (popOperands (b.length == 2)) v .next v' ∧ v'.At words fp ∧ Operands v' a b := by
  obtain ⟨_, free, _, regs⟩ := v
  obtain ⟨rfl, rfl, hfits⟩ := hv
  rcases isInteger_cases hb with ⟨b₀, rfl⟩ | ⟨b₀, b₁, rfl⟩
  · obtain ⟨a₀, rfl⟩ := List.length_eq_one_iff.mp hlength
    refine ⟨_, @exec_of_run [.pop .t2, .pop .t0] _ _ rfl, ⟨rfl, rfl, ?_⟩, rfl, rfl⟩
    simp only [List.length_append, List.length_cons, List.length_nil] at hfits
    show words.length + (free + 2) = _
    omega
  · obtain ⟨a₀, a₁, rfl⟩ := List.length_eq_two.mp hlength
    refine ⟨_, @exec_of_run [.pop .t2, .pop .t3, .pop .t0, .pop .t1] _ _ rfl, ⟨rfl, rfl, ?_⟩, rfl, rfl,
      rfl, rfl⟩
    simp only [List.length_append, List.length_cons, List.length_nil] at hfits
    show words.length + (free + 4) = _
    omega

/-! ## Relations -/

theorem exec_setLess (unsigned : Bool) (a b : Reg) (hv : v.At words fp) :
    ∃ v', Exec [Instr.setLess unsigned .t8 a b] v .next v' ∧ v'.At words fp ∧
      get v' .t8 = (if decides ⟨.lt, unsigned⟩ [get v a] [get v b] then 1 else 0) ∧
      ∀ r, r ≠ .t8 → get v' r = get v r := by
  obtain ⟨v', hset, hv', hreg⟩ := exec_put (.setLess unsigned .t8 a b) .t8 hv rfl rfl
  refine ⟨v', hset, hv', ?_, fun r hr => by rw [hreg, if_neg hr]⟩
  rw [hreg, if_pos rfl]
  cases unsigned with
  | false =>
    have hlt : (get v a).toInt32 < (get v b).toInt32 ↔ decides ⟨.lt, false⟩ [get v a] [get v b] = true := by
      rw [decides, decide_eq_true_eq, toInt_word_eq, toInt_word_eq, Int32.lt_iff_toInt_lt]
    exact if_congr hlt rfl rfl
  | true =>
    have hlt : get v a < get v b ↔ decides ⟨.lt, true⟩ [get v a] [get v b] = true := by
      rw [decides, decide_eq_true_eq, toNat_word, toNat_word]
      rfl
    exact if_congr hlt rfl rfl

/-- A branch when two registers are in order, or when they are not. -/
theorem exec_jumpLess (unsigned onEqual : Bool) (a b : Reg) (target : Label) (hv : v.At words fp) :
    ∃ v', Exec (Instr.setLess unsigned .t8 a b :: [Instr.branch onEqual .t8 .zero target, .nop]) v
        (if decides ⟨.lt, unsigned⟩ [get v a] [get v b] = !onEqual then .goto target else .next) v' ∧
      v'.At words fp ∧ ∀ r, r ≠ .t8 → get v' r = get v r := by
  obtain ⟨v', hset, hv', ht8, hreg⟩ := exec_setLess unsigned a b hv
  have hcond : ((get v' .t8 == get v' .zero) = onEqual) ↔
      decides ⟨.lt, unsigned⟩ [get v a] [get v b] = !onEqual := by
    rw [ht8, get_zero]
    cases decides ⟨.lt, unsigned⟩ [get v a] [get v b] <;> cases onEqual <;> decide
  have hjump := @exec_branch v' onEqual .t8 .zero target
  rw [if_congr hcond rfl rfl] at hjump
  exact ⟨v', hset.append hjump, hv', hreg⟩

theorem decides_ge_word (unsigned : Bool) (a b : UInt32) :
    decides ⟨.ge, unsigned⟩ [a] [b] = !decides ⟨.lt, unsigned⟩ [a] [b] := by
  rw [Bool.eq_iff_iff]
  cases unsigned <;> simp [decides]

theorem decides_gt_word (unsigned : Bool) (a b : UInt32) :
    decides ⟨.gt, unsigned⟩ [a] [b] = decides ⟨.lt, unsigned⟩ [b] [a] := by
  cases unsigned <;> rfl

theorem decides_le_word (unsigned : Bool) (a b : UInt32) :
    decides ⟨.le, unsigned⟩ [a] [b] = !decides ⟨.lt, unsigned⟩ [b] [a] := by
  rw [Bool.eq_iff_iff]
  cases unsigned <;> simp [decides]

theorem ite_not_eq_true {α : Type} (holds : Bool) (x y : α) :
    (if (!holds) = true then x else y) = if holds = !true then x else y := by
  cases holds <;> rfl

theorem exec_jumpIf (c : Comparison) (a b : Reg) (target : Label) (hv : v.At words fp) :
    ∃ v', Exec (jumpIf c a b target) v
        (if decides c [get v a] [get v b] then .goto target else .next) v' ∧
      v'.At words fp ∧ ∀ r, r ≠ .t8 → get v' r = get v r := by
  obtain ⟨relation, unsigned⟩ := c
  cases relation with
  | eq =>
    have hcond : ((get v a == get v b) = true) ↔ decides ⟨.eq, unsigned⟩ [get v a] [get v b] = true := by
      rw [decides, decide_eq_true_eq, toNat_word, toNat_word, beq_iff_eq, UInt32.toNat_inj]
    have hjump := @exec_branch v true a b target
    rw [if_congr hcond rfl rfl] at hjump
    exact ⟨v, hjump, hv, fun _ _ => rfl⟩
  | ne =>
    have hcond : ((get v a == get v b) = false) ↔ decides ⟨.ne, unsigned⟩ [get v a] [get v b] = true := by
      rw [decides, decide_eq_true_eq, toNat_word, toNat_word, beq_eq_false_iff_ne, ne_eq, ne_eq,
        UInt32.toNat_inj]
    have hjump := @exec_branch v false a b target
    rw [if_congr hcond rfl rfl] at hjump
    exact ⟨v, hjump, hv, fun _ _ => rfl⟩
  | lt => exact exec_jumpLess unsigned false a b target hv
  | ge =>
    obtain ⟨v', hjump, hv', hreg⟩ := exec_jumpLess unsigned true a b target hv
    refine ⟨v', ?_, hv', hreg⟩
    rw [decides_ge_word, ite_not_eq_true]
    exact hjump
  | gt =>
    rw [decides_gt_word]
    exact exec_jumpLess unsigned false b a target hv
  | le =>
    obtain ⟨v', hjump, hv', hreg⟩ := exec_jumpLess unsigned true b a target hv
    refine ⟨v', ?_, hv', hreg⟩
    rw [decides_le_word, ite_not_eq_true]
    exact hjump

theorem exec_jumpHigh (c : Comparison) (taken : Label) (hv : v.At words fp) :
    ∃ v', Exec (match c.highWord? with
        | some high => jumpIf high .t1 .t3 taken
        | none => []) v
        (if c.highWord?.any (decides · [get v .t1] [get v .t3]) then .goto taken else .next) v' ∧
      v'.At words fp ∧ ∀ r, r ≠ .t8 → get v' r = get v r := by
  cases c.highWord? with
  | none => exact ⟨v, .nil, hv, fun _ _ => rfl⟩
  | some high => exact exec_jumpIf high .t1 .t3 taken hv

/-- A branch when the relation of two double words holds; otherwise control goes on, or to the other
label. -/
theorem exec_jumpIfWide (c : Comparison) (taken notTaken : Label) {a₀ a₁ b₀ b₁ : UInt32}
    (hv : v.At words fp) (hoperands : Operands v [a₀, a₁] [b₀, b₁]) :
    ∃ v' x, Exec (jumpIfWide c taken notTaken) v x v' ∧ v'.At words fp ∧
      if decides c [a₀, a₁] [b₀, b₁] then x = .goto taken else x = .next ∨ x = .goto notTaken := by
  obtain ⟨rfl, rfl, rfl, rfl⟩ := hoperands
  obtain ⟨v₁, hhigh, hv₁, hreg⟩ := exec_jumpHigh c taken hv
  have hdiffer := @exec_branch v₁ false .t1 .t3 notTaken
  rw [hreg .t1 (by decide), hreg .t3 (by decide)] at hdiffer
  obtain ⟨v₂, hlow, hv₂, -⟩ := exec_jumpIf c.lowWord .t0 .t2 taken hv₁
  rw [hreg .t0 (by decide), hreg .t2 (by decide)] at hlow
  rw [decides_pair]
  -- the high words decide, or they differ, or the low words decide
  by_cases hdecided : c.highWord?.any (decides · [get v .t1] [get v .t3]) = true
  · rw [hdecided] at hhigh ⊢
    exact ⟨v₁, _, hhigh.append_goto.append_goto, hv₁, rfl⟩
  · rw [Bool.not_eq_true] at hdecided
    rw [hdecided] at hhigh ⊢
    by_cases hequal : get v .t1 = get v .t3
    · rw [hequal, beq_self_eq_true] at hdiffer ⊢
      refine ⟨v₂, _, (hhigh.append hdiffer).append hlow, hv₂, ?_⟩
      rw [Bool.false_or, Bool.true_and]
      split
      · rfl
      · exact .inl rfl
    · rw [beq_false_of_ne hequal] at hdiffer ⊢
      exact ⟨v₁, _, (hhigh.append hdiffer).append_goto, hv₁, .inr rfl⟩

theorem exec_jumpWhen (c : Comparison) (taken notTaken : Label) {a b : Value} (hb : b.isInteger = true)
    (hlength : a.length = b.length) (hv : v.At words fp) (hoperands : Operands v a b) :
    ∃ v' x, Exec (if b.length == 2 then jumpIfWide c taken notTaken else jumpIf c .t0 .t2 taken) v
        x v' ∧ v'.At words fp ∧
      if decides c a b then x = .goto taken else x = .next ∨ x = .goto notTaken := by
  rcases isInteger_cases hb with ⟨b₀, rfl⟩ | ⟨b₀, b₁, rfl⟩
  · obtain ⟨a₀, rfl⟩ := List.length_eq_one_iff.mp hlength
    obtain ⟨rfl, rfl⟩ := hoperands
    obtain ⟨v', hjump, hv', -⟩ := exec_jumpIf c .t0 .t2 taken hv
    refine ⟨v', _, hjump, hv', ?_⟩
    split
    · rfl
    · exact .inl rfl
  · obtain ⟨a₀, a₁, rfl⟩ := List.length_eq_two.mp hlength
    exact exec_jumpIfWide c taken notTaken hv hoperands

/-! ## Templates -/

theorem exec_pushOne (hv : v.At words fp) (hroom : words.length < stackCapacity) :
    ∃ t v', Exec [Instr.addiu .t8 .zero 1] v .next t ∧ Exec (Instr.push .t8) t .next v' ∧
      v'.At (1 :: words) fp := by
  obtain ⟨t, hset, ht, hreg⟩ := exec_put (.addiu .t8 .zero 1) .t8 hv rfl rfl
  obtain ⟨v', hpush, hv', -⟩ := exec_push (r := .t8) ht (by decide) hroom
  have hone : get t .t8 = 1 := by
    rw [hreg, if_pos rfl]
    rfl
  rw [hone] at hv'
  exact ⟨t, v', hset, hpush, hv'⟩

theorem turns_compare (ctx : EmitContext) (i : Instruction) {e : Effect} (op : CompareOp) {a b : Value}
    (hb : b.isInteger = true) (hlength : a.length = b.length)
    (hsize : (e.operand 0).size = 4 * b.length) :
    Turns (compare ctx i e op) (b ++ (a ++ words)) fp .next
      ((if Meaning.compare op a b then 1 else 0) :: words) fp := by
  intro v hv
  have hroom : words.length < stackCapacity := by
    have hfits := hv.fits
    rw [List.length_append, List.length_append] at hfits
    rcases isInteger_cases hb with ⟨b₀, rfl⟩ | ⟨b₀, b₁, rfl⟩ <;> simp at hfits <;> omega
  obtain ⟨v₁, hpop, hv₁, hoperands⟩ := exec_popOperands hb hlength hv
  obtain ⟨v₂, x, hjump, hv₂, hx⟩ := exec_jumpWhen (.ofCompare op) (ctx.inside i "True" 0)
    (ctx.inside i "False" 1) hb hlength hv₁ hoperands
  unfold compare
  dsimp only
  rw [isWide_value hb hsize, compare_eq_decides]
  have hfront := hpop.append hjump
  by_cases hdecides : decides (.ofCompare op) a b = true
  · rw [if_pos hdecides] at hx ⊢
    subst hx
    obtain ⟨t, v', hset, hpush, hv'⟩ := exec_pushOne hv₂ hroom
    refine ⟨v', .append (.append ?_ hpush) exec_label, hv'⟩
    exact hfront.append_goto.append_goto.append_goto.land [] hset
  · rw [if_neg hdecides] at hx ⊢
    obtain ⟨v', hpush, hv'⟩ := turns_pushZero hroom v₂ hv₂
    refine ⟨v', .land [] (.append_goto (.append_goto (.append (.append ?_ hpush) (.of_jumps .jump)))) .nil,
      hv'⟩
    rcases hx with rfl | rfl
    · exact hfront.append exec_label
    · exact hfront.land [] .nil

theorem turns_branchTo (ctx : EmitContext) (i : Instruction) {condition : BranchCondition} {c : Comparison}
    (hc : Comparison.ofBranch? condition = some c) (target : Label) {a b : Value}
    (hb : b.isInteger = true) (hlength : a.length = b.length) :
    Turns (branchTo ctx i (b.length == 2) condition target) (b ++ (a ++ words)) fp
      (branchExit (branches condition a b) target) words fp := by
  intro v hv
  obtain ⟨v₁, hpop, hv₁, hoperands⟩ := exec_popOperands hb hlength hv
  unfold branchTo branchExit
  rw [hc, branches_eq_decides hc]
  rcases isInteger_cases hb with ⟨b₀, rfl⟩ | ⟨b₀, b₁, rfl⟩
  · obtain ⟨a₀, rfl⟩ := List.length_eq_one_iff.mp hlength
    obtain ⟨rfl, rfl⟩ := hoperands
    obtain ⟨v', hjump, hv', -⟩ := exec_jumpIf c .t0 .t2 target hv₁
    exact ⟨v', hpop.append hjump, hv'⟩
  · obtain ⟨a₀, a₁, rfl⟩ := List.length_eq_two.mp hlength
    obtain ⟨v', x, hjump, hv', hx⟩ := exec_jumpIfWide c target (ctx.inside i "Skip" 0) hv₁ hoperands
    refine ⟨v', hpop.append ?_, hv'⟩
    show Exec (jumpIfWide c target (ctx.inside i "Skip" 0) ++ [.label (ctx.inside i "Skip" 0)]) v₁ _ v'
    by_cases hdecides : decides c [a₀, a₁] [b₀, b₁] = true
    · rw [if_pos hdecides] at hx ⊢
      subst hx
      exact hjump.append_goto
    · rw [if_neg hdecides] at hx ⊢
      rcases hx with rfl | rfl
      · exact hjump.append exec_label
      · exact hjump.land [] .nil

/-- A branch that a register decides by being zero or not. -/
theorem exec_jumpZero (onZero : Bool) (r : Reg) (target : Label) :
    Exec (if onZero then Instr.beq r .zero target else Instr.bne r .zero target) v
      (branchExit ((get v r == 0) == onZero) target) v := by
  have hjump := @exec_branch v onZero r .zero target
  have hcond : ((get v r == get v .zero) = onZero) ↔ ((get v r == 0) == onZero) = true := by
    rw [get_zero, beq_iff_eq]
  rw [if_congr hcond rfl rfl] at hjump
  cases onZero <;> exact hjump

theorem turns_branchZero (onZero : Bool) (target : Label) {a : Value} (ha : a.isInteger = true) :
    Turns (branchZero (a.length == 2) onZero target) (a ++ words) fp
      (branchExit ((a.toNat == 0) == onZero) target) words fp := by
  intro v hv
  rcases isInteger_cases ha with ⟨a₀, rfl⟩ | ⟨a₀, a₁, rfl⟩
  · obtain ⟨v', hpop, hv', ht0, -⟩ := exec_pop (r := .t0) hv (by decide)
    have hjump := @exec_jumpZero v' onZero .t0 target
    rw [ht0, beq_zero_word] at hjump
    exact ⟨v', hpop.append hjump, hv'⟩
  · obtain ⟨v₁, hlow, hv₁, ht0, -⟩ := exec_pop (r := .t0) hv (by decide)
    obtain ⟨v₂, hhigh, hv₂, ht1, hkeep⟩ := exec_pop (r := .t1) hv₁ (by decide)
    obtain ⟨v', hor, hv', hreg⟩ := exec_put (.alu .or .t0 .t0 .t1) .t0 hv₂ rfl rfl
    have hvalue : get v' .t0 = a₀ ||| a₁ := by
      rw [hreg, if_pos rfl, ht1, show get v₂ .t0 = get v₁ .t0 from hkeep .t0 (by decide), ht0]
      rfl
    have hjump := @exec_jumpZero v' onZero .t0 target
    rw [hvalue, or_beq_zero] at hjump
    exact ⟨v', ((hlow.append hhigh).append hor).append hjump, hv'⟩

end Stencil.Mips
