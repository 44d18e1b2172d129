import Stencil.Proofs.X86.Words

/-!
# Comparisons and branches on x86

A template decides its relation and pushes the answer or jumps. Of double words the high ones are
compared first: they decide, or they differ and rule the relation out, or they leave it to the low ones.
-/

namespace Stencil.X86

open Meaning Meaning.Value

variable {words : List UInt32} {fp : UInt32} {v : View Registers}

/-! ## Operands -/

/-- The operands lie in registers: the first in `edx:eax`, the second in `ecx:ebx`. -/
def Operands (v : View Registers) (a b : Value) : Prop :=
  match a, b with
  | [a₀], [b₀] => get v .eax = a₀ ∧ get v .ebx = b₀
  | [a₀, a₁], [b₀, b₁] =>
    get v .eax = a₀ ∧ get v .edx = a₁ ∧ get v .ebx = b₀ ∧ get v .ecx = b₁
  | _, _ => False

theorem exec_popOperands {a b : Value} (hb : b.isInteger = true) (hlength : a.length = b.length)
    (hv : v.At (b ++ (a ++ words)) fp) :
    ∃ v', Exec (popOperands (b.length == 2)) v .next v' ∧ v'.At words fp ∧ Operands v' a b := by
  obtain ⟨_, free, _, regs⟩ := v
  obtain ⟨rfl, rfl, hfits⟩ := hv
  rcases isInteger_cases hb with ⟨b₀, rfl⟩ | ⟨b₀, b₁, rfl⟩
  · obtain ⟨a₀, rfl⟩ := List.length_eq_one_iff.mp hlength
    refine ⟨_, exec_of_run rfl, ⟨rfl, rfl, ?_⟩, rfl, rfl⟩
    simp only [List.length_append, List.length_cons, List.length_nil] at hfits
    show words.length + (free + 2) = _
    omega
  · obtain ⟨a₀, a₁, rfl⟩ := List.length_eq_two.mp hlength
    refine ⟨_, exec_of_run rfl, ⟨rfl, rfl, ?_⟩, rfl, rfl, rfl, rfl⟩
    simp only [List.length_append, List.length_cons, List.length_nil] at hfits
    show words.length + (free + 4) = _
    omega

/-! ## Relations -/

theorem exec_jumpIf (c : Comparison) (a b : Reg) (target : Label) (hv : v.At words fp) :
    ∃ v', Exec (jumpIf c a b target) v
        (if decides c [get v a] [get v b] then .goto target else .next) v' ∧
      v'.At words fp := by
  obtain ⟨v', hcompare, hv', -, hflags⟩ := exec_cmp a hv rfl (rfl : value? v (.reg b) = _)
  have hjump := @exec_jcc v' (.ofComparison c) target
  rw [hflags] at hjump
  exact ⟨v', hcompare.append hjump, hv'⟩

theorem exec_jumpHigh (c : Comparison) (taken : Label) {a b : UInt32}
    (hflags : ∀ c : Comparison, v.regs.flags.holds (.ofComparison c) = decides c [a] [b]) :
    Exec (match c.highWord? with
      | some high => [Instr.jcc (.ofComparison high) taken]
      | none => []) v (if c.highWord?.any (decides · [a] [b]) then .goto taken else .next) v := by
  cases c.highWord? with
  | none => exact .nil
  | some high =>
    have hjump := @exec_jcc v (.ofComparison high) taken
    rw [hflags] at hjump
    exact hjump

/-- A jump when the relation of two double words holds; otherwise control goes on, or to the other
label. -/
theorem exec_jumpIfWide (c : Comparison) (taken notTaken : Label) {a₀ a₁ b₀ b₁ : UInt32}
    (hv : v.At words fp) (hoperands : Operands v [a₀, a₁] [b₀, b₁]) :
    ∃ v' x, Exec (jumpIfWide c taken notTaken) v x v' ∧ v'.At words fp ∧
      if decides c [a₀, a₁] [b₀, b₁] then x = .goto taken else x = .next ∨ x = .goto notTaken := by
  obtain ⟨rfl, rfl, rfl, rfl⟩ := hoperands
  obtain ⟨v₁, hcompare, hv₁, hregs, hflags⟩ := exec_cmp .edx hv rfl (rfl : value? v (.reg .ecx) = _)
  have hhigh := exec_jumpHigh c taken hflags
  have hdiffer := @exec_jcc v₁ .ne notTaken
  have hne : v₁.regs.flags.holds .ne = !(get v .edx == get v .ecx) := by
    rw [show Cond.ne = .ofComparison ⟨.ne, true⟩ from rfl, hflags, decides, toNat_word, toNat_word,
      Bool.eq_iff_iff, decide_eq_true_eq, Bool.not_eq_true', beq_eq_false_iff_ne, ne_eq, UInt32.toNat_inj]
  rw [hne] at hdiffer
  obtain ⟨v₂, hlow, hv₂⟩ := exec_jumpIf c.lowWord .eax .ebx taken hv₁
  rw [hregs, hregs] at hlow
  rw [decides_pair]
  -- the high words decide, or they differ, or the low words decide
  by_cases hdecided : c.highWord?.any (decides · [get v .edx] [get v .ecx]) = true
  · rw [hdecided] at hhigh ⊢
    exact ⟨v₁, _, (hcompare.append hhigh).append_goto.append_goto, hv₁, rfl⟩
  · rw [Bool.not_eq_true] at hdecided
    rw [hdecided] at hhigh ⊢
    have hfront := hcompare.append hhigh
    by_cases hequal : get v .edx = get v .ecx
    · rw [hequal, beq_self_eq_true] at hdiffer ⊢
      refine ⟨v₂, _, (hfront.append hdiffer).append hlow, hv₂, ?_⟩
      rw [Bool.false_or, Bool.true_and]
      split
      · rfl
      · exact .inl rfl
    · rw [beq_false_of_ne hequal] at hdiffer ⊢
      exact ⟨v₁, _, (hfront.append hdiffer).append_goto, hv₁, .inr rfl⟩

theorem exec_jumpWhen (c : Comparison) (taken notTaken : Label) {a b : Value} (hb : b.isInteger = true)
    (hlength : a.length = b.length) (hv : v.At words fp) (hoperands : Operands v a b) :
    ∃ v' x, Exec (if b.length == 2 then jumpIfWide c taken notTaken else jumpIf c .eax .ebx taken) v
        x v' ∧ v'.At words fp ∧
      if decides c a b then x = .goto taken else x = .next ∨ x = .goto notTaken := by
  rcases isInteger_cases hb with ⟨b₀, rfl⟩ | ⟨b₀, b₁, rfl⟩
  · obtain ⟨a₀, rfl⟩ := List.length_eq_one_iff.mp hlength
    obtain ⟨rfl, rfl⟩ := hoperands
    obtain ⟨v', hjump, hv'⟩ := exec_jumpIf c .eax .ebx taken hv
    refine ⟨v', _, hjump, hv', ?_⟩
    split
    · rfl
    · exact .inl rfl
  · obtain ⟨a₀, a₁, rfl⟩ := List.length_eq_two.mp hlength
    exact exec_jumpIfWide c taken notTaken hv hoperands

/-! ## Templates -/

theorem turns_compare (ctx : EmitContext) (i : Instruction) {e : Effect} (op : CompareOp) {a b : Value}
    (hb : b.isInteger = true) (hlength : a.length = b.length)
    (hsize : (e.operand 0).size = 4 * b.length) :
    Turns (compare ctx i e op) (b ++ (a ++ words)) fp .next
      ((if Meaning.compare op a b then 1 else 0) :: words) fp := by
  intro v hv
  have hroom : words.length < stackCapacity := by
    have hfits := hv.fits
    rw [List.length_append, List.length_append] at hfits
    rcases isInteger_cases hb with ⟨b₀, rfl⟩ | ⟨b₀, b₁, rfl⟩ <;> simp at hfits <;> omega
  obtain ⟨v₁, hpop, hv₁, hoperands⟩ := exec_popOperands hb hlength hv
  obtain ⟨v₂, x, hjump, hv₂, hx⟩ := exec_jumpWhen (.ofCompare op) (ctx.inside i "True" 0)
    (ctx.inside i "False" 1) hb hlength hv₁ hoperands
  unfold compare
  dsimp only
  rw [isWide_value hb hsize, compare_eq_decides]
  have hfront := hpop.append hjump
  by_cases hdecides : decides (.ofCompare op) a b = true
  · rw [if_pos hdecides] at hx ⊢
    subst hx
    obtain ⟨v', hpush, hv'⟩ := turns_pushImm 1 hroom v₂ hv₂
    exact ⟨v', hfront.land [Instr.label _, Instr.pushImm 0, Instr.jump _] (hpush.append exec_label), hv'⟩
  · rw [if_neg hdecides] at hx ⊢
    obtain ⟨v', hpush, hv'⟩ := turns_pushImm 0 hroom v₂ hv₂
    have hzero : Exec [Instr.pushImm 0, .jump (ctx.inside i "End" 2), .label (ctx.inside i "True" 0),
        .pushImm 1, .label (ctx.inside i "End" 2)] v₂ .next v' :=
      .land [] (hpush.append (exec_jump [.label _, .pushImm 1])) .nil
    rcases hx with rfl | rfl
    · exact ⟨v', hfront.append (exec_label.append hzero), hv'⟩
    · exact ⟨v', hfront.land [] hzero, hv'⟩

theorem turns_branchTo (ctx : EmitContext) (i : Instruction) {condition : BranchCondition} {c : Comparison}
    (hc : Comparison.ofBranch? condition = some c) (target : Label) {a b : Value}
    (hb : b.isInteger = true) (hlength : a.length = b.length) :
    Turns (branchTo ctx i (b.length == 2) condition target) (b ++ (a ++ words)) fp
      (branchExit (branches condition a b) target) words fp := by
  intro v hv
  obtain ⟨v₁, hpop, hv₁, hoperands⟩ := exec_popOperands hb hlength hv
  unfold branchTo branchExit
  rw [hc, branches_eq_decides hc]
  rcases isInteger_cases hb with ⟨b₀, rfl⟩ | ⟨b₀, b₁, rfl⟩
  · obtain ⟨a₀, rfl⟩ := List.length_eq_one_iff.mp hlength
    obtain ⟨rfl, rfl⟩ := hoperands
    obtain ⟨v', hjump, hv'⟩ := exec_jumpIf c .eax .ebx target hv₁
    exact ⟨v', hpop.append hjump, hv'⟩
  · obtain ⟨a₀, a₁, rfl⟩ := List.length_eq_two.mp hlength
    obtain ⟨v', x, hjump, hv', hx⟩ := exec_jumpIfWide c target (ctx.inside i "Skip" 0) hv₁ hoperands
    refine ⟨v', hpop.append ?_, hv'⟩
    show Exec (jumpIfWide c target (ctx.inside i "Skip" 0) ++ [.label (ctx.inside i "Skip" 0)]) v₁ _ v'
    by_cases hdecides : decides c [a₀, a₁] [b₀, b₁] = true
    · rw [if_pos hdecides] at hx ⊢
      subst hx
      exact hjump.append_goto
    · rw [if_neg hdecides] at hx ⊢
      rcases hx with rfl | rfl
      · exact hjump.append exec_label
      · exact hjump.land [] .nil

theorem exec_jumpZero (onZero : Bool) (target : Label) {zero : Bool} (hzero : v.regs.flags.zero = zero) :
    Exec [Instr.jcc (if onZero then .e else .ne) target] v (branchExit (zero == onZero) target) v := by
  have hjump := @exec_jcc v (if onZero then .e else .ne) target
  have hholds : v.regs.flags.holds (if onZero then .e else .ne) = (zero == onZero) := by
    cases onZero with
    | false =>
      show (!v.regs.flags.zero) = _
      rw [hzero]
      cases zero <;> rfl
    | true =>
      show v.regs.flags.zero = _
      rw [hzero]
      cases zero <;> rfl
  rw [hholds] at hjump
  exact hjump

theorem turns_branchZero (onZero : Bool) (target : Label) {a : Value} (ha : a.isInteger = true) :
    Turns (branchZero (a.length == 2) onZero target) (a ++ words) fp
      (branchExit ((a.toNat == 0) == onZero) target) words fp := by
  intro v hv
  rcases isInteger_cases ha with ⟨a₀, rfl⟩ | ⟨a₀, a₁, rfl⟩
  · obtain ⟨v₁, hpop, hv₁, heax, -⟩ := exec_popReg (r := .eax) hv (by decide)
    obtain ⟨v', htest, hv', -, hzero⟩ := exec_testReg .eax hv₁
    have hflag : v'.regs.flags.zero = (toNat [a₀] == 0) := by
      rw [hzero, show get v₁ .eax = a₀ from heax, beq_zero_word]
    exact ⟨v', (hpop.append htest).append (exec_jumpZero onZero target hflag), hv'⟩
  · obtain ⟨v₁, hlow, hv₁, heax, -⟩ := exec_popReg (r := .eax) hv (by decide)
    obtain ⟨v₂, hhigh, hv₂, hedx, hkeep⟩ := exec_popReg (r := .edx) hv₁ (by decide)
    have hor : Exec [Instr.aluReg .or .eax .edx] v₂ .next _ := exec_of_run rfl
    have hflag : (alu .or 32 (get v₂ .eax) (get v₂ .edx) v₂.regs.flags.carry).2.zero =
        (toNat [a₀, a₁] == 0) := by
      rw [zero_alu_or, show get v₂ .eax = a₀ from (hkeep .eax (by decide)).trans heax,
        show get v₂ .edx = a₁ from hedx, or_beq_zero]
    refine ⟨_, ((hlow.append hhigh).append hor).append (exec_jumpZero onZero target ?_),
      hv₂.words_eq, hv₂.fp_eq, hv₂.fits⟩
    exact hflag

end Stencil.X86
