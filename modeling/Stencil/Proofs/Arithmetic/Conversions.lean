import Stencil.Proofs.Arithmetic.Targets
import Stencil.Proofs.Mips.Transfers
import Stencil.Proofs.X86.Transfers

/-!
# Conversions between integers

A conversion cuts a word or a double word down to as many bits as its target has, and extends them to a
slot again by the sign or by zeros; a double word is made from a word in the same way. `ConvertsIntegers`
says so of the templates, on bit vectors, and both targets meet it.
-/

namespace Stencil

open Meaning Meaning.Value

/-! ## On bits -/

/-- Bits are extended by the sign where the target of the conversion has one, and else by zeros. -/
def ConvTarget.extend {w : Nat} (target : ConvTarget) (v : Nat) (a : BitVec w) : BitVec v :=
  if target.isSigned then a.signExtend v else a.setWidth v

namespace Meaning

section Bits

variable {w : Nat} (target : ConvTarget) (a : BitVec w) (bits v : Nat)

/-- The part of a number that some bits hold, in `v` bits. -/
theorem ofInt_part : BitVec.ofInt v
    (if target.isSigned then Int.bmod a.toInt (2 ^ bits) else (a.toNat : Int) % 2 ^ bits) =
      target.extend v (target.extend bits a) := by
  unfold ConvTarget.extend
  split
  · rw [← BitVec.toInt_ofInt]
    rfl
  · rw [← natCast_two_pow, ← Int.natCast_emod, BitVec.ofInt_natCast]
    apply BitVec.eq_of_toNat_eq
    simp

theorem extend_of_le (h : bits ≤ w) : target.extend bits a = a.setWidth bits := by
  unfold ConvTarget.extend
  split
  · exact BitVec.signExtend_eq_setWidth_of_le a h
  · rfl

theorem extend_self : target.extend w a = a := by
  rw [extend_of_le target a w (Nat.le_refl w), BitVec.setWidth_eq]

end Bits

section Words

variable {n : Nat} (hn : IntegerSize n) (target : ConvTarget) (a : BitVec (8 * n))

include hn

/-- The number is taken in the bits of the target first, and these fill one word. -/
theorem convert_wordsOf_narrow (hsize : target.valueSize 4 ≠ 8) :
    convert target (wordsOf a) =
      some (wordsOf (target.extend 32 (a.setWidth (8 * target.valueSize 4)))) := by
  have hbits : 8 * target.valueSize 4 ≤ 8 * n := by
    rcases hn with rfl | rfl <;> cases target <;> simp [ConvTarget.valueSize] at hsize ⊢
  have hwords : ¬8 * target.valueSize 4 = 64 := by omega
  rw [convert_eq (isInteger_wordsOf hn a), if_neg hwords, toInt_wordsOf hn, toNat_wordsOf hn,
    ← extend_of_le target a _ hbits, ← ofInt_part]
  exact congrArg some (ofInt_eq_wordsOf (.inl rfl) 0 _)

/-- For the wide targets the words are those of the number in 64 bits. -/
theorem convert_wordsOf_wide (hsize : target.valueSize 4 = 8) :
    convert target (wordsOf a) = some (wordsOf (target.extend 64 a)) := by
  have hwords : 8 * target.valueSize 4 = 64 := by omega
  rw [convert_eq (isInteger_wordsOf hn a), if_pos hwords, hwords, toInt_wordsOf hn, toNat_wordsOf hn,
    ← extend_self target (target.extend 64 a), ← ofInt_part]
  exact congrArg some (ofInt_eq_wordsOf (.inr rfl) 0 _)

end Words

end Meaning

/-! ## Templates -/

variable {I R M : Type} [TargetInstr I] [LabelUse I] [Semantics I R M]

/-- Conversions to at most a word leave one word: the bits that the target has, extended. Conversions to a
double word leave the operand when it is one, and else the word extended, the low word lowest; that takes
one more word of the stack. -/
structure ConvertsIntegers (backend : Backend I) : Prop where
  narrow : ∀ {ctx : EmitContext} {i : Instruction} {e : Effect} {target : ConvTarget} {n : Nat},
    i.op.operation = .convert (some target) → ctx.options.pointerSize = 4 →
    target.valueSize 4 ≠ 8 → IntegerSize n → (e.operand 0).size = n → ∀ a : BitVec (8 * n),
      Trades backend ctx i e (wordsOf a) .next
        (wordsOf (target.extend 32 (a.setWidth (8 * target.valueSize 4))))
  keep : ∀ {ctx : EmitContext} {i : Instruction} {e : Effect} {target : ConvTarget},
    i.op.operation = .convert (some target) → ctx.options.pointerSize = 4 →
    target.valueSize 4 = 8 → (e.operand 0).size = 8 → ∀ a : BitVec 64,
      Trades backend ctx i e (wordsOf a) .next (wordsOf a)
  widen : ∀ {ctx : EmitContext} {i : Instruction} {e : Effect} {target : ConvTarget},
    i.op.operation = .convert (some target) → ctx.options.pointerSize = 4 →
    target.valueSize 4 = 8 → (e.operand 0).size = 4 → ∀ (a : BitVec 32) {deep : List UInt32} {fp : UInt32},
      2 + deep.length ≤ stackCapacity →
        (backend.emit ctx i e).failure = none ∧
          Passes backend ctx i e fp (wordsOf a ++ deep) .next (wordsOf (target.extend 64 a) ++ deep)

section Templates

variable {backend : Backend I} {ctx : EmitContext} {i : Instruction} {e : Effect}
  {operands results : List UInt32}

/-- Where the results take no more room than the operands there is room for them. -/
theorem Trades.of_passes (hemitted : (backend.emit ctx i e).failure = none)
    (hlength : results.length ≤ operands.length)
    (h : ∀ {deep : List UInt32} {fp : UInt32}, results.length + deep.length ≤ stackCapacity →
      Passes backend ctx i e fp (operands ++ deep) .next (results ++ deep)) :
    Trades backend ctx i e operands .next results where
  emitted := hemitted
  reaches {p base m deep fp} hfits hplaced hlabel hm := by
    have hroom : results.length + deep.length ≤ stackCapacity := by
      obtain ⟨v, -, hv⟩ := hm.view
      have hlength' := hv.fits
      rw [List.length_append] at hlength'
      omega
    exact (h hroom).reaches hfits hplaced hlabel hm

/-- A template that passes alone starts with the first words and gets to the end with the others. -/
theorem Passes.leavesAlone (h : Passes backend dropContext i e 0 operands .next results)
    (hfits : FitsAlone backend i e operands) : LeavesAlone backend i e operands results := by
  obtain ⟨m, hm⟩ := hfits.starts
  refine ⟨m, hm, ?_⟩
  have hreaches := h.reaches hfits.short (ofTemplate_placed hfits.nodup) (fun l hl => by cases hl) hm
  refine hreaches.mono fun m' hm' => ?_
  obtain ⟨k, hleads, hpoised⟩ := hm'
  obtain rfl : k = 0 + _ := hleads
  rwa [Nat.zero_add] at hpoised

theorem MovesValues.convertsIntegers (h : MovesValues backend)
    (hemits : ∀ {ctx : EmitContext} {i : Instruction} {e : Effect} {target : ConvTarget},
      i.op.operation = .convert (some target) → (backend.emit ctx i e).failure = none) :
    ConvertsIntegers backend where
  narrow {_ _ _ target n} hop hpointer hsize hn hoperand a := by
    have hwords := length_wordsOf hn a
    have hresult : (wordsOf (target.extend 32 (a.setWidth (8 * target.valueSize 4)))).length = 1 := rfl
    have hpositive : 4 ≤ n := by rcases hn with rfl | rfl <;> decide
    refine .of_passes (hemits hop) (by omega) fun hroom => ?_
    exact h.convert hop hpointer (convert_wordsOf_narrow hn target a hsize) (by omega) hroom
  keep {_ _ _ target} hop hpointer hsize hoperand a := by
    have hconvert := convert_wordsOf_wide (.inr rfl) target a hsize
    rw [extend_self target a] at hconvert
    refine .of_passes (hemits hop) (Nat.le_refl _) fun hroom => ?_
    exact h.convert hop hpointer hconvert hoperand hroom
  widen {_ _ _ target} hop hpointer hsize hoperand a {_ _} hroom := by
    refine ⟨hemits hop, ?_⟩
    exact h.convert hop hpointer (convert_wordsOf_wide (.inl rfl) target a hsize) hoperand hroom

end Templates

/-- Both targets convert integers. -/
theorem conversions_extend : ConvertsIntegers X86.backend ∧ ConvertsIntegers Mips.backend := by
  constructor
  · apply X86.movesValues.convertsIntegers
    intro _ _ _ _ hop
    simp only [X86.backend, X86.emit, hop]
    rfl
  · apply Mips.movesValues.convertsIntegers
    intro _ _ _ _ hop
    simp only [Mips.backend, Mips.emit, hop]
    rfl

def toLong : Instruction := .placed 0 .convI8 []

def toLongEffect : Effect := { popped := [.int32], pushed := [.int64] }

def toByte : Instruction := .placed 0 .convU1 []

def toByteEffect : Effect := { popped := [.int64], pushed := [.int32] }

/-- Minus two in a double word, and the low byte of one. -/
theorem conversions_extend_both_ways :
    (LeavesAlone X86.backend toLong toLongEffect [0xFFFFFFFE] [0xFFFFFFFE, 0xFFFFFFFF] ∧
      LeavesAlone Mips.backend toLong toLongEffect [0xFFFFFFFE] [0xFFFFFFFE, 0xFFFFFFFF]) ∧
    LeavesAlone X86.backend toByte toByteEffect [0x80, 1] [0x80] ∧
    LeavesAlone Mips.backend toByte toByteEffect [0x80, 1] [0x80] := by
  have hop : toLong.op.operation = .convert (some .i8) := rfl
  have hop' : toByte.op.operation = .convert (some .u1) := rfl
  obtain ⟨hx86, hmips⟩ := conversions_extend
  have hroom : 2 + ([] : List UInt32).length ≤ stackCapacity := by decide
  refine ⟨⟨?_, ?_⟩, ?_, ?_⟩
  · refine Passes.leavesAlone ?_ (X86.fitsAlone rfl (Nat.le_of_ble_eq_true rfl) (by decide))
    exact (hx86.widen hop rfl rfl rfl (-2) hroom).2
  · refine Passes.leavesAlone ?_ (Mips.fitsAlone rfl (Nat.le_of_ble_eq_true rfl) (by decide))
    exact (hmips.widen hop rfl rfl rfl (-2) hroom).2
  · refine Trades.leavesAlone ?_ (X86.fitsAlone rfl (Nat.le_of_ble_eq_true rfl) (by decide))
    exact hx86.narrow hop' rfl (by decide) (.inr rfl) rfl 0x100000080
  · refine Trades.leavesAlone ?_ (Mips.fitsAlone rfl (Nat.le_of_ble_eq_true rfl) (by decide))
    exact hmips.narrow hop' rfl (by decide) (.inr rfl) rfl 0x100000080

end Stencil
