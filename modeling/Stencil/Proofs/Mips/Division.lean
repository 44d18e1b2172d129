import Stencil.Mips.Backend
import Stencil.Proofs.Arithmetic.Bits
import Stencil.Proofs.Execution.Turns
import Stencil.Proofs.Mips.Moves

/-!
# Division on MIPS32

Quotient and remainder are left in `lo` and `hi`. The machine refuses a divisor of zero only; the one
quotient that is no word wraps around.
-/

namespace Stencil.Mips

open AddressMap Meaning Stateful

variable {words : List UInt32} {fp : UInt32} {v : View Registers} {ctx : EmitContext} {i : Instruction}
  {e : Effect} {op : BinaryOp}

def divider (signed : Bool) : Instr := .div .t0 .t2 !signed

def answer : BinaryOp → Instr
  | .rem | .remUn => .mfhi .t0
  | _ => .mflo .t0

theorem binaryWord_division (hop : op.isDivision = true) :
    binaryWord op = [divider op.dividesSigned] ++ [answer op] := by
  cases op <;> first | rfl | cases hop

theorem exec_toDivider {a b : UInt32} (hv : v.At (b :: a :: words) fp) :
    ∃ v', Exec (popOperands false) v .next v' ∧ v'.At words fp ∧ get v' .t0 = a ∧ get v' .t2 = b := by
  obtain ⟨v₁, hpop, hv₁, ht2, -⟩ := exec_pop (r := .t2) hv (by decide)
  obtain ⟨v', hpop', hv', ht0, hkeep⟩ := exec_pop (r := .t0) hv₁ (by decide)
  exact ⟨v', hpop.append hpop', hv', ht0, (hkeep .t2 (by decide)).trans ht2⟩

theorem exec_divider (hop : op.isDivision = true) (hv : v.At words fp) (hdivisor : get v .t2 ≠ 0) :
    ∃ v', Exec (binaryWord op) v .next v' ∧ v'.At words fp ∧
      get v' .t0 = ⟨op.onBits (get v .t0).toBitVec (get v .t2).toBitVec⟩ := by
  let answers := quotient (!op.dividesSigned) (get v .t0) (get v .t2)
  have hstep : step v (.one (divider op.dividesSigned)) = some (withHiLo v answers.2 answers.1) :=
    if_neg hdivisor
  have hsteps : Steps (Group.one (divider op.dividesSigned)).code v (withHiLo v answers.2 answers.1) :=
    .plain hstep
  have hdivide : Exec [divider op.dividesSigned] v .next (withHiLo v answers.2 answers.1) :=
    .of_steps hsteps
  have hv₁ : (withHiLo v answers.2 answers.1).At words fp := ⟨hv.words_eq, hv.fp_eq, hv.fits⟩
  rw [binaryWord_division hop]
  cases op with
  | div | divUn =>
    obtain ⟨v', hfetch, hv', hreg⟩ := exec_put (.mflo .t0) .t0 hv₁ rfl rfl
    exact ⟨v', hdivide.append hfetch, hv', hreg .t0⟩
  | rem | remUn =>
    obtain ⟨v', hfetch, hv', hreg⟩ := exec_put (.mfhi .t0) .t0 hv₁ rfl rfl
    exact ⟨v', hdivide.append hfetch, hv', hreg .t0⟩
  | add | sub | mul | and | or | xor => cases hop

theorem cycle_divider (signed : Bool) {p : Program Instr} (hfits : p.code.size ≤ codeLimit) {m : Machine}
    {k : Nat} (hinstr : p.code[k]? = some (divider signed)) (hm : Stands m k v) (hzero : get v .t2 = 0) :
    ∃ t, Machine.cycle p m = .error .divide t := by
  have hread : Machine.get .t2 (m.fetched k) = .ok 0 (m.fetched k) := by
    rw [← hzero, ← (hm.sees.fetched k).reg .t2]
    rfl
  rw [Machine.cycle_at hfits hm.pc hinstr]
  show ∃ t, (Machine.execute p (.div .t0 .t2 !signed) >>= _) _ = _
  rw [Machine.execute, Stateful.bind_apply, bind_of_ok hread, if_pos rfl]
  exact ⟨_, rfl⟩

/-! ## Templates -/

theorem turns_division (hop : op.isDivision = true) {a b : BitVec 32} (hb : b ≠ 0) :
    Turns (popOperands false ++ binaryWord op ++ pushResult false) ([⟨b⟩, ⟨a⟩] ++ words) fp .next
      ([⟨op.onBits a b⟩] ++ words) fp := by
  intro v hv
  have hroom : words.length + 1 + 1 + v.free = stackCapacity := hv.fits
  obtain ⟨v₁, hfront, hv₁, hdividend, hdivisor⟩ := exec_toDivider (show v.At (_ :: _ :: words) fp from hv)
  have hne : get v₁ .t2 ≠ 0 := by
    rw [hdivisor]
    exact fun hzero => hb (congrArg UInt32.toBitVec hzero)
  obtain ⟨v₂, hdivide, hv₂, hresult⟩ := exec_divider hop hv₁ hne
  rw [hdividend, hdivisor] at hresult
  obtain ⟨v', hpush, hv', -⟩ := exec_push (r := .t0) hv₂ (by decide) (by omega)
  rw [hresult] at hv'
  exact ⟨v', (hfront.append hdivide).append hpush, hv'⟩

theorem emit_division (hop : i.op.operation = .binary op) (hsize : (e.operand 0).size = 4) :
    backend.emit ctx i e = { code := popOperands false ++ binaryWord op ++ pushResult false } := by
  have hwide : isWide (e.operand 0) = false := by
    rw [isWide, hsize]
    rfl
  simp only [backend, emit, hop, binary, hwide, Bool.false_eq_true, if_false]
  rfl

theorem trades_division (hop : i.op.operation = .binary op) (hdivision : op.isDivision = true)
    (hsize : (e.operand 0).size = 4) {a b : BitVec 32} (hb : b ≠ 0) :
    Trades backend ctx i e (wordsOf b ++ wordsOf a) .next (wordsOf (op.onBits a b)) := by
  rw [wordsOf_word, wordsOf_word, wordsOf_word]
  exact .of_turns _ (emit_division hop hsize) fun deep fp => turns_division hdivision hb

theorem stops_division (hop : i.op.operation = .binary op) (hdivision : op.isDivision = true)
    (hsize : (e.operand 0).size = 4) (a : BitVec 32) :
    Stops backend ctx i e (wordsOf (0 : BitVec 32) ++ wordsOf a) .divide where
  emitted := by rw [emit_division hop hsize]
  ends {p base m deep fp} hfits hplaced hm := by
    rw [emit_division hop hsize, binaryWord_division hdivision] at hplaced
    rw [wordsOf_word, wordsOf_word] at hm
    obtain ⟨v, hstands, hv⟩ := hm.view
    obtain ⟨v', hfront, -, -, hdivisor⟩ := exec_toDivider hv
    obtain ⟨n, m', k, -, hcycles, rfl, hm'⟩ := hfront.reaches hfits hplaced.front.front
      (fun l hl => by cases hl) hstands
    have hinstr := hplaced.front.back.fetch 0 _ rfl
    exact ⟨n, m', hcycles, cycle_divider op.dividesSigned hfits hinstr hm' hdivisor⟩

end Stencil.Mips
