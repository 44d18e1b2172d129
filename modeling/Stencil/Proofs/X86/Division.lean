import Stencil.Proofs.Arithmetic.Bits
import Stencil.Proofs.Execution.Turns
import Stencil.Proofs.X86.Moves
import Stencil.X86.Backend

/-!
# Division on x86

The dividend is extended to `edx:eax`, and the machine refuses a divisor of zero and a quotient that is
no word.
-/

namespace Stencil.X86

open AddressMap Meaning Meaning.Value Stateful

variable {words : List UInt32} {fp : UInt32} {v : View Registers} {a b : UInt32}

/-! ## The dividend -/

def extend (signed : Bool) : Instr := if signed then .cdq else .aluReg .xor .edx .edx

def divider (signed : Bool) : Instr := if signed then .idiv (.reg .ebx) else .div (.reg .ebx)

/-- Quotients are left where they are and remainders moved there. -/
def answer : BinaryOp → List Instr
  | .rem | .remUn => [.movReg .eax .edx]
  | _ => []

theorem binaryWord_division {op : BinaryOp} (hop : op.isDivision = true) :
    binaryWord op = [extend op.dividesSigned] ++ ([divider op.dividesSigned] ++ answer op) := by
  cases op <;> first | rfl | cases hop

/-- The double word `edx:eax` is the number that a word spells. -/
def Extends (v : View Registers) (signed : Bool) (a : UInt32) : Prop :=
  if signed then Word.signed 64 (accumulator v) = toInt [a] else accumulator v = a.toNat

theorem signed_accumulator (v : View Registers) :
    Word.signed 64 (accumulator v) = toInt [get v .eax, get v .edx] := by
  show Int.bmod (accumulator v : Nat) (Word.modulus 64) = Int.bmod (toNat [_, _] : Nat) (2 ^ 64)
  have hmodulus : Word.modulus 64 = 2 ^ 64 := rfl
  have haccumulator : accumulator v = toNat [get v .eax, get v .edx] := by
    rw [accumulator, toNat_pair]
    omega
  rw [hmodulus, haccumulator]

theorem exec_extend (signed : Bool) (hv : v.At words fp) :
    ∃ v', Exec [extend signed] v .next v' ∧ v'.At words fp ∧ get v' .ebx = get v .ebx ∧
      Extends v' signed (get v .eax) := by
  cases signed with
  | false =>
    obtain ⟨v', hxor, hv', hreg⟩ := exec_put (.aluReg .xor .edx .edx) .edx hv rfl rfl
    refine ⟨v', hxor, hv', hreg .ebx, ?_⟩
    show accumulator v' = _
    rw [accumulator, hreg, hreg, if_pos rfl, if_neg (by decide), alu_xor, UInt32.xor_self]
    simp
  | true =>
    obtain ⟨v', hcdq, hv', hreg⟩ := @exec_put _ _ v .cdq .edx v.regs.flags _ hv rfl rfl
    refine ⟨v', hcdq, hv', hreg .ebx, ?_⟩
    show Word.signed 64 (accumulator v') = _
    have hsign : toInt [get v' .edx] = if (get v .eax).toNat < 0x80000000 then 0 else -1 := by
      have hnat : get v .eax < 0x80000000 ↔ (get v .eax).toNat < 0x80000000 := UInt32.lt_iff_toNat_lt
      rw [hreg, if_pos rfl, if_congr hnat rfl rfl]
      split <;> decide
    rw [signed_accumulator, toInt_pair, hsign, hreg, if_neg (by decide), toInt_word]
    split <;> omega

/-! ## The quotient -/

def Refuses (signed : Bool) (a b : UInt32) : Prop :=
  b = 0 ∨ signed = true ∧ a.toBitVec = BitVec.intMin 32 ∧ b.toBitVec = -1

theorem exec_putPair (instr : Instr) {low high : UInt32} (hv : v.At words fp)
    (hstep : step v instr = (put? v .eax low).bind (put? · .edx high)) :
    ∃ v', Exec [instr] v .next v' ∧ v'.At words fp ∧ get v' .eax = low ∧ get v' .edx = high := by
  obtain ⟨v₁, hlow⟩ : ∃ v₁, put? v .eax low = some v₁ := ⟨_, rfl⟩
  obtain ⟨v', hhigh⟩ : ∃ v', put? v₁ .edx high = some v' := ⟨_, rfl⟩
  rw [hlow, Option.bind_some, hhigh] at hstep
  refine ⟨v', .of_steps (Steps.plain hstep), at_put? (at_put? hv hlow) hhigh, ?_, ?_⟩
  · rw [get_put? hhigh, if_neg (by decide), get_put? hlow, if_pos rfl]
  · rw [get_put? hhigh, if_pos rfl]

theorem exec_divider (signed : Bool) (hv : v.At words fp) (ha : Extends v signed a)
    (hb : get v .ebx = b) (hanswers : ¬Refuses signed a b) :
    ∃ v', Exec [divider signed] v .next v' ∧ v'.At words fp ∧
      get v' .eax = ⟨(if signed then BinaryOp.div else .divUn).onBits a.toBitVec b.toBitVec⟩ ∧
      get v' .edx = ⟨(if signed then BinaryOp.rem else .remUn).onBits a.toBitVec b.toBitVec⟩ := by
  have hdivisor : b ≠ 0 := fun hzero => hanswers (.inl hzero)
  cases signed with
  | false =>
    have hdividend : accumulator v = a.toNat := ha
    have hfits : ¬(b.toNat = 0 ∨ 0x100000000 ≤ a.toNat / b.toNat) := by
      have hword := a.toNat_lt
      have hle := Nat.div_le_self a.toNat b.toNat
      rw [← UInt32.toNat_zero, UInt32.toNat_inj]
      rintro (hzero | hlarge)
      · exact hdivisor hzero
      · omega
    refine exec_putPair _ hv ?_
    show step v (.div (.reg .ebx)) = _
    rw [step, hb, hdividend, if_neg hfits, ← UInt32.toNat_div, ← UInt32.toNat_mod, UInt32.ofNat_toNat,
      UInt32.ofNat_toNat]
    rfl
  | true =>
    have hdividend : Word.signed 64 (accumulator v) = toInt [a] := ha
    have hfits : ¬(toInt [b] = 0 ∨ (toInt [a]).tdiv (toInt [b]) < -0x80000000 ∨
        0x80000000 ≤ (toInt [a]).tdiv (toInt [b])) := by
      rw [toInt_word_eq_zero, tdiv_overflows a b hdivisor]
      rintro (hzero | hleast)
      · exact hdivisor hzero
      · exact hanswers (.inr ⟨rfl, hleast⟩)
    refine exec_putPair _ hv ?_
    show step v (.idiv (.reg .ebx)) = _
    rw [step, hb, hdividend, ← toInt_word_eq, if_neg hfits, toUInt32_ofInt, toUInt32_ofInt, ofInt_tdiv,
      ofInt_tmod]
    rfl

theorem cycle_divider (signed : Bool) {p : Program Instr} (hfits : p.code.size ≤ codeLimit) {m : Machine}
    {k : Nat} (hinstr : p.code[k]? = some (divider signed)) (hm : Stands m k v)
    (ha : Extends v signed a) (hb : get v .ebx = b) (hrefuses : Refuses signed a b) :
    ∃ t, Machine.cycle p m = .error .divide t := by
  have hsees := hm.sees.fetched k
  have hread : Machine.read p (.reg .ebx) (m.fetched k) = .ok b (m.fetched k) := by
    rw [← hb]
    exact read_value hsees rfl
  rw [Machine.cycle_at hfits hm.pc hinstr]
  cases signed with
  | false =>
    have hrefuse : b = 0 ∨ 0x100000000 ≤ accumulator v / b.toNat :=
      hrefuses.imp_right fun h => by cases h.1
    show ∃ t, Machine.execute p _ (.div (.reg .ebx)) _ = _
    rw [Machine.execute, bind_of_ok hread, Machine.divide, bind_of_ok (accumulator_of_sees hsees)]
    dsimp only
    rw [if_pos hrefuse]
    exact ⟨_, rfl⟩
  | true =>
    have hdividend : Word.signed 64 (accumulator v) = toInt [a] := ha
    have hrefuse : toInt [b] = 0 ∨ (toInt [a]).tdiv (toInt [b]) < -0x80000000 ∨
        0x80000000 ≤ (toInt [a]).tdiv (toInt [b]) := by
      by_cases hzero : b = 0
      · exact .inl ((toInt_word_eq_zero b).mpr hzero)
      · refine .inr ((tdiv_overflows a b hzero).mpr ?_)
        exact (hrefuses.resolve_left hzero).2
    show ∃ t, Machine.execute p _ (.idiv (.reg .ebx)) _ = _
    rw [Machine.execute, bind_of_ok hread, Machine.divideSigned, bind_of_ok (accumulator_of_sees hsees),
      hdividend, ← toInt_word_eq]
    dsimp only
    rw [if_pos hrefuse]
    exact ⟨_, rfl⟩

/-! ## Templates -/

variable {ctx : EmitContext} {i : Instruction} {e : Effect} {op : BinaryOp}

theorem refuses_iff {a b : BitVec 32} :
    Refuses op.dividesSigned ⟨a⟩ ⟨b⟩ ↔ b = 0 ∨ QuotientOverflows op a b := by
  have hzero : (⟨b⟩ : UInt32) = 0 ↔ b = 0 :=
    ⟨fun h => congrArg UInt32.toBitVec h, fun h => by rw [h]; rfl⟩
  rw [Refuses, QuotientOverflows, hzero]

theorem exec_toDivider (signed : Bool) (hv : v.At (b :: a :: words) fp) :
    ∃ v', Exec (popOperands false ++ [extend signed]) v .next v' ∧ v'.At words fp ∧ get v' .ebx = b ∧
      Extends v' signed a := by
  obtain ⟨v₁, hpop, hv₁, hebx, -⟩ := exec_popReg (r := .ebx) hv (by decide)
  obtain ⟨v₂, hpop', hv₂, heax, hkeep⟩ := exec_popReg (r := .eax) hv₁ (by decide)
  obtain ⟨v', hextend, hv', hb, ha⟩ := exec_extend signed hv₂
  have hdivisor : get v₂ .ebx = b := (hkeep .ebx (by decide)).trans hebx
  have hdividend : get v₂ .eax = a := heax
  rw [hdivisor] at hb
  rw [hdividend] at ha
  exact ⟨v', (hpop.append hpop').append hextend, hv', hb, ha⟩

theorem turns_division (hop : op.isDivision = true) {a b : BitVec 32} (hb : b ≠ 0)
    (hfits : ¬QuotientOverflows op a b) :
    Turns (popOperands false ++ binaryWord op ++ pushResult false) ([⟨b⟩, ⟨a⟩] ++ words) fp .next
      ([⟨op.onBits a b⟩] ++ words) fp := by
  intro v hv
  have hroom : words.length + 1 + 1 + v.free = stackCapacity := hv.fits
  obtain ⟨v₁, hfront, hv₁, hdivisor, hdividend⟩ := exec_toDivider op.dividesSigned hv
  obtain ⟨v₂, hdivide, hv₂, heax, hedx⟩ := exec_divider op.dividesSigned hv₁ hdividend hdivisor
    fun hrefuses => (refuses_iff.mp hrefuses).elim hb hfits
  obtain ⟨v₃, hanswer, hv₃, hresult⟩ : ∃ v₃, Exec (answer op) v₂ .next v₃ ∧ v₃.At words fp ∧
      get v₃ .eax = ⟨op.onBits a b⟩ := by
    cases op with
    | div | divUn => exact ⟨v₂, .nil, hv₂, heax⟩
    | rem | remUn =>
      obtain ⟨v₃, hmove, hv₃, hreg⟩ := @exec_put _ _ v₂ (.movReg .eax .edx) .eax v₂.regs.flags _ hv₂ rfl rfl
      exact ⟨v₃, hmove, hv₃, (hreg .eax).trans hedx⟩
    | add | sub | mul | and | or | xor => cases hop
  obtain ⟨v', hpush, hv', -⟩ := exec_pushReg (r := .eax) hv₃ (by omega)
  rw [hresult] at hv'
  refine ⟨v', ?_, hv'⟩
  rw [binaryWord_division hop, ← List.append_assoc]
  exact (hfront.append (hdivide.append hanswer)).append hpush

theorem emit_division (hop : i.op.operation = .binary op) (hsize : (e.operand 0).size = 4) :
    backend.emit ctx i e = { code := popOperands false ++ binaryWord op ++ pushResult false } := by
  have hwide : isWide (e.operand 0) = false := by
    rw [isWide, hsize]
    rfl
  simp only [backend, emit, hop, binary, hwide, Bool.false_eq_true, if_false]

theorem trades_division (hop : i.op.operation = .binary op) (hdivision : op.isDivision = true)
    (hsize : (e.operand 0).size = 4) {a b : BitVec 32} (hb : b ≠ 0) (hfits : ¬QuotientOverflows op a b) :
    Trades backend ctx i e (wordsOf b ++ wordsOf a) .next (wordsOf (op.onBits a b)) := by
  rw [wordsOf_word, wordsOf_word, wordsOf_word]
  exact .of_turns _ (emit_division hop hsize) fun deep fp => turns_division hdivision hb hfits

theorem stops_division (hop : i.op.operation = .binary op) (hdivision : op.isDivision = true)
    (hsize : (e.operand 0).size = 4) {a b : BitVec 32} (h : b = 0 ∨ QuotientOverflows op a b) :
    Stops backend ctx i e (wordsOf b ++ wordsOf a) .divide where
  emitted := by rw [emit_division hop hsize]
  ends {p base m deep fp} hfits hplaced hm := by
    rw [emit_division hop hsize, binaryWord_division hdivision, ← List.append_assoc] at hplaced
    rw [wordsOf_word, wordsOf_word] at hm
    obtain ⟨v, hstands, hv⟩ := hm.view
    obtain ⟨v', hfront, -, hdivisor, hdividend⟩ := exec_toDivider op.dividesSigned hv
    obtain ⟨n, m', k, -, hcycles, rfl, hm'⟩ := hfront.reaches hfits hplaced.front.front
      (fun l hl => by cases hl) hstands
    have hinstr := hplaced.front.back.fetch 0 _ rfl
    exact ⟨n, m', hcycles, cycle_divider op.dividesSigned hfits hinstr hm' hdividend hdivisor
      (refuses_iff.mpr h)⟩

end Stencil.X86
