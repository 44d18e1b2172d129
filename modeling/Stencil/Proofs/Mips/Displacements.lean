import Stencil.Proofs.Mips.Accesses
import Stencil.Proofs.Walk.Words

/-!
# Displacements of the MIPS32 templates

A load, a store or an `addiu` has room for a signed halfword. Some templates check that what they add to
a register fits, others do not; `unchecked` lists the amounts that an instruction brings in without a
check. Every displacement of a template is a multiple of what is accessed there, and it is encodable or
lies between zero and an unchecked amount. More than a byte is accessed through the stack and the frame
pointer only, but for the templates that follow pointers to objects (`emit_covers`).
-/

namespace Stencil.Mips

open Stateful

/-- The number has room in a load, a store or an `addiu`. -/
def Encodable (n : Int) : Prop := -32768 ≤ n ∧ n ≤ 32767

instance (n : Int) : Decidable (Encodable n) := inferInstanceAs (Decidable (_ ∧ _))

/-- The bytes that an instruction accesses at once, the register it starts from and the displacement it
encodes. An `addiu` accesses nothing, which leaves its displacement free. -/
def Instr.displacement? : Instr → Option (Nat × Reg × Int32)
  | .load width _ _ offset base | .store width _ offset base => some (width.bytes, base, offset)
  | .aluImm .addiu _ src imm => some (1, src, imm)
  | _ => none

/-- The number is encodable, or one of the amounts is at least as far from zero. -/
def Covered (amounts : List Int) (n : Int) : Prop :=
  Encodable n ∨ ∃ amount ∈ amounts, 0 ≤ n ∧ n ≤ amount ∨ amount ≤ n ∧ n ≤ 0

/-- A single byte is accessed, or the frame, unless pointers may be followed. -/
def Grounded (pointers : Bool) (bytes : Nat) (base : Reg) : Prop :=
  bytes = 1 ∨ base = .sp ∨ base = .fp ∨ pointers = true

instance (pointers : Bool) (bytes : Nat) (base : Reg) : Decidable (Grounded pointers bytes base) :=
  inferInstanceAs (Decidable (_ ∨ _ ∨ _ ∨ _))

theorem Grounded.byte {pointers : Bool} {base : Reg} : Grounded pointers 1 base := .inl rfl

theorem Grounded.sp {pointers : Bool} {bytes : Nat} : Grounded pointers bytes .sp := .inr (.inl rfl)

theorem Grounded.fp {pointers : Bool} {bytes : Nat} : Grounded pointers bytes .fp := .inr (.inr (.inl rfl))

theorem Grounded.pointer {bytes : Nat} {base : Reg} : Grounded true bytes base := .inr (.inr (.inr rfl))

/-- The accesses of the code are grounded, and their displacements are covered multiples of what is
accessed. -/
def Covers (amounts : List Int) (pointers : Bool) (code : List Instr) : Prop :=
  ∀ instr ∈ code, ∀ bytes base imm, instr.displacement? = some (bytes, base, imm) →
    Grounded pointers bytes base ∧ ∃ n : Int, imm = Int32.ofInt n ∧ (bytes : Int) ∣ n ∧ Covered amounts n

section Numbers

variable {amounts : List Int} {n top : Int}

theorem Covered.below (h : Covered amounts top) (hlow : 0 ≤ n) (hle : n ≤ top) : Covered amounts n := by
  rcases h with h | ⟨amount, hamount, h | h⟩
  · exact .inl ⟨by omega, hle.trans h.2⟩
  · exact .inr ⟨amount, hamount, .inl ⟨hlow, hle.trans h.2⟩⟩
  · exact .inl ⟨by omega, by omega⟩

theorem Covered.of_mem (h : n ∈ amounts) : Covered amounts n := by
  rcases Int.le_total 0 n with hsign | hsign
  · exact .inr ⟨n, h, .inl ⟨hsign, Int.le_refl n⟩⟩
  · exact .inr ⟨n, h, .inr ⟨Int.le_refl n, hsign⟩⟩

theorem ofNat_eq_ofInt (n : Nat) : Int32.ofNat n = Int32.ofInt n := (Int32.ofInt_eq_ofNat).symm

theorem displacement_encodable {i : Instruction} {d : Int32} (h : displacement i n = .ok d) :
    Encodable n ∧ d = Int32.ofInt n := by
  refine ⟨?_, displacement_ok h⟩
  unfold displacement at h
  split at h
  · assumption
  · cases h

end Numbers

namespace Covers

variable {amounts : List Int} {pointers : Bool} {code code' : List Instr}

theorem nil : Covers amounts pointers [] := fun _ hinstr => absurd hinstr List.not_mem_nil

theorem append (h : Covers amounts pointers code) (h' : Covers amounts pointers code') :
    Covers amounts pointers (code ++ code') :=
  fun instr hinstr => (List.mem_append.mp hinstr).elim (h instr) (h' instr)

theorem flatMap {α : Type} {f : α → List Instr} (xs : List α) (h : ∀ x ∈ xs, Covers amounts pointers (f x)) :
    Covers amounts pointers (xs.flatMap f) := fun instr hinstr => by
  obtain ⟨x, hx, hinstr⟩ := List.mem_flatMap.mp hinstr
  exact h x hx instr hinstr

theorem replicate (n : Nat) (h : Covers amounts pointers code) :
    Covers amounts pointers (List.replicate n code).flatten := by
  rw [← List.flatMap_id]
  exact flatMap _ fun part hpart => List.eq_of_mem_replicate hpart ▸ h

theorem ite {p : Prop} [Decidable p] (h : Covers amounts pointers code) (h' : Covers amounts pointers code') :
    Covers amounts pointers (if p then code else code') := by
  split
  · exact h
  · exact h'

theorem ofExcept {answer : Except CompileError (List Instr)}
    (h : ∀ code, answer = .ok code → Covers amounts pointers code) :
    Covers amounts pointers (Template.ofExcept answer).code := by
  cases answer with
  | error e => exact .nil
  | ok code => exact h code rfl

theorem one {instr : Instr} {bytes : Nat} {base : Reg} {imm : Int32} {n : Int}
    (h : instr.displacement? = some (bytes, base, imm)) (hbase : Grounded pointers bytes base)
    (himm : imm = Int32.ofInt n) (hdvd : (bytes : Int) ∣ n) (hn : Covered amounts n) :
    Covers amounts pointers [instr] := by
  intro other hother bytes' base' imm' h'
  obtain rfl := List.mem_singleton.mp hother
  obtain ⟨rfl, hpair⟩ := Prod.mk.inj (Option.some.inj (h.symm.trans h'))
  obtain ⟨rfl, rfl⟩ := Prod.mk.inj hpair
  exact ⟨hbase, n, himm, hdvd, hn⟩

theorem cons {instr : Instr} (h : Covers amounts pointers [instr]) (h' : Covers amounts pointers code) :
    Covers amounts pointers (instr :: code) := h.append h'

/-- Displacements that are written down fit. -/
theorem of_eval (h : (code.all fun instr => match instr.displacement? with
    | none => true
    | some (bytes, base, imm) =>
      decide (Grounded pointers bytes base) && imm.toInt % bytes == 0 && decide (Encodable imm.toInt)) = true) :
    Covers amounts pointers code := by
  intro instr hinstr bytes base imm himm
  have hfits := List.all_eq_true.mp h instr hinstr
  rw [himm] at hfits
  simp only [Bool.and_eq_true, decide_eq_true_eq, beq_iff_eq] at hfits
  obtain ⟨⟨hgrounded, hmod⟩, hencodable⟩ := hfits
  exact ⟨hgrounded, imm.toInt, (Int32.ofInt_toInt imm).symm, Int.dvd_of_emod_eq_zero hmod, .inl hencodable⟩

end Covers

/-! ## Values between memory and the stack -/

section Transfer

variable {amounts : List Int} {pointers : Bool} {base : Reg} {offset : Int32} {n : Int} {align : Nat}

theorem drop_covers {bytes : Nat} (h : Covered amounts bytes) : Covers amounts pointers (Instr.drop bytes) :=
  .ite .nil (.one rfl .byte (ofNat_eq_ofInt bytes) (Int.one_dvd _) h)

theorem reserve_covers {bytes : Nat} (h : Covered amounts (-bytes)) : Covers amounts pointers (Instr.reserve bytes) := by
  refine .ite .nil (.one rfl .byte ?_ (Int.one_dvd _) h)
  rw [ofNat_eq_ofInt, Int32.ofInt_neg]

theorem add_ofNat (hoffset : offset = Int32.ofInt n) (k : Nat) :
    offset + Int32.ofNat k = Int32.ofInt (n + k) := by
  rw [hoffset, ofNat_eq_ofInt, ← Int32.ofInt_add]

theorem whole_le {bytes : Nat} {width : Width} (h : wholeWidth? bytes align = some width) :
    width.bytes ≤ align := by
  unfold wholeWidth? at h
  split at h
  · rename_i hle
    unfold Width.ofBytes? at h
    split at h <;> cases h <;> exact hle
  · cases h

/-- An access that is no wider than the alignment allows is grounded if one of that width is. -/
theorem Grounded.narrow {width : Width} (h : Grounded pointers align base) (hle : width.bytes ≤ align) :
    Grounded pointers width.bytes base := by
  refine h.imp_left fun halign => ?_
  cases width <;> simp only [Width.bytes] at hle ⊢ <;> omega

theorem whole_dvd {bytes : Nat} {width : Width} (hknown : align ∈ [1, 2, 4]) (hn : (align : Int) ∣ n)
    (h : wholeWidth? bytes align = some width) : (width.bytes : Int) ∣ n := by
  have hle := whole_le h
  refine Int.dvd_trans ?_ hn
  obtain rfl | rfl | rfl : align = 1 ∨ align = 2 ∨ align = 4 := by simpa using hknown
  all_goals cases width <;> simp only [Width.bytes] at hle ⊢ <;> omega

theorem dvd_four_of_known (hknown : align ∈ [1, 2, 4]) : align ∣ 4 := by
  obtain rfl | rfl | rfl : align = 1 ∨ align = 2 ∨ align = 4 := by simpa using hknown
  all_goals decide

/-- An aligned value that starts at a displacement of its own and whose last byte is covered. -/
structure Spans (amounts : List Int) (align : Nat) (n : Int) (bytes : Nat) : Prop where
  known : align ∈ [1, 2, 4]
  aligned : (align : Int) ∣ n
  low : 0 ≤ n
  last : Covered amounts (n + bytes - 1)

namespace Spans

variable {bytes storage : Nat}

theorem byte (h : Spans amounts align n bytes) {k : Nat} (hk : k < bytes) : Covered amounts (n + k) := by
  have hlow := h.low
  exact h.last.below (by omega) (by omega)

theorem word (h : Spans amounts align n storage) {k : Nat} (hk : k < wordCount storage) :
    Spans amounts align (n + (4 * k : Nat)) (wordBytes storage k) where
  known := h.known
  aligned := Int.dvd_add h.aligned
    (Int.natCast_dvd_natCast.mpr ((dvd_four_of_known h.known).trans (Nat.dvd_mul_right 4 k)))
  low := by
    have hlow := h.low
    omega
  last := by
    have hlow := h.low
    unfold wordCount at hk
    unfold wordBytes
    exact h.last.below (by omega) (by omega)

end Spans

theorem loadValue_covers {bytes : Nat} (hbase : Grounded pointers align base) (hoffset : offset = Int32.ofInt n)
    (h : Spans amounts align n bytes) (hbytes : 0 < bytes) (signed : Bool) :
    Covers amounts pointers (loadValue base offset bytes signed align) := by
  unfold loadValue
  split
  · rename_i width hwidth
    refine .one rfl (hbase.narrow (whole_le hwidth)) hoffset (whole_dvd h.known h.aligned hwidth) ?_
    exact h.last.below h.low (by omega)
  · refine .cons (.one rfl .byte (add_ofNat hoffset _) (Int.one_dvd _) (h.byte (by omega))) ?_
    refine .flatMap _ fun k hk => ?_
    rw [List.mem_reverse, List.mem_range] at hk
    refine .cons (.of_eval rfl) (.cons ?_ (.of_eval rfl))
    exact .one rfl .byte (add_ofNat hoffset k) (Int.one_dvd _) (h.byte (by omega))

theorem storeValue_covers {bytes : Nat} (hbase : Grounded pointers align base) (hoffset : offset = Int32.ofInt n)
    (h : Spans amounts align n bytes) (hbytes : 0 < bytes) :
    Covers amounts pointers (storeValue base offset bytes align) := by
  have hfirst : Covered amounts n := h.last.below h.low (by omega)
  unfold storeValue
  split
  · rename_i width hwidth
    exact .one rfl (hbase.narrow (whole_le hwidth)) hoffset (whole_dvd h.known h.aligned hwidth) hfirst
  · refine .cons (.one rfl .byte hoffset (Int.one_dvd _) hfirst) (.flatMap _ fun k hk => ?_)
    obtain ⟨-, hk⟩ := List.mem_range'_1.mp hk
    refine .cons (.of_eval rfl) ?_
    exact .one rfl .byte (add_ofNat hoffset k) (Int.one_dvd _) (h.byte (by omega))

theorem wordBytes_pos {storage k : Nat} (hk : k < wordCount storage) : 0 < wordBytes storage k := by
  unfold wordCount at hk
  unfold wordBytes
  omega

theorem pushFromMemory_covers {storage : Nat} (hbase : Grounded pointers align base)
    (hoffset : offset = Int32.ofInt n) (h : Spans amounts align n storage) (signed : Bool) :
    Covers amounts pointers (pushFromMemory base offset storage signed align) := by
  refine .flatMap _ fun k hk => ?_
  rw [List.mem_reverse, List.mem_range] at hk
  exact .append (loadValue_covers hbase (add_ofNat hoffset _) (h.word hk) (wordBytes_pos hk) _) (.of_eval rfl)

theorem popToMemory_covers {storage : Nat} (hbase : Grounded pointers align base)
    (hoffset : offset = Int32.ofInt n) (h : Spans amounts align n storage) :
    Covers amounts pointers (popToMemory base offset storage align) := by
  refine .flatMap _ fun k hk => ?_
  rw [List.mem_range] at hk
  exact .append (.of_eval rfl) (storeValue_covers hbase (add_ofNat hoffset _) (h.word hk) (wordBytes_pos hk))

theorem zeroWidth_le (halign : 0 < align) (left : Nat) : (zeroWidth align left).bytes ≤ align := by
  unfold zeroWidth
  split_ifs <;> simp only [Width.bytes] <;> omega

theorem zeroFrom_covers {last : Nat} (hbase : Grounded pointers align base) (hknown : align ∈ [1, 2, 4])
    (hlast : Covered amounts last) {done left : Nat}
    (hword : 4 ≤ align → 4 ≤ left → done % 4 = 0) (hhalf : 2 ≤ align → 2 ≤ left → done % 2 = 0)
    (hend : done + left ≤ last + 1) : Covers amounts pointers (zeroFrom base 0 align done left) := by
  fun_induction zeroFrom base 0 align done left with
  | case1 done left hleft width ih =>
    obtain ⟨hwidth, hword', hhalf'⟩ : width.bytes ≤ left ∧ _ ∧ _ := zeroWidth_next hword hhalf hleft
    have haligned : (0 + done) % width.bytes = 0 :=
      zeroWidth_aligned hknown (Nat.zero_mod align) hword hhalf
    rw [Nat.zero_add] at haligned
    have hpos : 0 < align := Nat.pos_of_dvd_of_pos (dvd_four_of_known hknown) (by decide)
    have hoffset : 0 + Int32.ofNat done = Int32.ofInt done := by rw [Int32.zero_add, ofNat_eq_ofInt]
    refine .cons (.one rfl (hbase.narrow (zeroWidth_le hpos left)) hoffset ?_ ?_)
      (ih hword' hhalf' (by omega))
    · exact Int.natCast_dvd_natCast.mpr (Nat.dvd_of_mod_eq_zero haligned)
    · exact hlast.below (by omega) (by omega)
  | case2 => exact .nil

end Transfer

/-! ## What is not checked -/

/-- The farthest that a call reaches from the stack pointer while it trades arguments for a result: a
result of more than two words is copied up over the arguments, the others are kept in registers. -/
def tradeReach (ret args : Nat) : Int := if 8 < ret then (args : Int) + ret - 4 else args

def lastByte : Except CompileError Access → List Int
  | .ok access => [(access.storage : Int) - 1]
  | .error _ => []

/-- What the template of an instruction adds to registers without a check that it is encodable. -/
def unchecked (ctx : EmitContext) (i : Instruction) (e : Effect) : List Int :=
  let layout := ctx.options.layout
  match i.op.operation with
  | .pop => [((e.operand 0).size : Int)]
  | .leave => [(e.poppedBytes : Int)]
  | .call => [-(e.pushedBytes : Int), tradeReach e.pushedBytes e.poppedBytes]
  | .callIndirect =>
    [-(e.pushedBytes : Int), tradeReach e.pushedBytes e.bytesBelow]
  | .callVirtual =>
    [-(e.pushedBytes : Int), tradeReach e.pushedBytes e.poppedBytes, layout.typePointer, layout.typeMethodTable]
  | .loadIndirect kind | .storeIndirect kind => lastByte (ctx.kindAccess i kind)
  | .initObject => lastByte (ctx.typeAccess i)
  | .loadLength | .loadElement _ | .loadElementAddress | .storeElement _ => [layout.arrayLength]
  | .isInstance | .castClass => [layout.typePointer, layout.typeBase]
  | _ => []

/-- The template follows pointers by words: those to objects, arrays and static fields, and others where the
policy takes them as aligned. -/
def followsPointers (ctx : EmitContext) (i : Instruction) : Bool :=
  match i.op.operation with
  | .loadField | .storeField | .loadStatic | .storeStatic | .loadLength | .loadElement _ | .loadElementAddress
  | .storeElement _ | .callVirtual | .isInstance | .castClass => true
  | .loadIndirect _ | .storeIndirect _ | .initObject => ctx.policy.assumeAligned
  | _ => false

/-- Pointers have one word, and the layout, the frame and the operands are made of whole words. -/
structure Wordwise (ctx : EmitContext) (e : Effect) : Prop where
  pointerSize : ctx.options.pointerSize = 4
  layout : ∀ offset ∈ ctx.options.layout.offsets.map Prod.snd, 4 ∣ offset
  slots : ∀ isArg : Bool, ∀ slot ∈ (if isArg then ctx.frame.args else ctx.frame.locals), 4 ∣ slot.offset.toInt
  popped : ∀ item ∈ e.popped, item.Whole
  pushed : ∀ item ∈ e.pushed, item.Whole

namespace Wordwise

variable {ctx : EmitContext} {e : Effect} (h : Wordwise ctx e)

include h

theorem operand (depth : Nat) : 4 ∣ (e.operand depth).size := by
  unfold Effect.operand
  cases hitem : e.popped[depth]? with
  | none => exact Nat.dvd_refl 4
  | some item => exact h.popped item (List.mem_of_getElem? hitem)

theorem result : 4 ∣ e.result.size := by
  unfold Effect.result
  cases hitem : e.pushed.getLast? with
  | none => exact Nat.dvd_refl 4
  | some item => exact h.pushed item (List.mem_of_getLast? hitem)

theorem poppedBytes : 4 ∣ e.poppedBytes := dvd_countBytes.mpr (dvd_totalBytes h.popped)

theorem bytesBelow : 4 ∣ e.bytesBelow := by
  have hpopped := h.poppedBytes
  have hsize := h.operand 0
  rw [Effect.bytesBelow, UInt32.toNat_sub, UInt32.toNat_ofNat', UInt32.toNat_ofNat']
  omega

theorem paramBytes {i : Instruction} {params : List TypeId} {bytes : Nat}
    (hbytes : ctx.paramBytes i params = .ok bytes) : 4 ∣ bytes := by
  obtain ⟨items, hitems, hbytes⟩ := answer_bind.mp hbytes
  obtain rfl := Except.ok.inj hbytes
  have hshapes : TypeShapes { tables := ctx.tables, frame := ctx.frame, pointerSize := 4 } i params items := by
    rw [h.pointerSize] at hitems
    exact answer_mapM.mp hitems
  exact dvd_countBytes.mpr (Nat.dvd_of_mod_eq_zero hshapes.shaped.totalBytes_mod)

end Wordwise

/-! ## Parts of templates -/

section Parts

variable {amounts : List Int} {pointers : Bool} {ctx : EmitContext} {i : Instruction} {e : Effect}

theorem pushImm_covers (imm : Int32) : Covers amounts pointers (Instr.pushImm imm) :=
  .ite (.of_eval rfl) (.of_eval rfl)

theorem nullCheck_covers (reg : Reg) : Covers amounts pointers (nullCheck ctx i reg) := .of_eval rfl

theorem guardIndirect_covers (reg : Reg) : Covers amounts pointers (guardIndirect ctx i reg) :=
  .ite (nullCheck_covers reg) .nil

theorem layout_covers (h : Wordwise ctx e) {offset : Nat}
    (hmem : offset ∈ ctx.options.layout.offsets.map Prod.snd) (hoffset : (offset : Int) ∈ amounts)
    (dst base : Reg) : Covers amounts true [Instr.lw dst (Int32.ofNat offset) base] :=
  .one rfl .pointer (ofNat_eq_ofInt offset) (Int.natCast_dvd_natCast.mpr (h.layout offset hmem)) (.of_mem hoffset)

theorem elementBase_covers (h : Wordwise ctx e) (hlength : (ctx.options.layout.arrayLength : Int) ∈ amounts)
    (array index : Reg) (stride : Nat) : Covers amounts true (elementBase ctx i array index stride) := by
  refine .append (.append (nullCheck_covers array) ?_) ?_
  · refine .append (.append (.append (.append (.append (.of_eval rfl) (.cons ?_ (.of_eval rfl))) (.of_eval rfl))
      (.of_eval rfl)) (.of_eval rfl)) (.of_eval rfl)
    exact layout_covers h (by simp [ObjectLayout.offsets]) hlength .t4 array
  · unfold scaleIndex
    split
    · split <;> exact .of_eval rfl
    · exact .of_eval rfl

theorem slideResult_covers {args k : Nat} (hargs : 4 ∣ args) (hreach : Covered amounts (args + 4 * k : Nat)) :
    Covers amounts pointers (slideResult args k) := by
  refine .cons (.one rfl .sp (ofNat_eq_ofInt _) (Int.natCast_dvd_natCast.mpr ⟨k, rfl⟩) ?_)
    (.one rfl .sp (add_ofNat (ofNat_eq_ofInt args) _) ?_ ?_)
  · exact hreach.below (by omega) (by omega)
  · simp only [Width.bytes]
    omega
  · exact hreach

theorem afterCall_covers {ret args : Nat} (hargs : 4 ∣ args) (hreach : tradeReach ret args ∈ amounts) :
    Covers amounts pointers (afterCall ret args) := by
  have hcovered := Covered.of_mem hreach
  have hdrop : Covers amounts pointers (Instr.drop args) := by
    refine drop_covers (hcovered.below (by omega) ?_)
    unfold tradeReach
    split <;> omega
  unfold afterCall
  split
  · exact .nil
  · split
    · exact hdrop
    · exact .append (.append (.of_eval rfl) hdrop) (.of_eval rfl)
    · exact .append (.append (.append (.of_eval rfl) hdrop) (.of_eval rfl)) (.of_eval rfl)
    · rename_i hne
      refine .append (.flatMap _ fun k hk => slideResult_covers hargs (hcovered.below (by omega) ?_)) hdrop
      rw [List.mem_reverse, List.mem_range] at hk
      have hlarge : ret ≠ 8 := hne
      unfold tradeReach
      split <;> omega

end Parts

/-! ## Integers and decisions -/

section Integers

variable {amounts : List Int} {pointers : Bool} {ctx : EmitContext} {i : Instruction} {e : Effect} {code : List Instr}

theorem binary_covers {op : BinaryOp} (hcode : binary i e op = .ok code) : Covers amounts pointers code := by
  unfold binary at hcode
  split at hcode <;> cases op <;> cases hcode <;> exact .of_eval rfl

theorem unary_covers (op : UnaryOp) : Covers amounts pointers (unary e op) := by
  unfold unary
  cases isWide (e.operand 0) <;> cases op <;> exact .of_eval rfl

theorem shiftWide_covers (op : Stencil.ShiftOp) (wideCount : Bool) :
    Covers amounts pointers (shiftWide ctx i op wideCount) := by
  have hacross : Covers amounts pointers (shiftAcross op) := by cases op <;> exact .of_eval rfl
  have hover : Covers amounts pointers (shiftOver op) := by cases op <;> exact .of_eval rfl
  have hout : Covers amounts pointers (shiftOut op) := by cases op <;> exact .of_eval rfl
  refine .append (.append (.append (.append (.append (.append (.append (.append (.append (.append (.append (.append
    (.append (.append (.ite ?_ .nil) ?_) ?_) ?_) ?_) ?_) ?_) hacross) ?_) ?_) hover) ?_) ?_) hout) ?_ <;>
    exact .of_eval rfl

theorem shift_covers (op : Stencil.ShiftOp) : Covers amounts pointers (shift ctx i e op) := by
  refine .append (.append (.append (.append (.of_eval rfl) (.ite (.of_eval rfl) .nil)) (.of_eval rfl)) ?_)
    (.ite (.of_eval rfl) (.of_eval rfl))
  refine .ite (.append (.of_eval rfl) (shiftWide_covers op _)) ?_
  cases isWide (e.operand 0) <;> cases op <;> exact .of_eval rfl

theorem convertTo_covers (pointerSize size : Nat) (target : ConvTarget) :
    Covers amounts pointers (convertTo pointerSize size target) := by
  unfold convertTo
  split
  · exact .nil
  · exact .nil
  · generalize target.isSigned = signed
    cases signed <;> exact .of_eval rfl
  · refine .append (.append (.append (.of_eval rfl) (.ite (.of_eval rfl) .nil)) ?_) (.of_eval rfl)
    exact .ite (.ite (.of_eval rfl) (.of_eval rfl)) .nil

theorem jumpIf_covers (c : Comparison) (a b : Reg) (target : Label) :
    Covers amounts pointers (jumpIf c a b target) := by
  unfold jumpIf
  split <;> exact .of_eval rfl

theorem jumpIfWide_covers (c : Comparison) (taken notTaken : Label) :
    Covers amounts pointers (jumpIfWide c taken notTaken) := by
  refine .append (.append ?_ (.of_eval rfl)) (jumpIf_covers _ _ _ _)
  split
  · exact jumpIf_covers _ _ _ _
  · exact .nil

theorem popOperands_covers (wide : Bool) : Covers amounts pointers (popOperands wide) := by
  cases wide <;> exact .of_eval rfl

theorem compare_covers (op : CompareOp) : Covers amounts pointers (compare ctx i e op) := by
  refine .append (.append (.append (.append (.append (.append (.append (popOperands_covers _) ?_) ?_) ?_) ?_) ?_)
    ?_) ?_
  · exact .ite (jumpIfWide_covers _ _ _) (jumpIf_covers _ _ _ _)
  all_goals exact .of_eval rfl

theorem branch_covers {condition : BranchCondition} (hcode : branch ctx i e condition = .ok code) :
    Covers amounts pointers code := by
  obtain ⟨t, -, hcode⟩ := answer_bind.mp hcode
  obtain ⟨target, -, hcode⟩ := answer_bind.mp hcode
  obtain rfl := Except.ok.inj hcode
  unfold branchTo
  split
  · exact (popOperands_covers _).append
      (.ite (.append (jumpIfWide_covers _ _ _) (.of_eval rfl)) (jumpIf_covers _ _ _ _))
  · refine .ite (.of_eval rfl) ?_
    unfold branchZero
    cases isWide (e.operand 0) <;> cases condition <;> exact .of_eval rfl

theorem switchCases_covers (targets : List Int) (case : Nat) :
    Covers amounts pointers (switchCases ctx i case targets).code := by
  induction targets generalizing case with
  | nil => exact .nil
  | cons target rest ih =>
    unfold switchCases
    split
    · exact .nil
    · exact .append (.of_eval rfl) (ih (case + 1))

theorem switch_covers : Covers amounts pointers (switch ctx i).code := by
  unfold switch
  split
  · exact .nil
  · exact .append (.of_eval rfl) (switchCases_covers _ 0)

theorem leave_covers (hcode : leave ctx i e = .ok code) : Covers [(e.poppedBytes : Int)] pointers code := by
  obtain ⟨t, -, hcode⟩ := answer_bind.mp hcode
  obtain ⟨target, -, hcode⟩ := answer_bind.mp hcode
  obtain rfl := Except.ok.inj hcode
  exact .append (drop_covers (.of_mem List.mem_cons_self)) (.of_eval rfl)

end Integers

/-! ## Frames, loads and stores -/

section Storage

variable {amounts : List Int} {pointers : Bool} {ctx : EmitContext} {i : Instruction} {e : Effect} {code : List Instr}

theorem ret_covers (hcode : ret ctx i e = .ok code) : Covers amounts pointers code := by
  obtain ⟨value, hvalue, hcode⟩ := answer_bind.mp hcode
  obtain rfl := Except.ok.inj hcode
  refine .append ?_ (.of_eval rfl)
  unfold returnValue at hvalue
  split at hvalue
  · obtain rfl := Except.ok.inj hvalue
    exact .nil
  · obtain rfl := Except.ok.inj hvalue
    exact .of_eval rfl
  · obtain rfl := Except.ok.inj hvalue
    exact .of_eval rfl
  · obtain ⟨_, hend, hvalue⟩ := answer_bind.mp hvalue
    obtain rfl := Except.ok.inj hvalue
    obtain ⟨hend, -⟩ := displacement_encodable hend
    refine .flatMap _ fun k hk => .append (.of_eval rfl) ?_
    rw [List.mem_range] at hk
    have hslot : Frame.returnSlot.toInt = 8 := rfl
    refine .one rfl .fp (add_ofNat (Int32.ofInt_toInt Frame.returnSlot).symm _) ?_ (.inl ?_)
    · simp only [Width.bytes, hslot]
      omega
    · unfold Encodable at hend ⊢
      omega

theorem slot_covered {isArg : Bool} {words : Nat} {base : Int32} (h : Wordwise ctx e)
    (hreach : reachableSlot ctx i isArg = .ok (words, base)) :
    ∃ n : Int, base = Int32.ofInt n ∧ 4 ∣ n ∧ Encodable n ∧ Encodable (n + 4 * words) := by
  obtain ⟨slot, hslot, hreach⟩ := answer_bind.mp hreach
  obtain ⟨base', hbase, hreach⟩ := answer_bind.mp hreach
  obtain ⟨_, hend, hreach⟩ := answer_bind.mp hreach
  obtain ⟨rfl, rfl⟩ := Prod.mk.inj (Except.ok.inj hreach)
  obtain ⟨hstart, hbase⟩ := displacement_encodable hbase
  refine ⟨slot.offset.toInt, hbase, h.slots isArg slot ?_, hstart, (displacement_encodable hend).1⟩
  obtain ⟨index, -, hslot⟩ := answer_bind.mp hslot
  split at hslot
  · rename_i slot' hat
    obtain rfl := Except.ok.inj hslot
    exact List.mem_of_getElem? hat
  · cases hslot

theorem slotWord_covers {base : Int32} {n : Int} {words k : Nat} (hbase : base = Int32.ofInt n) (haligned : 4 ∣ n)
    (hstart : Encodable n) (hend : Encodable (n + 4 * words)) (hk : k < words) {instr : Instr}
    (hinstr : instr.displacement? = some (4, .fp, base + Int32.ofNat (4 * k))) :
    Covers amounts pointers [instr] := by
  refine .one hinstr .fp (add_ofNat hbase _) ?_ (.inl ?_)
  · omega
  · unfold Encodable at hstart hend ⊢
    omega

theorem loadSlot_covers {isArg : Bool} (h : Wordwise ctx e) (hcode : loadSlot ctx i isArg = .ok code) :
    Covers amounts pointers code := by
  obtain ⟨⟨words, base⟩, hreach, hcode⟩ := answer_bind.mp hcode
  obtain rfl := Except.ok.inj hcode
  obtain ⟨n, hbase, haligned, hstart, hend⟩ := slot_covered h hreach
  refine .flatMap _ fun k hk => .cons ?_ (.of_eval rfl)
  rw [List.mem_reverse, List.mem_range] at hk
  exact slotWord_covers hbase haligned hstart hend hk rfl

theorem storeSlot_covers {isArg : Bool} (h : Wordwise ctx e) (hcode : storeSlot ctx i isArg = .ok code) :
    Covers amounts pointers code := by
  obtain ⟨⟨words, base⟩, hreach, hcode⟩ := answer_bind.mp hcode
  obtain rfl := Except.ok.inj hcode
  obtain ⟨n, hbase, haligned, hstart, hend⟩ := slot_covered h hreach
  refine .flatMap _ fun k hk => .append (.of_eval rfl) ?_
  exact slotWord_covers hbase haligned hstart hend (List.mem_range.mp hk) rfl

theorem slotAddress_covers {isArg : Bool} (h : Wordwise ctx e) (hcode : slotAddress ctx i isArg = .ok code) :
    Covers amounts pointers code := by
  obtain ⟨⟨words, base⟩, hreach, hcode⟩ := answer_bind.mp hcode
  obtain rfl := Except.ok.inj hcode
  obtain ⟨n, hbase, haligned, hstart, hend⟩ := slot_covered h hreach
  exact .cons (.one rfl .byte hbase (Int.one_dvd n) (.inl hstart)) (.of_eval rfl)

theorem loadConst_covers (hcode : loadConst i = .ok code) : Covers amounts pointers code := by
  unfold loadConst at hcode
  split at hcode
  · obtain ⟨value, -, rfl⟩ := answer_map.mp hcode
    exact (pushImm_covers _).append (pushImm_covers _)
  · obtain ⟨value, -, rfl⟩ := answer_map.mp hcode
    exact pushImm_covers value

theorem loadSymbol_covers {symbol : Except CompileError Symbol} (hcode : loadSymbol symbol = .ok code) :
    Covers amounts pointers code := by
  obtain ⟨s, -, rfl⟩ := answer_map.mp hcode
  exact .of_eval rfl

theorem sizeOf_covers (hcode : sizeOf ctx i = .ok code) : Covers amounts pointers code := by
  obtain ⟨access, -, rfl⟩ := answer_map.mp hcode
  exact pushImm_covers _

theorem dup_covers (h : Wordwise ctx e) (hcode : dup i e = .ok code) : Covers amounts pointers code := by
  obtain ⟨offset, hoffset, hcode⟩ := answer_bind.mp hcode
  obtain rfl := Except.ok.inj hcode
  obtain ⟨hencodable, hoffset⟩ := displacement_encodable hoffset
  have hsize := h.result
  refine .replicate _ (.cons (.one rfl .sp hoffset ?_ (.inl hencodable)) (.of_eval rfl))
  simp only [Width.bytes]
  omega

theorem pop_covers : Covers [((e.operand 0).size : Int)] pointers (pop e) :=
  .append (.ite (.of_eval rfl) .nil) (drop_covers (.of_mem List.mem_cons_self))

/-- The value of a field lies behind an aligned and encodable displacement. -/
theorem field_spans {field : FieldDescriptor} {access : Access} {offset : Int32}
    (hreach : reachableField ctx i = .ok (field, access, offset)) :
    offset = Int32.ofInt field.offset ∧ Spans amounts (offsetAlignment field.offset) field.offset access.storage ∧
      Spans amounts 4 0 access.storage := by
  obtain ⟨⟨field', access'⟩, -, hreach⟩ := answer_bind.mp hreach
  obtain ⟨offset', hoffset, hreach⟩ := answer_bind.mp hreach
  obtain ⟨_, hend, hreach⟩ := answer_bind.mp hreach
  obtain ⟨rfl, hpair⟩ := Prod.mk.inj (Except.ok.inj hreach)
  obtain ⟨rfl, rfl⟩ := Prod.mk.inj hpair
  obtain ⟨-, hend⟩ := (displacement_encodable hend).1
  refine ⟨(displacement_encodable hoffset).2, ⟨offsetAlignment_known _, ?_, by omega, .inl ⟨by omega, by omega⟩⟩,
    ⟨by decide, Int.dvd_zero 4, Int.le_refl 0, .inl ⟨by omega, by omega⟩⟩⟩
  unfold offsetAlignment
  split_ifs <;> omega

theorem loadField_covers (hcode : loadField ctx i = .ok code) : Covers amounts true code := by
  obtain ⟨⟨field, access, offset⟩, hreach, hcode⟩ := answer_bind.mp hcode
  obtain rfl := Except.ok.inj hcode
  obtain ⟨hoffset, hspans, -⟩ := field_spans hreach
  exact .append (.append (.of_eval rfl) (nullCheck_covers .t0)) (pushFromMemory_covers .pointer hoffset hspans _)

theorem loadFieldAddress_covers (hcode : loadFieldAddress ctx i = .ok code) : Covers amounts pointers code := by
  obtain ⟨⟨field, access, offset⟩, hreach, hcode⟩ := answer_bind.mp hcode
  obtain rfl := Except.ok.inj hcode
  obtain ⟨_, -, hreach⟩ := answer_bind.mp hreach
  obtain ⟨offset', hoffset, hreach⟩ := answer_bind.mp hreach
  obtain ⟨_, -, hreach⟩ := answer_bind.mp hreach
  obtain ⟨-, hpair⟩ := Prod.mk.inj (Except.ok.inj hreach)
  obtain ⟨-, rfl⟩ := Prod.mk.inj hpair
  obtain ⟨hencodable, hoffset⟩ := displacement_encodable hoffset
  refine .append (.append (.append (.of_eval rfl) (nullCheck_covers .t0)) ?_) (.of_eval rfl)
  exact .one rfl .byte hoffset (Int.one_dvd _) (.inl hencodable)

/-- What lies under the value on top is reached by a checked displacement. -/
theorem under_covers (h : Wordwise ctx e) {value : Int32}
    (hvalue : displacement i (e.operand 0).size = .ok value) :
    Covers amounts pointers [Instr.lw .t0 value .sp] := by
  obtain ⟨hencodable, hvalue⟩ := displacement_encodable hvalue
  exact .one rfl .sp hvalue (Int.natCast_dvd_natCast.mpr (h.operand 0)) (.inl hencodable)

theorem storeField_covers (h : Wordwise ctx e) (hcode : storeField ctx i e = .ok code) :
    Covers amounts true code := by
  obtain ⟨⟨field, access, offset⟩, hreach, hcode⟩ := answer_bind.mp hcode
  obtain ⟨value, hvalue, hcode⟩ := answer_bind.mp hcode
  obtain rfl := Except.ok.inj hcode
  obtain ⟨hoffset, hspans, -⟩ := field_spans hreach
  exact .append (.append (.append (under_covers h hvalue) (nullCheck_covers .t0))
    (popToMemory_covers .pointer hoffset hspans)) (.of_eval rfl)

theorem loadStatic_covers (hcode : loadStatic ctx i = .ok code) : Covers amounts true code := by
  obtain ⟨⟨field, access, offset⟩, hreach, hcode⟩ := answer_bind.mp hcode
  obtain rfl := Except.ok.inj hcode
  exact .cons (.of_eval rfl) (pushFromMemory_covers .pointer rfl (field_spans hreach).2.2 _)

theorem loadStaticAddress_covers (hcode : loadStaticAddress ctx i = .ok code) : Covers amounts pointers code := by
  obtain ⟨⟨field, access, offset⟩, -, hcode⟩ := answer_bind.mp hcode
  obtain rfl := Except.ok.inj hcode
  exact .of_eval rfl

theorem storeStatic_covers (hcode : storeStatic ctx i = .ok code) : Covers amounts true code := by
  obtain ⟨⟨field, access, offset⟩, hreach, hcode⟩ := answer_bind.mp hcode
  obtain rfl := Except.ok.inj hcode
  exact .cons (.of_eval rfl) (popToMemory_covers .pointer rfl (field_spans hreach).2.2)

/-- Nothing bounds a value behind a raw pointer. -/
theorem indirect_spans (access : Access) :
    Spans (lastByte (.ok access)) (indirectAlignment ctx access) 0 access.storage where
  known := indirectAlignment_known
  aligned := Int.dvd_zero _
  low := Int.le_refl 0
  last := by
    rw [Int.zero_add]
    exact .of_mem List.mem_cons_self

/-- Raw pointers are followed byte by byte, unless the policy takes them as aligned. -/
theorem indirect_grounded (access : Access) (base : Reg) :
    Grounded ctx.policy.assumeAligned (indirectAlignment ctx access) base := by
  unfold indirectAlignment
  split
  · rename_i haligned
    rw [haligned]
    exact .pointer
  · exact .byte

theorem loadIndirect_covers {kind : ValueKind} (hcode : loadIndirect ctx i kind = .ok code) :
    Covers (lastByte (ctx.kindAccess i kind)) ctx.policy.assumeAligned code := by
  obtain ⟨access, haccess, hcode⟩ := answer_bind.mp hcode
  obtain rfl := Except.ok.inj hcode
  rw [haccess]
  exact .append (.append (.of_eval rfl) (guardIndirect_covers .t0))
    (pushFromMemory_covers (indirect_grounded access .t0) rfl (indirect_spans access) _)

theorem storeIndirect_covers (h : Wordwise ctx e) {kind : ValueKind}
    (hcode : storeIndirect ctx i e kind = .ok code) :
    Covers (lastByte (ctx.kindAccess i kind)) ctx.policy.assumeAligned code := by
  obtain ⟨access, haccess, hcode⟩ := answer_bind.mp hcode
  obtain ⟨value, hvalue, hcode⟩ := answer_bind.mp hcode
  obtain rfl := Except.ok.inj hcode
  rw [haccess]
  exact .append (.append (.append (under_covers h hvalue) (guardIndirect_covers .t0))
    (popToMemory_covers (indirect_grounded access .t0) rfl (indirect_spans access))) (.of_eval rfl)

theorem initObject_covers (hcode : initObject ctx i = .ok code) :
    Covers (lastByte (ctx.typeAccess i)) ctx.policy.assumeAligned code := by
  obtain ⟨access, haccess, hcode⟩ := answer_bind.mp hcode
  obtain rfl := Except.ok.inj hcode
  rw [haccess]
  refine .append (.append (.of_eval rfl) (guardIndirect_covers .t0)) ?_
  rcases Nat.eq_zero_or_pos access.storage with hempty | hpos
  · rw [zeroMemory, zeroFrom, hempty, if_neg (Nat.lt_irrefl 0)]
    exact .nil
  · have hlast : Covered (lastByte (.ok access)) (access.storage - 1 : Nat) := by
      rw [Int.natCast_sub hpos]
      exact .of_mem List.mem_cons_self
    exact zeroFrom_covers (indirect_grounded access .t0) indirectAlignment_known hlast (fun _ _ => rfl)
      (fun _ _ => rfl) (by omega)

theorem loadLength_covers (h : Wordwise ctx e) :
    Covers [(ctx.options.layout.arrayLength : Int)] true (loadLength ctx i) := by
  refine .append (.append (.append (.of_eval rfl) (nullCheck_covers .t0)) ?_) (.of_eval rfl)
  exact layout_covers h (by simp [ObjectLayout.offsets]) List.mem_cons_self _ _

theorem element_offset {access : Access} {header : Int32} (hheader : elementOffset ctx i access = .ok header) :
    header = Int32.ofInt ctx.options.layout.arrayHeader ∧
      Encodable (ctx.options.layout.arrayHeader + access.storage) := by
  obtain ⟨stop, hstop, rfl⟩ := answer_map.mp hheader
  obtain ⟨hencodable, hstop⟩ := displacement_encodable hstop
  refine ⟨?_, hencodable⟩
  rw [hstop, ofNat_eq_ofInt, ← Int32.ofInt_sub, Int.add_sub_cancel]

theorem element_spans (h : Wordwise ctx e) {access : Access}
    (hend : Encodable (ctx.options.layout.arrayHeader + access.storage)) :
    Spans amounts (elementAlignment ctx access) ctx.options.layout.arrayHeader access.storage := by
  have hlayout : 4 ∣ ctx.options.layout.arrayHeader := h.layout _ (by simp [ObjectLayout.offsets])
  unfold Encodable at hend
  refine ⟨elementAlignment_known, ?_, by omega, .inl ⟨by omega, by omega⟩⟩
  exact Int.natCast_dvd_natCast.mpr ((dvd_four_of_known elementAlignment_known).trans hlayout)

theorem loadElement_covers (h : Wordwise ctx e) {kind : ValueKind} (hcode : loadElement ctx i kind = .ok code) :
    Covers [(ctx.options.layout.arrayLength : Int)] true code := by
  obtain ⟨access, -, hcode⟩ := answer_bind.mp hcode
  obtain ⟨header, hheader, hcode⟩ := answer_bind.mp hcode
  obtain rfl := Except.ok.inj hcode
  obtain ⟨hoffset, hend⟩ := element_offset hheader
  exact .append (.append (.of_eval rfl) (elementBase_covers h List.mem_cons_self _ _ _))
    (pushFromMemory_covers .pointer hoffset (element_spans h hend) _)

theorem loadElementAddress_covers (h : Wordwise ctx e) (hcode : loadElementAddress ctx i = .ok code) :
    Covers [(ctx.options.layout.arrayLength : Int)] true code := by
  obtain ⟨access, -, hcode⟩ := answer_bind.mp hcode
  obtain ⟨header, hheader, hcode⟩ := answer_bind.mp hcode
  obtain rfl := Except.ok.inj hcode
  obtain ⟨hoffset, hend⟩ := element_offset hheader
  refine .append (.append (.append (.of_eval rfl) (elementBase_covers h List.mem_cons_self _ _ _)) ?_) (.of_eval rfl)
  refine .one rfl .byte hoffset (Int.one_dvd _) (.inl ?_)
  unfold Encodable at hend ⊢
  omega

theorem storeElement_covers (h : Wordwise ctx e) {kind : ValueKind}
    (hcode : storeElement ctx i e kind = .ok code) : Covers [(ctx.options.layout.arrayLength : Int)] true code := by
  obtain ⟨access, -, hcode⟩ := answer_bind.mp hcode
  obtain ⟨header, hheader, hcode⟩ := answer_bind.mp hcode
  obtain ⟨value, hvalue, hcode⟩ := answer_bind.mp hcode
  obtain rfl := Except.ok.inj hcode
  obtain ⟨hoffset, hend⟩ := element_offset hheader
  obtain ⟨hencodable, hvalue⟩ := displacement_encodable hvalue
  have hsize := h.operand 0
  have hindex : value - 4 = Int32.ofInt (e.operand 0).size := by
    rw [hvalue, show (4 : Int32) = Int32.ofInt 4 from rfl, ← Int32.ofInt_sub, Int.add_sub_cancel]
  refine .append (.append (.append (.cons ?_ ?_) (elementBase_covers h List.mem_cons_self _ _ _))
    (popToMemory_covers .pointer hoffset (element_spans h hend))) (.of_eval rfl)
  · refine .one rfl .sp hvalue ?_ (.inl hencodable)
    simp only [Width.bytes]
    omega
  · refine .one rfl .sp hindex (Int.natCast_dvd_natCast.mpr hsize) (.inl ?_)
    unfold Encodable at hencodable ⊢
    omega

end Storage

/-! ## Calls and allocation -/

section Calls

variable {amounts : List Int} {pointers : Bool} {ctx : EmitContext} {i : Instruction} {e : Effect} {code : List Instr}

theorem prologue_covers : Covers amounts pointers (prologue ctx) :=
  .append (.of_eval rfl) (.replicate _ (.of_eval rfl))

theorem epilogue_covers : Covers amounts pointers (epilogue ctx) := by
  unfold epilogue
  split <;> exact .of_eval rfl

theorem call_covers (h : Wordwise ctx e) (hcode : call ctx i e = .ok code) :
    Covers [-(e.pushedBytes : Int), tradeReach e.pushedBytes e.poppedBytes] pointers code := by
  obtain ⟨m, -, hcode⟩ := answer_bind.mp hcode
  obtain rfl := Except.ok.inj hcode
  exact .append (.append (reserve_covers (.of_mem (by simp))) (.of_eval rfl))
    (afterCall_covers h.poppedBytes (by simp))

theorem callIndirect_covers (h : Wordwise ctx e) :
    Covers [-(e.pushedBytes : Int), tradeReach e.pushedBytes e.bytesBelow] pointers
      (callIndirect e) :=
  .append (.append (.append (.of_eval rfl) (reserve_covers (.of_mem (by simp)))) (.of_eval rfl))
    (afterCall_covers h.bytesBelow (by simp))

theorem dispatch_covers (h : Wordwise ctx e) {slot ret : Nat} (hret : -(ret : Int) ∈ amounts)
    (htype : (ctx.options.layout.typePointer : Int) ∈ amounts)
    (htable : (ctx.options.layout.typeMethodTable : Int) ∈ amounts) :
    Covers amounts true (dispatch ctx i slot ret) := by
  have hfront : Covers amounts true
      [Instr.lw .t0 (Int32.ofNat ctx.options.layout.typePointer) .t0,
       .lw .t0 (Int32.ofNat ctx.options.layout.typeMethodTable) .t0,
       .li .t5 (Int32.ofNat slot), .label (ctx.inside i "Scan" 1), .lw .t4 0 .t0] :=
    .cons (layout_covers h (by simp [ObjectLayout.offsets]) htype _ _)
      (.cons (layout_covers h (by simp [ObjectLayout.offsets]) htable _ _) (.of_eval rfl))
  refine .append (.append (.append (.append (.append (.append (.append (.append (.append (.append (.append hfront ?_)
    ?_) ?_) ?_) (pushImm_covers _)) ?_) ?_) ?_) ?_) (reserve_covers (.of_mem hret))) ?_ <;> exact .of_eval rfl

theorem callVirtual_covers (h : Wordwise ctx e) (hret : -(e.pushedBytes : Int) ∈ amounts)
    (hreach : tradeReach e.pushedBytes e.poppedBytes ∈ amounts)
    (htype : (ctx.options.layout.typePointer : Int) ∈ amounts)
    (htable : (ctx.options.layout.typeMethodTable : Int) ∈ amounts) (hcode : callVirtual ctx i e = .ok code) :
    Covers amounts true code := by
  obtain ⟨⟨m, declaring⟩, -, hcode⟩ := answer_bind.mp hcode
  obtain ⟨this, hthis, hcode⟩ := answer_bind.mp hcode
  obtain rfl := Except.ok.inj hcode
  obtain ⟨hencodable, hthis⟩ := displacement_encodable hthis
  have hreceiver : ∀ dst, Covers amounts true [Instr.lw dst this .sp] := by
    refine fun dst => .one rfl .sp hthis ?_ (.inl hencodable)
    have hargs := h.poppedBytes
    simp only [Width.bytes, h.pointerSize]
    omega
  have hreserve : Covers amounts true (Instr.reserve e.pushedBytes) := reserve_covers (.of_mem hret)
  refine .append (.ite ?_ (.ite ?_ ?_)) (afterCall_covers h.poppedBytes hreach)
  · exact .append (.append (.append (hreceiver .t9) (nullCheck_covers .t9)) hreserve) (.of_eval rfl)
  · exact .append (.append (.append (hreceiver .t0) (nullCheck_covers .t0)) hreserve) (.of_eval rfl)
  · exact .append (.append (hreceiver .t0) (nullCheck_covers .t0)) (dispatch_covers h hret htype htable)

theorem allocate_covers {allocator : Intrinsic} (descriptor : Symbol) (hret : Encodable (-allocator.returnBytes))
    (hargs : Encodable allocator.argBytes) : Covers amounts pointers (allocate ctx i allocator descriptor) := by
  refine .append (.append (.append (.append (.append ?_ (reserve_covers (.inl hret))) ?_) ?_)
    (drop_covers (.inl hargs))) ?_ <;> exact .of_eval rfl

theorem slideArgument_covers {params k : Nat} (hend : Encodable ((params : Int) + 8)) (hk : k < params / 4) :
    Covers amounts pointers (slideArgument k) := by
  have hplace : Int32.ofNat (4 * k) + 8 = Int32.ofInt ((4 * k : Nat) + 8) := by
    rw [ofNat_eq_ofInt, Int32.ofInt_add]
    rfl
  unfold Encodable at hend
  refine .cons (.one rfl .sp hplace ?_ (.inl ⟨by omega, by omega⟩))
    (.one rfl .sp (ofNat_eq_ofInt _) (Int.natCast_dvd_natCast.mpr ⟨k, rfl⟩) (.inl ⟨by omega, by omega⟩))
  simp only [Width.bytes]
  omega

theorem newObject_covers (h : Wordwise ctx e) (hcode : newObject ctx i = .ok code) : Covers amounts pointers code := by
  obtain ⟨⟨ctor, declaring⟩, -, hcode⟩ := answer_bind.mp hcode
  dsimp only at hcode
  split at hcode
  · obtain rfl := Except.ok.inj hcode
    exact .of_eval rfl
  · obtain ⟨params, hparams, hcode⟩ := answer_bind.mp hcode
    obtain ⟨_, hend, hcode⟩ := answer_bind.mp hcode
    obtain rfl := Except.ok.inj hcode
    obtain ⟨hend, -⟩ := displacement_encodable hend
    have hwords := h.paramBytes hparams
    have hencodable := hend
    unfold Encodable at hend
    refine .append (.append (.append (.append (.append (allocate_covers _ (by decide) (by decide)) (.of_eval rfl))
      ?_) (.cons ?_ ?_)) (.of_eval rfl)) ?_
    · exact .flatMap _ fun k hk => slideArgument_covers hencodable (List.mem_range.mp hk)
    · refine .one rfl .sp (ofNat_eq_ofInt params) ?_ (.inl ⟨by omega, by omega⟩)
      exact Int.natCast_dvd_natCast.mpr hwords
    · refine .one rfl .sp (add_ofNat (ofNat_eq_ofInt params) 4) ?_ (.inl ⟨by omega, by omega⟩)
      simp only [Width.bytes]
      omega
    · exact drop_covers (.inl ⟨by omega, by omega⟩)

theorem newArray_covers (hcode : newArray ctx i = .ok code) : Covers amounts pointers code := by
  obtain ⟨t, -, hcode⟩ := answer_bind.mp hcode
  obtain rfl := Except.ok.inj hcode
  exact .append (allocate_covers _ (by decide) (by decide)) (.of_eval rfl)

theorem typeTest_covers (h : Wordwise ctx e) {isCast : Bool} (hcode : typeTest ctx i isCast = .ok code) :
    Covers [(ctx.options.layout.typePointer : Int), (ctx.options.layout.typeBase : Int)] true code := by
  obtain ⟨t, -, hcode⟩ := answer_bind.mp hcode
  obtain rfl := Except.ok.inj hcode
  refine .append (.append (.append (.append (.append (.append (.append (.append (.append (.append ?_ ?_)
    (.cons ?_ (.of_eval rfl))) ?_) ?_) ?_) ?_) ?_) (.ite (.of_eval rfl) (.of_eval rfl))) ?_) ?_
  case refine_3 => exact layout_covers h (by simp [ObjectLayout.offsets]) (by simp) _ _
  case refine_6 => exact layout_covers h (by simp [ObjectLayout.offsets]) (by simp) _ _
  all_goals exact .of_eval rfl

end Calls

/-- What a template adds to registers fits, but for what is not checked, and no other template than those that
follow pointers accesses more than a byte outside of the frame. -/
theorem emit_covers {ctx : EmitContext} {e : Effect} (h : Wordwise ctx e) (i : Instruction) :
    Covers (unchecked ctx i e) (followsPointers ctx i) (emit ctx i e).code := by
  unfold emit unchecked followsPointers
  cases i.op.operation with
  | nop | throw => exact .of_eval rfl
  | loadNull => exact pushImm_covers 0
  | methodStart => exact prologue_covers
  | methodEnd => exact epilogue_covers
  | ret => exact .ofExcept fun _ => ret_covers
  | loadArg | loadLocal => exact .ofExcept fun _ => loadSlot_covers h
  | storeArg | storeLocal => exact .ofExcept fun _ => storeSlot_covers h
  | loadArgAddress | loadLocalAddress => exact .ofExcept fun _ => slotAddress_covers h
  | loadConst => exact .ofExcept fun _ => loadConst_covers
  | loadString | loadToken | loadFunction => exact .ofExcept fun _ => loadSymbol_covers
  | sizeOf => exact .ofExcept fun _ => sizeOf_covers
  | dup => exact .ofExcept fun _ => dup_covers h
  | pop => exact pop_covers
  | binary op => exact .ofExcept fun _ => binary_covers
  | unary op => exact unary_covers op
  | shift op => exact shift_covers op
  | compare op => exact compare_covers op
  | convert target =>
    refine .ofExcept fun code hcode => ?_
    cases target with
    | none => cases hcode
    | some target =>
      obtain rfl := Except.ok.inj hcode
      exact convertTo_covers _ _ target
  | branch condition => exact .ofExcept fun _ => branch_covers
  | switch => exact switch_covers
  | leave => exact .ofExcept fun _ => leave_covers
  | loadField => exact .ofExcept fun _ => loadField_covers
  | loadFieldAddress => exact .ofExcept fun _ => loadFieldAddress_covers
  | storeField => exact .ofExcept fun _ => storeField_covers h
  | loadStatic => exact .ofExcept fun _ => loadStatic_covers
  | loadStaticAddress => exact .ofExcept fun _ => loadStaticAddress_covers
  | storeStatic => exact .ofExcept fun _ => storeStatic_covers
  | loadIndirect kind => exact .ofExcept fun _ => loadIndirect_covers
  | storeIndirect kind => exact .ofExcept fun _ => storeIndirect_covers h
  | initObject => exact .ofExcept fun _ => initObject_covers
  | loadLength => exact loadLength_covers h
  | loadElement kind => exact .ofExcept fun _ => loadElement_covers h
  | loadElementAddress => exact .ofExcept fun _ => loadElementAddress_covers h
  | storeElement kind => exact .ofExcept fun _ => storeElement_covers h
  | call => exact .ofExcept fun _ => call_covers h
  | callIndirect => exact callIndirect_covers h
  | callVirtual => exact .ofExcept fun _ => callVirtual_covers h (by simp) (by simp) (by simp) (by simp)
  | newObject => exact .ofExcept fun _ => newObject_covers h
  | newArray => exact .ofExcept fun _ => newArray_covers
  | isInstance | castClass => exact .ofExcept fun _ => typeTest_covers h

/-! ## Methods -/

section Methods

variable {tables : Table} {options : Options} {body : MethodBody} {m : CompiledMethod Instr}
  (c : Compilation backend tables options body m)

theorem layout_dvd (h : options.validate = .ok ()) :
    ∀ offset ∈ options.layout.offsets.map Prod.snd, 4 ∣ offset := by
  unfold Options.validate at h
  split at h
  · cases h
  · split at h
    · cases h
    · rename_i hnone
      intro offset hoffset
      obtain ⟨⟨name, offset⟩, hentry, rfl⟩ := List.mem_map.mp hoffset
      have haligned := List.find?_eq_none.mp hnone _ hentry
      exact Nat.dvd_of_mod_eq_zero (by simpa using haligned)

theorem wordwise {pair : Instruction × WalkStep} (hpair : pair ∈ c.marked.zip c.steps) :
    Wordwise c.ctx pair.2.effect where
  pointerSize := c.pointerSize_eq
  layout := layout_dvd c.valid
  slots isArg slot hslot := by
    have hframe := c.framed
    rw [c.pointerSize_eq] at hframe
    exact (ofMethod_slots hframe isArg slot hslot).2
  popped := (c.operands_whole hpair).1
  pushed := (c.operands_whole hpair).2

/-- Every displacement of a method stands in the template of an instruction, and is covered there. -/
theorem displacement_covered {instr : Instr} (hinstr : instr ∈ m.code) {bytes : Nat} {base : Reg} {imm : Int32}
    (himm : instr.displacement? = some (bytes, base, imm)) :
    ∃ pair ∈ c.marked.zip c.steps, instr ∈ (emit c.ctx pair.1 pair.2.effect).code ∧
      Grounded (followsPointers c.ctx pair.1) bytes base ∧
      ∃ n : Int, imm = Int32.ofInt n ∧ (bytes : Int) ∣ n ∧ Covered (unchecked c.ctx pair.1 pair.2.effect) n := by
  rw [c.code_eq] at hinstr
  rcases c.selected.mem_code hinstr with ⟨l, rfl⟩ | ⟨pair, hpair, hinstr⟩
  · cases himm
  · exact ⟨pair, hpair, hinstr, emit_covers (wordwise c hpair) pair.1 instr hinstr bytes base imm himm⟩

end Methods

end Stencil.Mips
