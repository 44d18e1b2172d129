import Stencil.Assembly
import Stencil.Compile
import Stencil.Proofs.Stateful
import Mathlib.Data.List.Pairwise

/-!
# Positions and operands of assembled bodies

Instructions are laid out one after another, so positions increase, and the end of the body lies
behind all of them. Every line but a label makes one instruction, which stands as far from the start as the
lines before it extend (`record_of_line`).

An operand is written by one function and read by another. What is read is what was written wherever the
encoding has room for it: for every constant, and for an index unless its opcode encodes one byte and the
index needs two. Such an index loses its high byte.
-/

namespace Stencil

open Stateful

/-- Each instruction takes room and the next one starts where it ends, the first one at `start`. -/
def Contiguous : (start : Nat) → List Instruction → Prop
  | _, [] => True
  | start, i :: rest =>
    i.position = start ∧ i.position < i.nextPosition ∧ Contiguous i.nextPosition rest

namespace Contiguous

variable {start : Nat} {instructions : List Instruction}

theorem start_le (h : Contiguous start instructions) {i : Instruction} (hi : i ∈ instructions) :
    start ≤ i.position := by
  induction instructions generalizing start with
  | nil => cases hi
  | cons j rest ih =>
    obtain ⟨hstart, hlt, hrest⟩ := h
    rcases List.mem_cons.mp hi with rfl | hi
    · exact Nat.le_of_eq hstart.symm
    · have := ih hrest hi
      omega

theorem pairwise (h : Contiguous start instructions) :
    instructions.Pairwise fun i j => i.position < j.position := by
  induction instructions generalizing start with
  | nil => exact .nil
  | cons i rest ih =>
    obtain ⟨-, hlt, hrest⟩ := h
    refine List.pairwise_cons.mpr ⟨fun j hj => ?_, ih hrest⟩
    exact Nat.lt_of_lt_of_le hlt (hrest.start_le hj)

theorem start_le_end (h : Contiguous start instructions) (hne : instructions ≠ []) :
    start ≤ Compile.endPosition instructions := by
  induction instructions generalizing start with
  | nil => exact absurd rfl hne
  | cons i rest ih =>
    obtain ⟨hstart, hlt, hrest⟩ := h
    cases rest with
    | nil =>
      simp only [Compile.endPosition, List.getLast?_singleton]
      omega
    | cons j rest =>
      have hend := ih hrest (by simp)
      simp only [Compile.endPosition, List.getLast?_cons_cons] at hend ⊢
      omega

theorem position_lt_end (h : Contiguous start instructions) {i : Instruction}
    (hi : i ∈ instructions) : i.position < Compile.endPosition instructions := by
  induction instructions generalizing start with
  | nil => cases hi
  | cons j rest ih =>
    obtain ⟨-, hlt, hrest⟩ := h
    cases rest with
    | nil =>
      obtain rfl := List.mem_singleton.mp hi
      simpa [Compile.endPosition] using hlt
    | cons k rest =>
      have hlast : Compile.endPosition (j :: k :: rest) = Compile.endPosition (k :: rest) := by
        simp [Compile.endPosition]
      rw [hlast]
      rcases List.mem_cons.mp hi with rfl | hi
      · exact Nat.lt_of_lt_of_le hlt (hrest.start_le_end (by simp))
      · exact ih hrest hi

end Contiguous

/-! ## Layout -/

theorem Line.place_ok {line : Line} {position : Nat} {i : Instruction}
    (h : line.place position = some i) :
    i.position = position ∧ i.position < i.nextPosition := by
  have hlength : 0 < i.op.encodedLength := by
    unfold Opcode.encodedLength
    split <;> decide
  cases line <;> simp only [Line.place, Option.some.injEq, reduceCtorEq] at h
  all_goals
    subst h
    exact ⟨rfl, by simp only [Instruction.placed] at hlength ⊢; omega⟩

namespace Assembly

theorem layout_contiguous (position : Nat) (lines : List Line) :
    Contiguous position ((layout position lines).map Prod.fst) := by
  induction lines generalizing position with
  | nil => trivial
  | cons line rest ih =>
    unfold layout
    cases hplace : line.place position with
    | none => exact ih position
    | some i =>
      obtain ⟨hstart, hlt⟩ := Line.place_ok hplace
      exact ⟨hstart, hlt, ih i.nextPosition⟩

/-- Filling in offsets moves nothing. -/
theorem resolve_ok {labels : List (String × Nat)} {i i' : Instruction} {line : Line}
    (h : resolve labels i line = .ok i') :
    i'.position = i.position ∧ i'.nextPosition = i.nextPosition := by
  unfold resolve at h
  split at h
  · obtain ⟨distance, -, h⟩ := answer_bind.mp h
    split at h
    · split at h
      · obtain rfl := Except.ok.inj h
        exact ⟨rfl, rfl⟩
      · cases h
    · obtain rfl := Except.ok.inj h
      exact ⟨rfl, rfl⟩
  · obtain ⟨distances, -, h⟩ := answer_bind.mp h
    obtain rfl := Except.ok.inj h
    exact ⟨rfl, rfl⟩
  · obtain rfl := Except.ok.inj h
    exact ⟨rfl, rfl⟩

theorem mapM_resolve_contiguous {labels : List (String × Nat)} {start : Nat}
    {placed : List (Instruction × Line)} {instructions : List Instruction}
    (h : (placed.mapM fun (i, line) => resolve labels i line) = .ok instructions)
    (hplaced : Contiguous start (placed.map Prod.fst)) : Contiguous start instructions := by
  induction placed generalizing start instructions with
  | nil =>
    obtain rfl := Except.ok.inj h
    trivial
  | cons part placed ih =>
    rw [List.mapM_cons] at h
    obtain ⟨i, hi, h⟩ := answer_bind.mp h
    obtain ⟨rest, hrest, h⟩ := answer_bind.mp h
    obtain rfl := Except.ok.inj h
    obtain ⟨hposition, hnext⟩ := resolve_ok hi
    obtain ⟨hstart, hlt, htail⟩ := hplaced
    refine ⟨hposition.trans hstart, by omega, ?_⟩
    rw [hnext]
    exact ih hrest htail

/-- An assembled body is laid out without gaps from position zero on. -/
theorem assemble_contiguous {lines : List Line} {instructions : List Instruction}
    (h : assemble lines = .ok instructions) : Contiguous 0 instructions :=
  mapM_resolve_contiguous h (layout_contiguous 0 lines)

end Assembly

/-! ## The instruction of a line -/

/-- Every line but a label makes an instruction. -/
def Line.isCode : Line → Bool
  | .label _ => false
  | _ => true

theorem Line.isSome_place (line : Line) (position : Nat) : (line.place position).isSome = line.isCode := by
  cases line <;> rfl

namespace Assembly

/-- The position that follows `lines` from `position` on. -/
def extent (position : Nat) (lines : List Line) : Nat := lines.foldl Line.next position

theorem extent_append (position : Nat) (before after : List Line) :
    extent position (before ++ after) = extent (extent position before) after := List.foldl_append

theorem layout_append (position : Nat) (before after : List Line) :
    layout position (before ++ after) = layout position before ++ layout (extent position before) after := by
  induction before generalizing position with
  | nil => rfl
  | cons line before ih =>
    have hextent : extent position (line :: before) = extent (line.next position) before := rfl
    rw [List.cons_append, layout, layout, hextent, Line.next]
    cases hplace : line.place position with
    | none => exact ih position
    | some i => simp [ih]

theorem length_layout (position : Nat) (lines : List Line) :
    (layout position lines).length = lines.countP Line.isCode := by
  induction lines generalizing position with
  | nil => rfl
  | cons line lines ih =>
    rw [layout, List.countP_cons, ← line.isSome_place position]
    cases hplace : line.place position with
    | none => simpa using ih position
    | some i => simp [ih]

theorem length_of_assemble {lines : List Line} {instructions : List Instruction}
    (h : assemble lines = .ok instructions) : instructions.length = lines.countP Line.isCode := by
  rw [← length_layout 0 lines]
  exact (answer_mapM.mp h).length_eq.symm

/-- The instruction of a line comes after those of the lines before it. -/
theorem record_of_line {before after : List Line} {line : Line} {instructions : List Instruction}
    {i : Instruction} (h : assemble (before ++ line :: after) = .ok instructions)
    (hplace : line.place (extent 0 before) = some i) :
    ∃ i', instructions[before.countP Line.isCode]? = some i' ∧
      resolve (bindings 0 (before ++ line :: after)).reverse i line = .ok i' := by
  have hall := answer_mapM.mp h
  have hlayout : layout 0 (before ++ line :: after) =
      layout 0 before ++ (i, line) :: layout i.nextPosition after := by
    rw [layout_append, layout, hplace]
  have hlt : before.countP Line.isCode < (layout 0 (before ++ line :: after)).length := by
    rw [hlayout, ← length_layout 0 before]
    simp
  have hlt' : before.countP Line.isCode < instructions.length := by rwa [← hall.length_eq]
  have hget : (layout 0 (before ++ line :: after))[before.countP Line.isCode] = (i, line) := by
    simp [hlayout, ← length_layout 0 before]
  have hresolved := hall.get hlt hlt'
  rw [List.get_eq_getElem, hget] at hresolved
  exact ⟨_, List.getElem?_eq_getElem hlt', hresolved⟩

end Assembly

/-! ## Bytes -/

namespace Bytes

theorem length_splitInt (width : Nat) (n : Int) : (splitInt width n).length = width := length_split _ _

/-- Numbers that the width has room for are read back. -/
theorem combineInt_splitInt {width : Nat} {n : Int} (hlow : -((Word.modulus (8 * width) : Int) / 2) ≤ n)
    (hhigh : n < ((Word.modulus (8 * width) : Int) + 1) / 2) : combineInt (splitInt width n) = n := by
  have hpos : (0 : Int) < Word.modulus (8 * width) := by
    rw [Word.modulus, Nat.shiftLeft_eq, Nat.one_mul]
    exact_mod_cast Nat.two_pow_pos (8 * width)
  have hread : ((combine (splitInt width n) : Nat) : Int) = n % Word.modulus (8 * width) := by
    have hwrap : ((n % Word.modulus (8 * width)).toNat : Int) = n % Word.modulus (8 * width) :=
      Int.toNat_of_nonneg (Int.emod_nonneg n (by omega))
    rw [splitInt, combine_split, Word.wrap, Int.natCast_emod, hwrap, Int.emod_emod]
  rw [combineInt, length_splitInt, Word.signed, hread, Int.emod_bmod]
  exact Int.bmod_eq_of_le hlow hhigh

end Bytes

/-! ## Operands -/

theorem Opcode.implicitIndex?_of_operandKind {op : Opcode}
    (h : op.operandKind = .shortIndex ∨ op.operandKind = .index) : op.implicitIndex? = none := by
  cases op <;> first | rfl | (rcases h with h | h <;> cases h)

namespace Instruction

variable {i : Instruction} {bytes rest : List UInt8}

theorem operandBytes_of_append (h : i.operand = bytes ++ rest) :
    i.operandBytes 0 bytes.length = .ok bytes := by
  rw [operandBytes, if_pos (by simp [h]), h, List.drop_zero, List.take_left]

theorem operandNat_of_split {width n : Nat} (h : i.operand = Bytes.split width n ++ rest)
    (hn : n < Word.modulus (8 * width)) : i.operandNat width = .ok n := by
  have hbytes := operandBytes_of_append h
  rw [Bytes.length_split] at hbytes
  rw [operandNat, hbytes, Except.map, Bytes.combine_split, Nat.mod_eq_of_lt hn]

theorem operandInt_of_splitInt {width : Nat} {n : Int} (h : i.operand = Bytes.splitInt width n)
    (hlow : -((Word.modulus (8 * width) : Int) / 2) ≤ n)
    (hhigh : n < ((Word.modulus (8 * width) : Int) + 1) / 2) : i.operandInt width = .ok n := by
  have hbytes := operandBytes_of_append (h.trans (List.append_nil _).symm)
  rw [Bytes.length_splitInt] at hbytes
  rw [operandInt, operandIntAt, hbytes, Except.map, Bytes.combineInt_splitInt hlow hhigh]

theorem constant_of_implicit {value : Int32} (h : i.op.implicitConstant? = some value) :
    i.constant = .ok value := by
  rw [constant, h]

theorem constant_of_operandInt {width : Nat} {value : Int32} (himplicit : i.op.implicitConstant? = none)
    (hkind : width = 1 ∧ i.op.operandKind = .int8 ∨ width = 4 ∧ i.op.operandKind = .int32)
    (hread : i.operandInt width = .ok value.toInt) : i.constant = .ok value := by
  rcases hkind with ⟨rfl, hkind⟩ | ⟨rfl, hkind⟩
  · rw [constant, himplicit, hkind]
    simp [hread, Except.map]
  · rw [constant, himplicit, hkind]
    simp [hread, Except.map]

/-- The opcode and the operand that encode a constant spell it. -/
theorem constant_of_encodeConstant {value : Int32} (h : (i.op, i.operand) = Line.encodeConstant value) :
    i.constant = .ok value := by
  have hlow := value.le_toInt
  have hhigh := value.toInt_lt
  unfold Line.encodeConstant at h
  split at h
  case h_11 =>
    split at h
    · obtain ⟨hop, hoperand⟩ := Prod.mk.inj h
      refine constant_of_operandInt (by rw [hop]; rfl) (.inl ⟨rfl, by rw [hop]; rfl⟩) ?_
      apply operandInt_of_splitInt hoperand <;> simp only [Word.modulus] <;> omega
    · obtain ⟨hop, hoperand⟩ := Prod.mk.inj h
      refine constant_of_operandInt (by rw [hop]; rfl) (.inr ⟨rfl, by rw [hop]; rfl⟩) ?_
      apply operandInt_of_splitInt hoperand <;> simp only [Word.modulus] <;> omega
  -- the ten constants that an opcode implies
  all_goals
    rename_i hvalue
    obtain ⟨hop, -⟩ := Prod.mk.inj h
    refine constant_of_implicit ?_
    rw [hop, ← Int32.ofInt_toInt value, hvalue]
    rfl

theorem longConstant_of_splitInt {value : Int64} (h : i.operand = Bytes.splitInt 8 value.toInt) :
    i.longConstant = .ok value := by
  have hlow := value.le_toInt
  have hhigh := value.toInt_lt
  have hread : i.operandInt 8 = .ok value.toInt := by
    apply operandInt_of_splitInt h <;> simp only [Word.modulus] <;> omega
  simp [longConstant, hread, Except.map]

/-- An index is read modulo what the operand has room for. -/
theorem index_of_encodeIndex {n : Nat} (hop : i.op.operandKind = .shortIndex ∨ i.op.operandKind = .index)
    (h : i.operand = Line.encodeIndex i.op n) :
    i.index = .ok (if i.op.operandKind = .shortIndex then n % 256 else n % 65536) := by
  have himplicit := Opcode.implicitIndex?_of_operandKind hop
  have hread : ∀ width, i.operand = Bytes.split width n →
      i.operandNat width = .ok (n % Word.modulus (8 * width)) := by
    intro width hsplit
    have hbytes := operandBytes_of_append (hsplit.trans (List.append_nil _).symm)
    rw [Bytes.length_split] at hbytes
    rw [operandNat, hbytes, Except.map, Bytes.combine_split]
  rcases hop with hop | hop
  · rw [Line.encodeIndex, hop] at h
    simp [index, himplicit, hop, hread 1 h, Word.modulus]
  · rw [Line.encodeIndex, hop] at h
    simp [index, himplicit, hop, hread 2 h, Word.modulus]

end Instruction

/-! ## Lines -/

open Assembly

/-- The line can be assembled, and wherever it stands in a body that is assembled, its instruction has the
property. -/
structure Line.Yields (line : Line) (P : Instruction → Prop) : Prop where
  alone : ∃ i, assemble [line] = .ok [i]
  within : ∀ {before after : List Line} {instructions : List Instruction},
    assemble (before ++ line :: after) = .ok instructions →
    ∃ i, instructions[before.countP Line.isCode]? = some i ∧ P i

theorem Line.yields_of_place {line : Line} {P : Instruction → Prop}
    (hresolve : ∀ labels i, resolve labels i line = .ok i)
    (hplace : ∀ position, ∃ i, line.place position = some i ∧ P i) : line.Yields P where
  alone := by
    obtain ⟨i, hi, -⟩ := hplace 0
    refine ⟨i, ?_⟩
    simp [assemble, layout, hi, hresolve]
  within h := by
    obtain ⟨i, hi, hP⟩ := hplace (extent 0 _)
    obtain ⟨i', hget, hresolved⟩ := record_of_line h hi
    rw [hresolve] at hresolved
    obtain rfl := Except.ok.inj hresolved
    exact ⟨i, hget, hP⟩

/-- Constants are read back, and an index is read back unless it needs two bytes where there is one. -/
theorem operands_read_back (v : Int32) (w : Int64) {op : Opcode} {n : Nat}
    (hop : op.operandKind = .shortIndex ∨ op.operandKind = .index) (hn : n < 65536) :
    (Line.constant v).Yields (fun i => i.constant = .ok v) ∧
    (Line.longConstant w).Yields (fun i => i.longConstant = .ok w) ∧
    (Line.indexed op n).Yields (fun i => i.index = .ok n ↔ (op.operandKind = .shortIndex → n < 256)) := by
  refine ⟨Line.yields_of_place (fun _ _ => rfl) ?_, Line.yields_of_place (fun _ _ => rfl) ?_,
    Line.yields_of_place (fun _ _ => rfl) ?_⟩
  · exact fun position => ⟨_, rfl, Instruction.constant_of_encodeConstant rfl⟩
  · exact fun position => ⟨_, rfl, Instruction.longConstant_of_splitInt rfl⟩
  · intro position
    let i := Instruction.placed position op (Line.encodeIndex op n)
    have hindex : i.index = .ok (if op.operandKind = .shortIndex then n % 256 else n % 65536) :=
      Instruction.index_of_encodeIndex hop rfl
    refine ⟨i, rfl, ?_⟩
    rw [hindex, Except.ok.injEq]
    by_cases hshort : op.operandKind = .shortIndex
    · simp only [hshort, if_true, true_imp_iff]
      omega
    · simp only [hshort, if_false, false_imp_iff, iff_true]
      omega

/-- The last index that one byte holds, between the least constants. -/
theorem operands_read_back_short :
    (Line.constant Int32.minValue).Yields (fun i => i.constant = .ok Int32.minValue) ∧
    (Line.longConstant Int64.minValue).Yields (fun i => i.longConstant = .ok Int64.minValue) ∧
    (Line.indexed .ldlocS 255).Yields (fun i => i.index = .ok 255) := by
  have hread := @operands_read_back Int32.minValue Int64.minValue .ldlocS 255 (.inl rfl) (by decide)
  refine ⟨hread.1, hread.2.1, hread.2.2.alone, fun h => ?_⟩
  obtain ⟨i, hi, hindex⟩ := hread.2.2.within h
  exact ⟨i, hi, hindex.mpr fun _ => by decide⟩

/-- One byte of an index is dropped, and no error reported. -/
theorem wide_index_lost :
    ∃ i, assemble [.indexed .ldargS 256] = .ok [i] ∧ i.index = .ok 0 :=
  ⟨_, rfl, rfl⟩

end Stencil
