import Stencil.Proofs.Mips.Displacements

/-!
# Encodable MIPS32 methods

A displacement of a compiled method that is no signed halfword comes from an amount that its template
does not check: a dropped, reserved or copied operand, an indirect access or an offset of the layout.
Such amounts are compiled all the same, as the call of a method that returns forty thousand bytes shows.
-/

namespace Stencil

theorem Mips.Encodable.toInt_ofInt {n : Int} (h : Mips.Encodable n) : (Int32.ofInt n).toInt = n := by
  obtain ⟨hlow, hhigh⟩ := h
  exact Int32.toInt_ofInt_of_le (by omega) (by omega)

/-- A displacement is encodable, unless the template that it stands in has taken up an amount that is not. -/
theorem Mips.Covered.encodable {amounts : List Int} {n : Int} (h : Mips.Covered amounts n) :
    Mips.Encodable (Int32.ofInt n).toInt ∨ ∃ amount ∈ amounts, ¬Mips.Encodable amount := by
  rcases h with h | ⟨amount, hamount, hle⟩
  · rw [h.toInt_ofInt]
    exact .inl h
  · by_cases hencodable : Mips.Encodable amount
    · have hn : Mips.Encodable n := by
        unfold Mips.Encodable at hencodable ⊢
        omega
      rw [hn.toInt_ofInt]
      exact .inl hn
    · exact .inr ⟨amount, hamount, hencodable⟩

section Methods

variable {tables : Table} {options : Options} {body : MethodBody} {m : CompiledMethod Mips.Instr}

/-- Every load and store offset and every `addiu` immediate of an accepted method is a signed halfword,
unless the template that it stands in takes up an unchecked amount that is none. -/
theorem encodable_unless_unchecked (h : compileMethod Mips.backend tables options body = .ok m)
    {instr : Mips.Instr} (hinstr : instr ∈ m.code) {bytes : Nat} {base : Mips.Reg} {imm : Int32}
    (himm : instr.displacement? = some (bytes, base, imm)) :
    Mips.Encodable imm.toInt ∨
      ∃ c : Compilation Mips.backend tables options body m, ∃ pair ∈ c.marked.zip c.steps,
        instr ∈ (Mips.emit c.ctx pair.1 pair.2.effect).code ∧
          ∃ amount ∈ Mips.unchecked c.ctx pair.1 pair.2.effect, ¬Mips.Encodable amount := by
  obtain ⟨c⟩ := compileMethod_ok h
  obtain ⟨pair, hpair, htemplate, -, n, rfl, -, hcovered⟩ := Mips.displacement_covered c hinstr himm
  exact hcovered.encodable.imp_right fun hamount => ⟨c, pair, hpair, htemplate, hamount⟩

end Methods

/-! ### A method that drops a large result -/

def largeMaker : MethodDescriptor :=
  { MethodDescriptor.ofName ⟨1, Nat.one_pos⟩ 1 "make" with returnType := some 1 }

def largeTable : Table :=
  ((Table.addType {} (.composite 1 "Large" 40000)).addMethod largeMaker).addMethod
    (.ofName ⟨2, Nat.two_pos⟩ 1 "main")

def largeBody : MethodBody where
  method := ⟨2, Nat.two_pos⟩
  instructions :=
    [{ Instruction.placed 0 .call [0, 0, 0, 0] with methodRef := some largeMaker.id },
     .placed 5 .pop [], .placed 6 .ret []]

def reserveLarge : Mips.Instr := .addiu .sp .sp (-40000)

theorem compiles_reserveLarge :
    ∃ m, compileMethod Mips.backend largeTable {} largeBody = .ok m ∧ reserveLarge ∈ m.code := by
  have hcode : (compileMethod Mips.backend largeTable {} largeBody).toOption.any
      (·.code.contains reserveLarge) = true := by decide +kernel
  cases hm : compileMethod Mips.backend largeTable {} largeBody with
  | error e =>
    rw [hm] at hcode
    cases hcode
  | ok m =>
    rw [hm] at hcode
    exact ⟨m, rfl, List.contains_iff_mem.mp hcode⟩

/-- The large result is an amount that is not checked. -/
theorem encodable_unless_unchecked_large :
    ∃ m, compileMethod Mips.backend largeTable {} largeBody = .ok m ∧
      ∃ c : Compilation Mips.backend largeTable {} largeBody m, ∃ pair ∈ c.marked.zip c.steps,
        reserveLarge ∈ (Mips.emit c.ctx pair.1 pair.2.effect).code ∧
          ∃ amount ∈ Mips.unchecked c.ctx pair.1 pair.2.effect, ¬Mips.Encodable amount := by
  obtain ⟨m, hm, hinstr⟩ := compiles_reserveLarge
  exact ⟨m, hm, (encodable_unless_unchecked hm hinstr rfl).resolve_left (by decide)⟩

/-- The method is accepted all the same, and moves the stack pointer by more than a halfword. -/
theorem not_encodable_large :
    ∃ m, compileMethod Mips.backend largeTable {} largeBody = .ok m ∧
      ∃ instr ∈ m.code, ∃ bytes base imm, instr.displacement? = some (bytes, base, imm) ∧
        ¬Mips.Encodable imm.toInt := by
  obtain ⟨m, hm, hinstr⟩ := compiles_reserveLarge
  exact ⟨m, hm, reserveLarge, hinstr, 1, .sp, -40000, rfl, by decide⟩

end Stencil
