import Stencil.Proofs.Mips.DelaySlots
import Stencil.Proofs.Mips.Isolation
import Stencil.Proofs.Reuse.Basic

/-!
# Where MIPS32 code reads `hi` and `lo`

In a template these are read right behind an instruction that has used them, and no template that reads them
jumps through a register. In a linked program neither a label nor a symbol leads to an instruction that reads
them.
-/

namespace Stencil.Mips

open AddressMap Compile Link Stateful

/-! ## Templates -/

theorem jumpsByRegister_of_needs {live : Label → List Cell} {after need : List Cell} {code : List Instr}
    (h : needs? live after code = some need) : ∀ instr ∈ code, instr.jumpsByRegister = false := by
  induction code generalizing need with
  | nil => exact fun _ hinstr => absurd hinstr List.not_mem_nil
  | cons head rest ih =>
    obtain ⟨tail, htail, hadmits, -, -⟩ := needs?_cons.mp h
    refine List.forall_mem_cons.mpr ⟨?_, ih htail⟩
    cases head with
    | jalr | jr => cases hadmits
    | _ => rfl

def Instr.returns : Instr → Bool
  | .jr _ => true
  | _ => false

/-- No instruction reads `hi` or `lo`, and none returns from a method. -/
abbrev Plain (code : List Instr) : Prop := Lacks (fun instr => instr.readsProduct || instr.returns) code

theorem Plain.unread {code : List Instr} (h : Plain code) : Lacks Instr.readsProduct code :=
  h.mono fun _ hreads => by rw [hreads]; rfl

section Calls

variable {ctx : EmitContext} {i : Instruction} {e : Effect} {code : List Instr}

theorem drop_plain (bytes : Nat) : Plain (Instr.drop bytes) := by
  unfold Instr.drop
  split <;> rfl

theorem reserve_plain (bytes : Nat) : Plain (Instr.reserve bytes) := by
  unfold Instr.reserve
  split <;> rfl

theorem pushImm_plain (imm : Int32) : Plain (Instr.pushImm imm) := by
  unfold Instr.pushImm
  split <;> rfl

theorem afterCall_plain (ret args : Nat) : Plain (afterCall ret args) := by
  have hdrop := drop_plain args
  unfold afterCall
  split
  · rfl
  · split
    · exact hdrop
    · exact .append (.append rfl hdrop) rfl
    · exact .append (.append (.append rfl hdrop) rfl) rfl
    · exact .append (.flatMap _ fun _ => rfl) hdrop

theorem epilogue_unread : Lacks Instr.readsProduct (epilogue ctx) := by
  unfold epilogue
  split <;> rfl

theorem call_plain (hcode : call ctx i e = .ok code) : Plain code := by
  obtain ⟨m, -, hcode⟩ := answer_bind.mp hcode
  obtain rfl := Except.ok.inj hcode
  exact .append (.append (reserve_plain _) rfl) (afterCall_plain _ _)

theorem callIndirect_plain (e : Effect) : Plain (callIndirect e) :=
  .append (.append (.append rfl (reserve_plain _)) rfl) (afterCall_plain _ _)

theorem dispatch_plain (slot ret : Nat) : Plain (dispatch ctx i slot ret) := by
  have hhalt : Plain (Instr.pushImm HaltReason.missingVirtualMethod.code.toInt32) := pushImm_plain _
  refine ((((((((((Lacks.append ?_ ?_).append ?_).append ?_).append ?_).append hhalt).append ?_).append
    ?_).append ?_).append ?_).append (reserve_plain ret)).append ?_ <;> rfl

theorem callVirtual_plain (hcode : callVirtual ctx i e = .ok code) : Plain code := by
  obtain ⟨⟨m, declaring⟩, -, hcode⟩ := answer_bind.mp hcode
  obtain ⟨this, -, hcode⟩ := answer_bind.mp hcode
  obtain rfl := Except.ok.inj hcode
  refine .append ?_ (afterCall_plain _ _)
  split
  · exact .append (.append rfl (reserve_plain _)) rfl
  · split
    · exact .append (.append rfl (reserve_plain _)) rfl
    · exact .append rfl (dispatch_plain _ _)

theorem newObject_plain (hcode : newObject ctx i = .ok code) : Plain code := by
  obtain ⟨⟨ctor, declaring⟩, -, hcode⟩ := answer_bind.mp hcode
  dsimp only at hcode
  split at hcode
  · obtain rfl := Except.ok.inj hcode
    rfl
  · obtain ⟨params, -, hcode⟩ := answer_bind.mp hcode
    obtain ⟨_, -, hcode⟩ := answer_bind.mp hcode
    obtain rfl := Except.ok.inj hcode
    have hallocate : Plain (allocate ctx i .newObject declaring.symbol) := by
      refine .append (.append (.append (.append (.append ?_ (reserve_plain _)) ?_) ?_) (drop_plain _)) ?_ <;> rfl
    refine .append (.append (.append (.append (.append hallocate (reserve_plain 8))
      (.flatMap _ fun _ => ?_)) ?_) ?_) (drop_plain _) <;> rfl

/-- Where a template calls a method or begins or ends one, `hi` and `lo` are not read. -/
theorem emit_unread (h : i.op.operation.entersMethods = true) : Lacks Instr.readsProduct (emit ctx i e).code := by
  unfold emit
  cases hop : i.op.operation with
  | call => exact .ofExcept fun _ hcode => (call_plain hcode).unread
  | callIndirect => exact (callIndirect_plain e).unread
  | callVirtual => exact .ofExcept fun _ hcode => (callVirtual_plain hcode).unread
  | newObject => exact .ofExcept fun _ hcode => (newObject_plain hcode).unread
  | methodStart => exact .append rfl (.replicate _ rfl)
  | methodEnd => exact epilogue_unread
  | _ =>
    rw [hop] at h
    cases h

end Calls

/-- No template both reads `hi` or `lo` and jumps through a register. -/
theorem emit_unread_or_direct {ctx : EmitContext} {i : Instruction} {e : Effect}
    (hfailure : (emit ctx i e).failure = none) :
    Lacks Instr.readsProduct (emit ctx i e).code ∨ ∀ instr ∈ (emit ctx i e).code, instr.jumpsByRegister = false := by
  cases hcalls : i.op.operation.entersMethods with
  | true => exact .inl (emit_unread hcalls)
  | false =>
    obtain ⟨live, -, need, hneed, -⟩ := emit_isolated hcalls hfailure
    exact .inr (jumpsByRegister_of_needs hneed)

/-! ## Spans -/

/-- An instruction that reads `hi` or `lo` lies at the index. -/
def ReadsProduct (p : Program Instr) (k : Nat) : Prop :=
  ∃ instr, p.code[k]? = some instr ∧ instr.readsProduct = true

/-- No instruction that reads `hi` or `lo` lies at the address. -/
def Clear (p : Program Instr) (a : UInt32) : Prop := ∀ k, a = codeAddress k → ¬ReadsProduct p k

section Spans

variable {tables : Table} {options : Options} {methods : List (CompiledMethod Instr)} {config : RunConfig}
  {p : Program Instr} (hcompiled : ∀ m ∈ methods, ∃ body, compileMethod backend tables options body = .ok m)
  (hlinked : Linked methods tables options config p)

theorem labelled_filled (ctx : EmitContext) (i : Instruction) (e : Effect) :
    Filled (labelled ctx i (backend.emit ctx i e).code) :=
  .append (.ite (.of_eval rfl) .nil) (emit_filled ctx i e)

include hcompiled hlinked

/-- Behind a delay slot the span goes on with `nop`. -/
theorem slot_of_linked {k : Nat} {instr : Instr} (hinstr : p.code[k]? = some instr)
    (hslot : instr.hasDelaySlot = true) : p.code[k + 1]? = some .nop ∧ Together methods k (k + 1) := by
  obtain ⟨base, span, hspan, hk⟩ := exists_spanAt hcompiled hlinked (Array.getElem?_eq_some_iff.mp hinstr).1
  obtain ⟨body, m, c, j, i, -, -, hselects⟩ := hspan.selects hcompiled hlinked
  obtain ⟨n, rfl, hn⟩ := hselects.inside hk hinstr
  obtain ⟨hnext, hfetch⟩ := hselects.outside ((labelled_filled c.ctx i span.effect).slot _ _ hn hslot)
  exact ⟨hfetch, base, span, hspan, hk, hnext⟩

/-- What reads `hi` or `lo` is not the first of its span, and the instruction before it uses them, too. -/
theorem product_of_linked {base k : Nat} {span : Span} (hspan : SpanAt methods base span) (hk : span.HoldsAt base k)
    (hreads : ReadsProduct p k) : ∃ j before, k = j + 1 ∧ span.HoldsAt base j ∧ p.code[j]? = some before ∧
      before.usesProduct = true := by
  obtain ⟨instr, hinstr, hreads⟩ := hreads
  obtain ⟨body, m, c, j, i, -, -, hselects⟩ := hspan.selects hcompiled hlinked
  obtain ⟨n, rfl, hn⟩ := hselects.inside hk hinstr
  obtain ⟨n, before, rfl, hbefore, huses⟩ := (labelled_filled c.ctx i span.effect).product _ _ hn hreads
  obtain ⟨hlast, hfetch⟩ := hselects.outside hbefore
  exact ⟨_, before, rfl, hlast, hfetch, huses⟩

/-- Where `hi` or `lo` is read, no instruction of the span jumps through a register. -/
theorem direct_of_linked {j k : Nat} (h : Together methods j k) (hreads : ReadsProduct p k) {instr : Instr}
    (hinstr : p.code[j]? = some instr) : instr.jumpsByRegister = false := by
  obtain ⟨base, span, hspan, hj, hk⟩ := h
  obtain ⟨reader, hreader, hreads⟩ := hreads
  obtain ⟨body, m, c, j, i, -, -, hselects⟩ := hspan.selects hcompiled hlinked
  obtain ⟨n, -, hn⟩ := hselects.inside hk hreader
  obtain ⟨n', -, hn'⟩ := hselects.inside hj hinstr
  have hmem := List.mem_of_getElem? hn
  have hmem' := List.mem_of_getElem? hn'
  have hlabel : ∀ instr' ∈ (if i.labelRequired then [TargetInstr.label (c.ctx.labelAt i.position)] else [] : List Instr),
      instr'.readsProduct = false ∧ instr'.jumpsByRegister = false := by
    intro instr' hinstr'
    split at hinstr'
    · rw [List.mem_singleton.mp hinstr']
      exact ⟨rfl, rfl⟩
    · cases hinstr'
  rcases List.mem_append.mp hmem' with hmem' | hmem'
  · exact (hlabel _ hmem').2
  rcases emit_unread_or_direct hselects.emitted with hunread | hdirect
  · rcases List.mem_append.mp hmem with hmem | hmem
    · rw [(hlabel _ hmem).1] at hreads
      cases hreads
    · rw [hunread.of_mem hmem] at hreads
      cases hreads
  · exact hdirect _ hmem'

variable (hfits : p.code.size < codeLimit)

include hfits

omit hcompiled in
theorem clear_label {l : Label} {a : UInt32} (h : p.labelAddress l = .ok a) :
    Clear p a ∧ Intrinsic.atAddress? a = none := by
  obtain ⟨k, instr, rfl, hinstr, hlabel⟩ := hlinked.labelAddress_ok h
  have hk := (Array.getElem?_eq_some_iff.mp hinstr).1
  refine ⟨fun j hj hreads => ?_, atAddress?_codeAddress (by omega)⟩
  obtain ⟨reader, hreader, hreads⟩ := hreads
  have hj' := (Array.getElem?_eq_some_iff.mp hreader).1
  obtain rfl := (codeAddress_inj (by omega) (by omega)).mp hj
  obtain rfl := Option.some.inj (hinstr.symm.trans hreader)
  cases instr with
  | label => cases hreads
  | _ => cases hlabel

theorem clear_symbol {s : Symbol} {a : UInt32} (h : p.resolve s = .ok a) : Clear p a := by
  intro k hk hreads
  obtain ⟨reader, hreader, -⟩ := id hreads
  have hlt := (Array.getElem?_eq_some_iff.mp hreader).1
  have hcode := toNat_codeAddress (k := k) (by omega)
  rcases hlinked.resolve_cases h with ⟨n, hn, -, rfl⟩ | ⟨base, m, hplaced, rfl⟩ | hlow
  · have hintrinsic : ∀ (n : Nat), n < Intrinsic.all.length →
        Intrinsic.atAddress? (intrinsicBase + 4 * UInt32.ofNat n) ≠ none := by decide
    exact hintrinsic n hn (hk ▸ atAddress?_codeAddress (by omega))
  · -- the method would start inside of a span
    have hend := (placeMethods_le hplaced).2
    rw [hlinked.code, List.size_toArray] at hlt hfits
    dsimp only at hend
    obtain rfl := (codeAddress_inj (by omega) (by omega)).mp hk
    obtain ⟨base', span, hspan, hholds⟩ := exists_spanAt hcompiled hlinked (k := base)
      (by rw [hlinked.code, List.size_toArray]; exact hlt)
    obtain ⟨j, -, rfl, hj, -⟩ := product_of_linked hcompiled hlinked hspan hholds hreads
    obtain ⟨m', hplaced', -, hstop⟩ := hspan.stop_le hcompiled
    have hlow := hj.1
    have hhigh := hholds.2
    have hordered := placeMethods_ordered hplaced' hplaced (by omega)
    omega
  · rw [hk, hcode] at hlow
    omega

end Spans

end Stencil.Mips
