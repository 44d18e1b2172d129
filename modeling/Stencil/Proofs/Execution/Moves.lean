import Stencil.Proofs.Execution.Turns
import Stencil.Proofs.Meaning.Interpreter

/-!
# Templates that move values

`Passes` says what a template makes of a whole stack. `MovesValues` collects it for the templates that
compute nothing, or convert one integer: they move values between the operand stack and the frame, drop
them, or go elsewhere.
-/

namespace Stencil

open Meaning

theorem Template.ofExcept_ok {I : Type} {answer : Except CompileError (List I)}
    (h : (Template.ofExcept answer).failure = none) :
    answer = .ok (Template.ofExcept answer).code := by
  cases answer with
  | ok code => rfl
  | error err => cases h

theorem targetLabel_ok {ctx : EmitContext} {i : Instruction} {target : Int} {l : Label}
    (h : ctx.targetLabel i target = .ok l) : l = ctx.labelAt target.toNat := by
  unfold EmitContext.targetLabel at h
  split at h
  · exact (Except.ok.inj h).symm
  · cases h

/-- Code is emitted for a target only if it has a label. -/
theorem target_of_emitted {I : Type} {ctx : EmitContext} {i : Instruction} {f : Label → List I}
    (h : (Template.ofExcept (do
      let target ← ctx.targetLabel i (← i.branchTarget)
      return f target)).failure = none) :
    ∃ target, i.branchTarget = .ok target ∧ ctx.targetLabel i target = .ok (ctx.labelAt target.toNat) := by
  obtain ⟨target, htarget, hrest⟩ := Stateful.answer_bind.mp (Template.ofExcept_ok h)
  obtain ⟨l, hl, -⟩ := Stateful.answer_bind.mp hrest
  obtain rfl := targetLabel_ok hl
  exact ⟨target, htarget, hl⟩

theorem toOption_eq_some {ε α : Type} {x : Except ε α} {a : α} : x.toOption = some a ↔ x = .ok a := by
  cases x <;> simp [Except.toOption]

theorem StackItem.words_of_size {item : StackItem} {n : Nat} (h : item.size = 4 * n) : item.words = n := by
  rw [words, h]
  omega

theorem Bytes.combine_lt (bytes : List UInt8) : combine bytes < 256 ^ bytes.length := by
  induction bytes with
  | nil => exact Nat.one_pos
  | cons b rest ih =>
    have hb := b.toNat_lt
    rw [combine, List.length_cons, Nat.pow_succ]
    omega

theorem Instruction.length_switchTargets {i : Instruction} {targets : List Int}
    (h : i.switchTargets = .ok targets) : targets.length < 0x100000000 := by
  obtain ⟨count, hcount, h⟩ := Stateful.answer_bind.mp h
  obtain ⟨bytes, hbytes, rfl⟩ := Stateful.answer_map.mp hcount
  have hlength : bytes.length ≤ 4 := by
    unfold operandBytes at hbytes
    split at hbytes
    · obtain rfl := Except.ok.inj hbytes
      exact List.length_take_le _ _
    · cases hbytes
  have hlt : Bytes.combine bytes < 256 ^ 4 :=
    (Bytes.combine_lt bytes).trans_le (Nat.pow_le_pow_right (by decide) hlength)
  dsimp only at h
  split at h
  · cases h
  · have htargets := (Stateful.answer_mapM.mp h).length_eq
    rw [List.length_range] at htargets
    omega

variable {I R M : Type} [TargetInstr I] [LabelUse I] [Semantics I R M]

/-- With the one stack the template leads through the exit with the other, and the frame pointer stays. -/
structure Passes (backend : Backend I) (ctx : EmitContext) (i : Instruction) (e : Effect) (fp : UInt32)
    (words : List UInt32) (x : Exit) (words' : List UInt32) : Prop where
  reaches : ∀ {p : Program I} {base : Nat} {m : M}, p.code.size ≤ codeLimit →
    Placed p base (backend.emit ctx i e).code → (∀ l, x = .goto l → ∃ k, p.labels[l]? = some k) →
    Poised I m base words fp →
    Reaches (Semantics.cycle p) m fun m' => ∃ k,
      x.LeadsTo p (base + (backend.emit ctx i e).code.length) k ∧ Poised I m' k words' fp

section Passes

variable {backend : Backend I} {ctx : EmitContext} {i : Instruction} {e : Effect} {fp : UInt32}
  {words words' : List UInt32} {x : Exit}

theorem Passes.of_turns (code : List I) (hcode : (backend.emit ctx i e).code = code)
    (h : Turns code words fp x words' fp) : Passes backend ctx i e fp words x words' where
  reaches hfits hplaced hlabel hm := by
    rw [hcode] at hplaced ⊢
    exact hm.leaves h hfits hplaced hlabel

theorem Trades.passes {operands results : List UInt32} (h : Trades backend ctx i e operands x results)
    (fp : UInt32) (deep : List UInt32) : Passes backend ctx i e fp (operands ++ deep) x (results ++ deep) where
  reaches := h.reaches

end Passes

/-! ## Copies of the top value -/

section Copies

variable {value deep : List UInt32}

/-- While the top value is pushed again, high word first, the next word is always at the same distance. -/
theorem copy_step (deep : List UInt32) {k : Nat} (hk : k < value.length) :
    ∃ front tail, value.drop (k + 1) ++ (value ++ deep) = front ++ value[k] :: tail ∧
      value.drop k ++ (value ++ deep) = value[k] :: (value.drop (k + 1) ++ (value ++ deep)) ∧
      front.length + 1 = value.length := by
  refine ⟨value.drop (k + 1) ++ value.take k, value.drop (k + 1) ++ deep, ?_, ?_, ?_⟩
  · rw [List.append_assoc, ← List.cons_append, ← List.append_assoc (value.take k),
      List.getElem_cons_drop, List.take_append_drop]
  · rw [List.drop_eq_getElem_cons hk, List.cons_append]
  · rw [List.length_append, List.length_drop, List.length_take]
    omega

theorem Turns.copies {code : List I} {fp : UInt32}
    (hread : ∀ {front tail : List UInt32} {w : UInt32}, front.length + 1 = value.length →
      (front ++ w :: tail).length < stackCapacity →
      Turns code (front ++ w :: tail) fp .next (w :: (front ++ w :: tail)) fp)
    (hroom : value.length + (value ++ deep).length ≤ stackCapacity) :
    Turns (List.replicate value.length code).flatten (value ++ deep) fp .next
      (value ++ (value ++ deep)) fp := by
  have hloop : Turns ((List.range value.length).reverse.flatMap fun _ => code)
      (value.drop value.length ++ (value ++ deep)) fp .next (value.drop 0 ++ (value ++ deep)) fp := by
    refine Turns.countDown _ (fun k => value.drop k ++ (value ++ deep)) fun k hk => ?_
    obtain ⟨front, tail, hbefore, hafter, hfront⟩ := copy_step deep hk
    have hshort : (value.drop (k + 1) ++ (value ++ deep)).length < stackCapacity := by
      rw [List.length_append, List.length_drop]
      omega
    rw [hafter]
    rw [hbefore] at hshort ⊢
    exact hread hfront hshort
  rw [List.drop_length, List.nil_append, List.drop_zero, List.flatMap_def, List.map_const',
    List.length_reverse, List.length_range] at hloop
  exact hloop

end Copies

/-! ## What a target does -/

def switchExit (ctx : EmitContext) (targets : List Int) (case : Nat) : Exit :=
  match targets[case]? with
  | some target => .goto (ctx.labelAt target.toNat)
  | none => .next

/-- The templates of the other operations of the fragment do what the operations mean. -/
structure MovesValues (backend : Backend I) : Prop where
  nop : ∀ {ctx : EmitContext} {i : Instruction} {e : Effect}, i.op.operation = .nop →
    Trades backend ctx i e [] .next []
  load : ∀ (isArg : Bool) {ctx : EmitContext} {i : Instruction} {e : Effect} {slot : FrameSlot}
    {words front value rest : List UInt32} {fp : UInt32},
    i.op.operation = (if isArg then .loadArg else .loadLocal) →
    (backend.emit ctx i e).failure = none → ctx.slot i isArg = .ok slot →
    slot.item.size = 4 * value.length → Lies words fp slot.offset front value rest →
    value.length + words.length ≤ stackCapacity →
    Passes backend ctx i e fp words .next (value ++ words)
  store : ∀ (isArg : Bool) {ctx : EmitContext} {i : Instruction} {e : Effect} {slot : FrameSlot}
    {words front old rest value : List UInt32} {fp : UInt32},
    i.op.operation = (if isArg then .storeArg else .storeLocal) →
    (backend.emit ctx i e).failure = none → ctx.slot i isArg = .ok slot →
    slot.item.size = 4 * value.length → value.length = old.length →
    Lies words fp slot.offset front old rest →
    Passes backend ctx i e fp (value ++ words) .next (front ++ (value ++ rest))
  constant : ∀ {ctx : EmitContext} {i : Instruction} {e : Effect} {value words : List UInt32}
    {fp : UInt32}, i.op.operation = .loadConst → constant? i = some value →
    value.length + words.length ≤ stackCapacity →
    Passes backend ctx i e fp words .next (value ++ words)
  null : ∀ {ctx : EmitContext} {i : Instruction} {e : Effect} {words : List UInt32} {fp : UInt32},
    i.op.operation = .loadNull → words.length < stackCapacity →
    Passes backend ctx i e fp words .next (0 :: words)
  dup : ∀ {ctx : EmitContext} {i : Instruction} {e : Effect} {value deep : List UInt32} {fp : UInt32},
    i.op.operation = .dup → (backend.emit ctx i e).failure = none →
    e.result.size = 4 * value.length → value.length + (value ++ deep).length ≤ stackCapacity →
    Passes backend ctx i e fp (value ++ deep) .next (value ++ (value ++ deep))
  pop : ∀ {ctx : EmitContext} {i : Instruction} {e : Effect} {value : List UInt32},
    i.op.operation = .pop → (e.operand 0).size = 4 * value.length → (e.operand 0).isNew = false →
    Trades backend ctx i e value .next []
  convert : ∀ {ctx : EmitContext} {i : Instruction} {e : Effect} {target : ConvTarget} {a c : Value}
    {deep : List UInt32} {fp : UInt32}, i.op.operation = .convert (some target) →
    ctx.options.pointerSize = 4 → Meaning.convert target a = some c →
    (e.operand 0).size = 4 * a.length → c.length + deep.length ≤ stackCapacity →
    Passes backend ctx i e fp (a ++ deep) .next (c ++ deep)
  jump : ∀ {ctx : EmitContext} {i : Instruction} {e : Effect} {target : Int} {l : Label},
    i.op.operation = .branch .always → i.branchTarget = .ok target →
    ctx.targetLabel i target = .ok l → Trades backend ctx i e [] (.goto l) []
  switch : ∀ {ctx : EmitContext} {i : Instruction} {e : Effect} {targets : List Int}
    {selector : UInt32}, i.op.operation = .switch → i.switchTargets = .ok targets →
    (backend.emit ctx i e).failure = none →
    Trades backend ctx i e [selector] (switchExit ctx targets selector.toNat) []
  leave : ∀ {ctx : EmitContext} {i : Instruction} {e : Effect} {target : Int} {l : Label}
    {values : List UInt32}, i.op.operation = .leave → i.branchTarget = .ok target →
    ctx.targetLabel i target = .ok l → e.poppedBytes = 4 * values.length →
    Trades backend ctx i e values (.goto l) []
  /-- Code is emitted only for targets that have a label. -/
  target : ∀ {ctx : EmitContext} {i : Instruction} {e : Effect},
    ((∃ condition, i.op.operation = .branch condition) ∨ i.op.operation = .leave) →
    (backend.emit ctx i e).failure = none →
    ∃ target, i.branchTarget = .ok target ∧
      ctx.targetLabel i target = .ok (ctx.labelAt target.toNat)

end Stencil
