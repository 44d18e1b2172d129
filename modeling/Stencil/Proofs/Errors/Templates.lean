import Stencil.Mips.Backend
import Stencil.Proofs.Errors.Lookups
import Stencil.Proofs.Errors.Sites
import Stencil.X86.Backend

/-!
# Errors of templates

Once the look-ups of an instruction are answered, an x86 template fails for a virtual call whose
method's declaring type is unknown and for nothing else. A MIPS template fails for the same reason, or
because a displacement does not fit a halfword.
-/

namespace Stencil

open Stateful

/-- A virtual call of a method whose declaring type the table lacks. -/
def LacksDeclaringType (tables : Table) (i : Instruction) : Prop :=
  i.op.operation = .callVirtual ∧
    ∃ m, tables.resolveMethod i = .ok m ∧ tables.type? m.declaringType = none

def MissingDeclaringType (tables : Table) (i : Instruction) (e : CompileError) : Prop :=
  LacksDeclaringType tables i ∧ e = i.unresolved .type

/-- The error of a displacement that does not fit a signed halfword. -/
def OutOfReach (i : Instruction) (e : CompileError) : Prop :=
  ∃ offset : Int, ¬(-32768 ≤ offset ∧ offset ≤ 32767) ∧ e = i.unsupported (.displacement offset)

/-- The template fails with errors of this kind only. -/
def Template.Errs {I : Type} (P : CompileError → Prop) (t : Template I) : Prop :=
  ∀ e, t.failure = some e → P e

namespace Template.Errs

variable {I : Type} {P : CompileError → Prop}

theorem of_code (code : List I) : Template.Errs P { code } := by
  intro e h
  cases h

theorem of_answer {x : Except CompileError (List I)} (h : Stencil.Errs P x) :
    Template.Errs P (.ofExcept x) := by
  intro e hfailure
  cases x with
  | ok code => cases hfailure
  | error e' =>
    obtain rfl := Option.some.inj hfailure
    exact h _ rfl

end Template.Errs

/-- Method and declaring type of a virtual call are found, unless the type is missing. -/
theorem methodAndType_errs {ctx : EmitContext} {i : Instruction} {m : MethodDescriptor}
    (hop : i.op.operation = .callVirtual) (hm : ctx.tables.resolveMethod i = .ok m) :
    Errs (MissingDeclaringType ctx.tables i) (ctx.methodAndType i) := by
  refine .bind (.of_ok hm) fun m' hm' => ?_
  obtain rfl := Except.ok.inj (hm.symm.trans hm')
  refine .bind (fun e he => ?_) fun _ _ => .ok _
  cases htype : ctx.tables.type? m.declaringType with
  | some t => simp [Table.typeFor, Table.require, htype] at he
  | none =>
    rw [Table.typeFor, htype] at he
    exact ⟨⟨hop, m, hm, htype⟩, (Except.error.inj he).symm⟩

theorem methodAndType_of_lacks {ctx : EmitContext} {i : Instruction}
    (h : LacksDeclaringType ctx.tables i) : ctx.methodAndType i = .error (i.unresolved .type) := by
  obtain ⟨-, m, hm, htype⟩ := h
  have hfor : ctx.tables.typeFor i m.declaringType = .error (i.unresolved .type) := by
    rw [Table.typeFor, htype]
    rfl
  unfold EmitContext.methodAndType
  rw [hm]
  show (ctx.tables.typeFor i m.declaringType >>= _) = _
  rw [hfor]
  rfl

/-! ## x86 -/

namespace X86

variable {ctx : EmitContext} {i : Instruction} {e : Effect}

theorem binary_errs {P : CompileError → Prop} {op : BinaryOp}
    (h : (e.operand 0).size = 8 → op.isDivision = false) : Template.Errs P (binary i e op) := by
  unfold binary
  split
  · rename_i hwide
    have hop := h (by simpa [isWide] using hwide)
    cases op <;> first | exact .of_code _ | cases hop
  · exact .of_code _

theorem switch_errs {P : CompileError → Prop} {targets : List Int}
    (htargets : i.switchTargets = .ok targets)
    (hlabels : ∀ t ∈ targets, ∃ l, ctx.targetLabel i t = .ok l) : Template.Errs P (switch ctx i) := by
  have hcases : ∀ (targets : List Int) (case : Nat),
      (∀ t ∈ targets, ∃ l, ctx.targetLabel i t = .ok l) →
      Template.Errs P (switchCases ctx i case targets) := by
    intro targets
    induction targets with
    | nil => exact fun _ _ => .of_code _
    | cons t rest ih =>
      intro case hlabels
      obtain ⟨l, hl⟩ := hlabels t List.mem_cons_self
      unfold switchCases
      rw [hl]
      exact ih (case + 1) fun u hu => hlabels u (List.mem_cons_of_mem _ hu)
  unfold switch
  rw [htargets]
  exact hcases targets 0 hlabels

/-- What a template fails for once its look-ups are answered. -/
theorem emit_errs (h : Answered ctx i e i.op.operation) :
    Template.Errs (MissingDeclaringType ctx.tables i) (emit ctx i e) := by
  unfold emit
  generalize hop : i.op.operation = op at h
  cases op with
  | nop | methodStart | methodEnd | ret | loadNull | dup | pop | unary | shift | compare | loadLength
  | callIndirect | throw => exact .of_code _
  | loadArg | loadArgAddress | storeArg | loadLocal | loadLocalAddress | storeLocal =>
    obtain ⟨slot, hslot⟩ := h
    exact .of_answer (.bind (.of_ok hslot) fun _ _ => .ok _)
  | loadConst =>
    refine .of_answer ?_
    by_cases hlong : i.op = .ldcI8
    · rw [Answered, if_pos hlong] at h
      obtain ⟨value, hvalue⟩ := h
      rw [loadConst, if_pos hlong]
      exact .map (.of_ok hvalue) _
    · rw [Answered, if_neg hlong] at h
      obtain ⟨value, hvalue⟩ := h
      rw [loadConst, if_neg hlong]
      exact .map (.of_ok hvalue) _
  | loadString | loadFunction =>
    obtain ⟨_, h⟩ := h
    exact .of_answer (.map (.map (.of_ok h) _) _)
  | loadToken =>
    obtain ⟨_, h⟩ := h
    exact .of_answer (.map (.of_ok h) _)
  | sizeOf =>
    obtain ⟨_, h⟩ := h
    exact .of_answer (.map (.map (.of_ok h) _) _)
  | binary op => exact binary_errs h
  | convert target =>
    obtain ⟨target, rfl⟩ := Option.isSome_iff_exists.mp h
    exact .of_answer (.ok _)
  | branch condition | leave =>
    obtain ⟨t, l, ht, hl⟩ := h
    refine .of_answer (.bind (.of_ok ht) fun t' ht' => ?_)
    obtain rfl := Except.ok.inj (ht.symm.trans ht')
    exact .bind (.of_ok hl) fun _ _ => .ok _
  | switch =>
    obtain ⟨targets, htargets, hlabels⟩ := h
    exact switch_errs htargets hlabels
  | loadField | loadFieldAddress | storeField | loadStatic | loadStaticAddress | storeStatic =>
    obtain ⟨_, h⟩ := h
    exact .of_answer (.bind (.of_ok h) fun _ _ => .ok _)
  | loadIndirect kind | storeIndirect kind | loadElement kind | storeElement kind =>
    obtain ⟨_, h⟩ := h
    exact .of_answer (.bind (.of_ok h) fun _ _ => .ok _)
  | loadElementAddress | initObject =>
    obtain ⟨_, h⟩ := h
    exact .of_answer (.bind (.map (.of_ok h) _) fun _ _ => .ok _)
  | newArray | isInstance | castClass | call =>
    obtain ⟨_, h⟩ := h
    exact .of_answer (.bind (.of_ok h) fun _ _ => .ok _)
  | callVirtual =>
    obtain ⟨m, hm⟩ := h
    exact .of_answer (.bind (methodAndType_errs hop hm) fun _ _ => .ok _)
  | newObject =>
    obtain ⟨ctor, declaring, hmethod, hparams⟩ := h
    refine .of_answer (.bind (.of_ok hmethod) fun pair hpair => ?_)
    obtain rfl := Except.ok.inj (hmethod.symm.trans hpair)
    dsimp only
    split
    · exact .ok _
    · rename_i hdelegate
      obtain ⟨bytes, hbytes⟩ := hparams (by simpa using hdelegate)
      exact .bind (.of_ok hbytes) fun _ _ => .ok _

theorem emit_of_lacks (h : LacksDeclaringType ctx.tables i) :
    (emit ctx i e).failure = some (i.unresolved .type) := by
  unfold emit
  rw [h.1]
  dsimp only
  unfold callVirtual
  rw [methodAndType_of_lacks h]
  rfl

end X86

/-! ## MIPS -/

namespace Mips

variable {ctx : EmitContext} {i : Instruction} {e : Effect} {P : CompileError → Prop}

theorem displacement_errs (hreach : ∀ err, OutOfReach i err → P err) (offset : Int) :
    Errs P (displacement i offset) := by
  unfold displacement
  split
  · exact .ok _
  · rename_i hrange
    exact .error (hreach _ ⟨offset, hrange, rfl⟩)

theorem binary_errs {op : BinaryOp} (h : (e.operand 0).size = 8 → op.isDivision = false) :
    Errs P (binary i e op) := by
  unfold binary
  split
  · rename_i hwide
    have hop := h (by simpa [isWide] using hwide)
    cases op <;> first | exact .ok _ | cases hop
  · exact .ok _

theorem switch_errs {targets : List Int} (htargets : i.switchTargets = .ok targets)
    (hlabels : ∀ t ∈ targets, ∃ l, ctx.targetLabel i t = .ok l) : Template.Errs P (switch ctx i) := by
  have hcases : ∀ (targets : List Int) (case : Nat),
      (∀ t ∈ targets, ∃ l, ctx.targetLabel i t = .ok l) →
      Template.Errs P (switchCases ctx i case targets) := by
    intro targets
    induction targets with
    | nil => exact fun _ _ => .of_code _
    | cons t rest ih =>
      intro case hlabels
      obtain ⟨l, hl⟩ := hlabels t List.mem_cons_self
      unfold switchCases
      rw [hl]
      exact ih (case + 1) fun u hu => hlabels u (List.mem_cons_of_mem _ hu)
  unfold switch
  rw [htargets]
  exact hcases targets 0 hlabels

section Reach

variable (hreach : ∀ err, OutOfReach i err → P err)

include hreach

theorem reachableSlot_errs {isArg : Bool} {slot : FrameSlot} (h : ctx.slot i isArg = .ok slot) :
    Errs P (reachableSlot ctx i isArg) :=
  .bind (.of_ok h) fun _ _ => .bind (displacement_errs hreach _) fun _ _ =>
    .bind (displacement_errs hreach _) fun _ _ => .ok _

theorem reachableField_errs {access : FieldDescriptor × Access} (h : ctx.fieldAccess i = .ok access) :
    Errs P (reachableField ctx i) :=
  .bind (.of_ok h) fun _ _ => .bind (displacement_errs hreach _) fun _ _ =>
    .bind (displacement_errs hreach _) fun _ _ => .ok _

theorem returnValue_errs (bytes : Nat) : Errs P (returnValue i bytes) := by
  unfold returnValue
  split
  · exact .ok _
  · exact .ok _
  · exact .ok _
  · exact .bind (displacement_errs hreach _) fun _ _ => .ok _

theorem newObject_errs {ctor : MethodDescriptor} {declaring : TypeDescriptor}
    (hmethod : ctx.methodAndType i = .ok (ctor, declaring))
    (hparams : declaring.isDelegate = false → ∃ bytes, ctx.paramBytes i ctor.params = .ok bytes) :
    Errs P (newObject ctx i) := by
  refine .bind (.of_ok hmethod) fun pair hpair => ?_
  obtain rfl := Except.ok.inj (hmethod.symm.trans hpair)
  dsimp only
  split
  · exact .ok _
  · rename_i hdelegate
    obtain ⟨bytes, hbytes⟩ := hparams (by simpa using hdelegate)
    exact .bind (.of_ok hbytes) fun _ _ => .bind (displacement_errs hreach _) fun _ _ => .ok _

end Reach

/-- What a template fails for once its look-ups are answered. -/
theorem emit_errs (h : Answered ctx i e i.op.operation) :
    Template.Errs (fun err => MissingDeclaringType ctx.tables i err ∨ OutOfReach i err)
      (emit ctx i e) := by
  have hreach : ∀ err, OutOfReach i err →
      MissingDeclaringType ctx.tables i err ∨ OutOfReach i err := fun _ => .inr
  have hdisplacement := displacement_errs hreach
  unfold emit
  generalize hop : i.op.operation = op at h
  cases op with
  | nop | methodStart | methodEnd | loadNull | pop | unary | shift | compare | loadLength
  | callIndirect | throw => exact .of_code _
  | ret => exact .of_answer (.bind (returnValue_errs hreach _) fun _ _ => .ok _)
  | dup => exact .of_answer (.bind (hdisplacement _) fun _ _ => .ok _)
  | loadArg | loadArgAddress | storeArg | loadLocal | loadLocalAddress | storeLocal =>
    obtain ⟨slot, hslot⟩ := h
    exact .of_answer (.bind (reachableSlot_errs hreach hslot) fun _ _ => .ok _)
  | loadConst =>
    refine .of_answer ?_
    by_cases hlong : i.op = .ldcI8
    · rw [Answered, if_pos hlong] at h
      obtain ⟨value, hvalue⟩ := h
      rw [loadConst, if_pos hlong]
      exact .map (.of_ok hvalue) _
    · rw [Answered, if_neg hlong] at h
      obtain ⟨value, hvalue⟩ := h
      rw [loadConst, if_neg hlong]
      exact .map (.of_ok hvalue) _
  | loadString | loadFunction =>
    obtain ⟨_, h⟩ := h
    exact .of_answer (.map (.map (.of_ok h) _) _)
  | loadToken =>
    obtain ⟨_, h⟩ := h
    exact .of_answer (.map (.of_ok h) _)
  | sizeOf =>
    obtain ⟨_, h⟩ := h
    exact .of_answer (.map (.map (.of_ok h) _) _)
  | binary op => exact .of_answer (binary_errs h)
  | convert target =>
    obtain ⟨target, rfl⟩ := Option.isSome_iff_exists.mp h
    exact .of_answer (.ok _)
  | branch condition | leave =>
    obtain ⟨t, l, ht, hl⟩ := h
    refine .of_answer (.bind (.of_ok ht) fun t' ht' => ?_)
    obtain rfl := Except.ok.inj (ht.symm.trans ht')
    exact .bind (.of_ok hl) fun _ _ => .ok _
  | switch =>
    obtain ⟨targets, htargets, hlabels⟩ := h
    exact switch_errs htargets hlabels
  | loadField | loadFieldAddress | loadStatic | loadStaticAddress | storeStatic =>
    obtain ⟨_, h⟩ := h
    exact .of_answer (.bind (reachableField_errs hreach h) fun _ _ => .ok _)
  | storeField =>
    obtain ⟨_, h⟩ := h
    exact .of_answer (.bind (reachableField_errs hreach h) fun _ _ =>
      .bind (hdisplacement _) fun _ _ => .ok _)
  | loadIndirect kind =>
    obtain ⟨_, h⟩ := h
    exact .of_answer (.bind (.of_ok h) fun _ _ => .ok _)
  | storeIndirect kind =>
    obtain ⟨_, h⟩ := h
    exact .of_answer (.bind (.of_ok h) fun _ _ => .bind (hdisplacement _) fun _ _ => .ok _)
  | initObject =>
    obtain ⟨_, h⟩ := h
    exact .of_answer (.bind (.map (.of_ok h) _) fun _ _ => .ok _)
  | loadElement kind =>
    obtain ⟨_, h⟩ := h
    exact .of_answer (.bind (.of_ok h) fun _ _ =>
      .bind ((hdisplacement _).map _) fun _ _ => .ok _)
  | loadElementAddress =>
    obtain ⟨_, h⟩ := h
    exact .of_answer (.bind (.map (.of_ok h) _) fun _ _ =>
      .bind ((hdisplacement _).map _) fun _ _ => .ok _)
  | storeElement kind =>
    obtain ⟨_, h⟩ := h
    exact .of_answer (.bind (.of_ok h) fun _ _ => .bind ((hdisplacement _).map _) fun _ _ =>
      .bind (hdisplacement _) fun _ _ => .ok _)
  | newArray | isInstance | castClass | call =>
    obtain ⟨_, h⟩ := h
    exact .of_answer (.bind (.of_ok h) fun _ _ => .ok _)
  | callVirtual =>
    obtain ⟨m, hm⟩ := h
    refine .of_answer (.bind (fun err herr => ?_) fun _ _ => .bind (hdisplacement _) fun _ _ => .ok _)
    exact .inl (methodAndType_errs hop hm err herr)
  | newObject =>
    obtain ⟨ctor, declaring, hmethod, hparams⟩ := h
    exact .of_answer (newObject_errs hreach hmethod hparams)

end Mips

end Stencil
