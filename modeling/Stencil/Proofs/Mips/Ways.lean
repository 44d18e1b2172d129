import Stencil.Proofs.Mips.Convention
import Stencil.Proofs.Mips.Rests
import Stencil.Proofs.Ways.Basic

/-!
# Ways of calling a method on MIPS32

Every way of calling a method brings the machine to a transfer that is aimed at the method, with the
arguments on the stack (`callRuns_of_transfer`). Before it a function pointer is popped, or a receiver is
loaded and tested for null.
-/

namespace Stencil.Mips

open AddressMap Stateful Function

/-! ## Before the call -/

section Before

variable {p : Program Instr} {m : Machine} {base : Nat} {words front rest : List UInt32} {fp w : UInt32}

theorem rests_of_poised (h : Poised Instr m base words fp) : Rests m base m.reg m.store := by
  obtain ⟨hpc, hnpc, -⟩ := poised_iff.mp h
  exact ⟨hpc, hnpc, fun _ => rfl, rfl⟩

theorem aligned_of_poised (h : Poised Instr m base words fp) : (m.reg .sp).toNat % 4 = 0 := by
  obtain ⟨-, -, -, hsp, -, hholds⟩ := poised_iff.mp h
  rw [hsp]
  exact stackPointer_mod_four hholds.length_le

variable (hfits : p.code.size ≤ codeLimit)

include hfits

theorem pushes_address {s : Symbol} (hplaced : Placed p base (Instr.pushAddr s))
    (hsymbol : p.resolve s = .ok w) (hroom : words.length < stackCapacity)
    (h : Poised Instr m base words fp) :
    Reaches (Machine.cycle p) m fun m' => Poised Instr m' (base + 3) (w :: words) fp := by
  obtain ⟨-, -, hzero, hsp, hfp, hholds⟩ := poised_iff.mp h
  have haligned := aligned_of_poised h
  have hnext : m.reg .sp - 4 = wordAddress words.length := by
    rw [hsp, stackPointer_sub w, stackPointer_cons]
  have hparts : Placed p base ([Instr.la .t9 s] ++ Instr.push .t9) := hplaced
  have hpush : Placed p (base + 1) (Instr.push .t9) := hparts.back
  refine ((rests_of_poised h).la hfits (hplaced.fetch 0 _ rfl) (by decide) hsymbol).reaches fun m₁ h₁ => ?_
  have hsame : update m.reg .t9 w .sp = m.reg .sp := update_of_ne (by decide) _ _
  refine h₁.push hfits hpush (by decide) (by rwa [hsame]) ?_ fun m₂ h₂ => .here ?_
  · rw [hsame, hnext]
    exact mapped_wordAddress hroom
  rw [hsame, hnext, update_self] at h₂
  refine poised_iff.mpr ⟨h₂.pc, h₂.npc, ?_, ?_, ?_, ?_⟩
  · rw [h₂.reg, update_of_ne (by decide), update_of_ne (by decide), hzero]
  · rw [h₂.reg, update_self, stackPointer_cons]
  · rw [h₂.reg, update_of_ne (by decide), update_of_ne (by decide), hfp]
  · rw [h₂.store, Store.withWord, toNat_wordAddress hroom]
    exact hholds.put_word hroom

theorem pops_register {r : Reg} (hr : r ≠ .zero ∧ r ≠ .sp ∧ r ≠ .fp)
    (hplaced : Placed p base (Instr.pop r)) (h : Poised Instr m base (w :: words) fp) :
    Reaches (Machine.cycle p) m fun m' => Poised Instr m' (base + 2) words fp ∧ m'.reg r = w := by
  obtain ⟨-, -, hzero, hsp, hfp, hholds⟩ := poised_iff.mp h
  have hread : m.store.memory.read (m.reg .sp) 4 = .ok w := by
    rw [hsp, stackPointer_cons]
    exact hholds.read_top
  refine (rests_of_poised h).pop hfits hplaced hr.1 hr.2.1 (aligned_of_poised h) hread
    fun m₁ h₁ => .here ⟨?_, ?_⟩
  · refine poised_iff.mpr ⟨h₁.pc, h₁.npc, ?_, ?_, ?_, ?_⟩
    · rw [h₁.reg, update_of_ne (by decide), update_of_ne hr.1.symm, hzero]
    · rw [h₁.reg, update_self, hsp, stackPointer_cons_add]
    · rw [h₁.reg, update_of_ne (by decide), update_of_ne hr.2.2.symm, hfp]
    · rw [h₁.store]
      exact hholds.2.2
  · rw [h₁.reg, update_of_ne hr.2.1, update_self]

variable {ctx : EmitContext} {i : Instruction} {r : Reg} {disp : Int32} {after : List Instr}
  (hdisp : disp.toUInt32 = 4 * UInt32.ofNat front.length)
  (hplaced : Placed p base ([Instr.lw r disp .sp] ++ nullCheck ctx i r ++ after))
  (h : Poised Instr m base (front ++ w :: rest) fp) (hr : r ≠ .zero ∧ r ≠ .sp ∧ r ≠ .fp)

include hdisp hplaced h hr

theorem loads_receiver {Q : Machine → Prop}
    (hnext : ∀ m', Rests m' (base + 1) (update m.reg r w) m.store → Reaches (Machine.cycle p) m' Q) :
    Reaches (Machine.cycle p) m Q := by
  obtain ⟨-, -, -, hsp, -, hholds⟩ := poised_iff.mp h
  have haddress : m.reg .sp + disp.toUInt32 = wordAddress rest.length := by
    rw [hdisp, hsp, stackPointer_word]
  have hroom : rest.length < stackCapacity := hholds.of_append.1
  exact ((rests_of_poised h).lw hfits w (hplaced.fetch 0 _ rfl) hr.1 haddress (wordAddress_mod_four hroom)
    hholds.read).reaches hnext

theorem passes_receiver (hw : w ≠ 0) :
    Reaches (Machine.cycle p) m fun m' =>
      Poised Instr m' (base + 10) (front ++ w :: rest) fp ∧ m'.reg r = w := by
  obtain ⟨-, -, hzero, hsp, hfp, hholds⟩ := poised_iff.mp h
  have hcheck : Placed p (base + 1) (nullCheck ctx i r ++ after) := by
    rw [List.append_assoc] at hplaced
    exact hplaced.back
  refine loads_receiver hfits hdisp hplaced h hr fun m₁ h₁ => ?_
  refine h₁.nullCheck_object hfits hcheck (by rw [update_of_ne hr.1.symm, hzero]) (by rwa [update_self])
    fun m₂ h₂ => .here ⟨?_, ?_⟩
  · refine poised_iff.mpr ⟨h₂.pc, h₂.npc, ?_, ?_, ?_, ?_⟩
    · rw [h₂.reg, update_of_ne hr.1.symm, hzero]
    · rw [h₂.reg, update_of_ne hr.2.1.symm, hsp]
    · rw [h₂.reg, update_of_ne hr.2.2.symm, hfp]
    · rw [h₂.store]
      exact hholds
  · rw [h₂.reg, update_self]

theorem reports_null (hwf : p.WellFormed) (hw : w = 0)
    (hroom : (front ++ w :: rest).length < stackCapacity) :
    Ends (Machine.cycle p) (.nullReference (codeAddress (base + 3))) m := by
  obtain ⟨-, -, hzero, hsp, -, -⟩ := poised_iff.mp h
  have hcheck : Placed p (base + 1) (nullCheck ctx i r ++ after) := by
    rw [List.append_assoc] at hplaced
    exact hplaced.back
  have hsame : update m.reg r w .sp = m.reg .sp := update_of_ne hr.2.1.symm _ _
  refine loads_receiver hfits hdisp hplaced h hr fun m₁ h₁ => ?_
  refine h₁.nullCheck_null hfits hwf hcheck (by rw [update_of_ne hr.1.symm, hzero])
    (by rw [update_self, hw]) ?_ ?_
  · rw [hsame]
    exact aligned_of_poised h
  · rw [hsame, hsp, stackPointer_sub 0, stackPointer_cons]
    exact mapped_wordAddress hroom

end Before

/-! ## The call -/

/-- Once the arguments are on the stack and the transfer is aimed at the method, the method runs; after
it `bytes` are dropped from under the result. -/
theorem callRuns_of_transfer (dropped : List UInt32) {p : Program Instr} {tables : Table} {callee : EmitContext}
    {ret : Instruction} {e' : Effect} {site entry exit stop : Nat} (hret : ret.op.operation = .ret)
    (hframed : Frame.ofMethod tables 4 callee.method = .ok callee.frame)
    (hreturned : e'.poppedBytes = callee.frame.returnBytes)
    (hplaces : CalleePlaces backend p callee ret e' entry exit stop) {transfer : Instr} {bytes : Nat}
    {args : List (List UInt32)} {deep : List UInt32} {fp : UInt32} {m : Machine}
    (hplaced : Placed p site (Instr.reserve callee.frame.returnBytes ++ [transfer, .nop] ++
      afterCall callee.frame.returnBytes bytes))
    (hbytes : bytes = 4 * (pushedWords args).length + 4 * dropped.length)
    (hfill : Fill (callee.frame.args.map FrameSlot.item) args)
    (hroom : callee.frame.localSpan / 4 +
      (callee.frame.returnBytes / 4 + (pushedWords args ++ (dropped ++ deep)).length + 2) ≤ stackCapacity)
    (hm : Poised Instr m site (pushedWords args ++ (dropped ++ deep)) fp)
    (haims : Aims p transfer entry m) :
    CallRuns backend p callee entry exit (site + (Instr.reserve callee.frame.returnBytes ++
      [transfer, .nop] ++ afterCall callee.frame.returnBytes bytes).length) args (dropped ++ deep) deep
      fp m := by
  obtain ⟨⟨items, localItems, hof⟩, hlocals, hreturn⟩ := words_of_ofMethod hframed
  have hspan := hof.localBytes_eq (by omega)
  rw [← hspan] at hroom
  rw [show callee.frame.returnBytes = 4 * (callee.frame.returnBytes / 4) by omega] at hplaced ⊢
  refine callRuns_of_parts hof hlocals hspan hreturn hfill
    (enters hplaces.fits hplaced.front haims hplaces.starts hroom hm)
    (leaves_of_places hret hreturned hplaces _) fun {value args' m'} hvalue hargs hm' => ?_
  rw [List.length_append, ← Nat.add_assoc]
  rw [← List.append_assoc args'] at hm'
  refine hm'.turns (turns_afterCall (by omega) ?_) hplaces.fits hplaced.back
  rw [hbytes, List.length_append, hargs]
  omega

/-! ## The templates -/

theorem afterCall_word {args : Nat} (hargs : args ≠ 0) :
    afterCall 4 args = Instr.pop .t0 ++ Instr.drop args ++ Instr.push .t0 := if_neg hargs

section Templates

variable {ctx : EmitContext} {i : Instruction} {e : Effect} {declaring : TypeDescriptor}
  {method : MethodDescriptor}

theorem emit_direct (hop : i.op.operation = .call) (hmethod : ctx.tables.resolveMethod i = .ok method) :
    (backend.emit ctx i e).code = Instr.reserve e.pushedBytes ++ Instr.callSymbol method.symbol ++
      afterCall e.pushedBytes e.poppedBytes := by
  show (emit ctx i e).code = _
  rw [emit, hop]
  show (Template.ofExcept (Mips.call ctx i e)).code = _
  rw [Mips.call, hmethod]
  rfl

theorem emit_loadFunction (hop : i.op.operation = .loadFunction)
    (hmethod : ctx.tables.resolveMethod i = .ok method) :
    (backend.emit ctx i e).code = Instr.pushAddr method.symbol := by
  show (emit ctx i e).code = _
  rw [emit, hop]
  dsimp only
  rw [hmethod]
  rfl

theorem emit_callIndirect (hop : i.op.operation = .callIndirect) :
    (backend.emit ctx i e).code = Instr.pop .t9 ++ (Instr.reserve e.pushedBytes ++
      Instr.callReg .t9 ++ afterCall e.pushedBytes e.bytesBelow) := by
  show (emit ctx i e).code = _
  rw [emit, hop]
  show callIndirect e = _
  rw [callIndirect]
  simp only [List.append_assoc]

/-- The code in front of a call on a receiver or of a delegate. -/
def receiverCode (ctx : EmitContext) (i : Instruction) (disp : Int32) (r : Reg) : List Instr :=
  [Instr.lw r disp .sp] ++ nullCheck ctx i r

theorem receiver_displacement (hop : i.op.operation = .callVirtual)
    (hresolved : ctx.methodAndType i = .ok (method, declaring))
    (hfailure : (backend.emit ctx i e).failure = none) :
    ∃ disp, displacement i ((e.poppedBytes : Int) - ctx.options.pointerSize) = .ok disp ∧
      disp.toUInt32 = UInt32.ofNat e.poppedBytes - UInt32.ofNat ctx.options.pointerSize := by
  have hemit : backend.emit ctx i e = .ofExcept (callVirtual ctx i e) := by
    show emit ctx i e = _
    unfold emit
    rw [hop]
  rw [hemit, callVirtual, hresolved] at hfailure
  cases hdisp : displacement i ((e.poppedBytes : Int) - ctx.options.pointerSize) with
  | error err =>
    simp only [bind, Except.bind, hdisp] at hfailure
    cases hfailure
  | ok disp =>
    refine ⟨disp, rfl, ?_⟩
    rw [displacement_ok hdisp, Int32.ofInt_sub, Int32.toUInt32_sub]
    rfl

variable {disp : Int32} (hop : i.op.operation = .callVirtual)
  (hresolved : ctx.methodAndType i = .ok (method, declaring))
  (hdisp : displacement i ((e.poppedBytes : Int) - ctx.options.pointerSize) = .ok disp)

include hop hresolved hdisp

theorem emit_callReceiver (hdelegate : declaring.isDelegate = false) (hvirtual : method.isVirtual = false) :
    (backend.emit ctx i e).code = receiverCode ctx i disp .t0 ++ (Instr.reserve e.pushedBytes ++
      Instr.callSymbol method.symbol ++ afterCall e.pushedBytes e.poppedBytes) := by
  show (emit ctx i e).code = _
  rw [emit, hop]
  show (Template.ofExcept (callVirtual ctx i e)).code = _
  rw [callVirtual, hresolved]
  simp only [bind, Except.bind, hdisp, hdelegate, hvirtual, Bool.false_eq_true, if_false, Bool.not_false,
    if_true]
  simp only [pure, Except.pure, Template.ofExcept, receiverCode, List.append_assoc]

theorem emit_callDelegate (hdelegate : declaring.isDelegate = true) :
    (backend.emit ctx i e).code = receiverCode ctx i disp .t9 ++ (Instr.reserve e.pushedBytes ++
      Instr.callReg .t9 ++ afterCall e.pushedBytes e.poppedBytes) := by
  show (emit ctx i e).code = _
  rw [emit, hop]
  show (Template.ofExcept (callVirtual ctx i e)).code = _
  rw [callVirtual, hresolved]
  simp only [bind, Except.bind, hdisp, hdelegate, if_true]
  simp only [pure, Except.pure, Template.ofExcept, receiverCode, List.append_assoc]

omit hop hdisp in
/-- A delegate takes the place of the function pointer and of the receiver under it. -/
theorem newObject_delegate (hdelegate : declaring.isDelegate = true) :
    newObject ctx i = .ok (afterCall 4 4) := by
  rw [newObject, hresolved, afterCall_word (by decide)]
  exact if_pos hdelegate

omit hop hresolved hdisp in
theorem emit_newObject (hop : i.op.operation = .newObject) :
    backend.emit ctx i e = .ofExcept (newObject ctx i) := by
  show emit ctx i e = _
  unfold emit
  rw [hop]

end Templates

/-! ## All ways -/

section Ways

variable {env : SimEnv} {caller callee : EmitContext} {ret : Instruction} {e' : Effect}

theorem callsAgree (h : SimulatedMethod env caller callee ret e') :
    CallsAgree backend env caller callee ret e' := by
  intro args way hway hfine p site entry exit stop hplaced hplaces deep fp m hfill hroom hm
  have hframe := h.frame_eq
  have hreturned := h.poppedBytes
  obtain ⟨⟨items, localItems, hof⟩, -, -⟩ := words_of_ofMethod h.framed
  have hlength : (pushedWords args).length ≤ (pushedWords args ++ deep).length := by
    rw [List.length_append]
    omega
  have hargs := length_of_fill hof hfill (by omega)
  cases hway with
  | direct hop hmethod haccepts =>
    obtain ⟨_, _, hsimulate⟩ := haccepts
    have hpointer : env.pointerSize < 2 ^ 32 := by
      rw [h.pointerSize]
      decide
    obtain ⟨hpopped, hpushed⟩ := call_effect hpointer hop hmethod hframe hsimulate
    rw [← h.tables] at hmethod
    rw [templates_cons, templates_nil, List.append_nil, emit_direct hop hmethod, hpushed] at hplaced ⊢
    exact callRuns_of_transfer [] h.returns h.framed hreturned hplaces hplaced
      (by rw [hpopped, hargs]; rfl) hfill hroom hm (aims_symbol hplaces.resolves)
  | indirect hload hmethod hop hsignature hparams hreturn hstatic haccepts =>
    obtain ⟨hbytes, hpushed⟩ :=
      callIndirect_effect h.pointerSize hframe hparams hreturn hsignature haccepts hop hstatic
    rw [← h.tables] at hmethod
    rw [templates_cons, templates_cons, templates_nil, List.append_nil,
      emit_loadFunction hload hmethod, emit_callIndirect hop, hpushed, hbytes] at hplaced ⊢
    rw [List.length_append, List.length_append, ← Nat.add_assoc, ← Nat.add_assoc]
    refine .after ((pushes_address hplaces.fits hplaced.front hplaces.resolves (by omega) hm).trans
      fun m₁ hm₁ => ?_)
    refine (pops_register hplaces.fits (by decide) hplaced.back.front hm₁).mono
      fun m₂ ⟨hm₂, ht9⟩ => ?_
    exact callRuns_of_transfer [] h.returns h.framed hreturned hplaces hplaced.back.back
      (by rw [hargs]; rfl) hfill hroom hm₂ (aims_reg (by decide) ht9)
  | @receiver call e declaring this rest hop hmethod hinstance hdeclaring hdelegate hvirtual hargs' hthis
      haccepts =>
    obtain ⟨hpopped, hpushed⟩ := callReceiver_effect h.pointerSize hframe rfl rfl hmethod haccepts hop hinstance
    rw [← h.tables] at hmethod hdeclaring
    have hresolved := methodAndType_ok hmethod hdeclaring
    obtain ⟨disp, hdisp, hvalue⟩ := receiver_displacement hop hresolved (hfine _ (.head _))
    rw [templates_cons, templates_nil, List.append_nil,
      emit_callReceiver hop hresolved hdisp hdelegate hvirtual, hpushed] at hplaced ⊢
    rw [List.length_append, ← Nat.add_assoc]
    have hwords : pushedWords args ++ deep = pushedWords rest ++ this :: deep := by
      rw [hargs', pushedWords_cons, List.append_assoc, List.singleton_append]
    have hoffset := receiver_offset (pushedWords rest) hvalue
      (by rw [hpopped, ← hargs, hargs', pushedWords_cons, List.length_append]; rfl) h.options
    have hm' := hm
    rw [hwords] at hm'
    refine .after ((passes_receiver hplaces.fits hoffset hplaced hm' (by decide) hthis).mono
      fun m₁ ⟨hm₁, _⟩ => ?_)
    rw [← hwords] at hm₁
    exact callRuns_of_transfer [] h.returns h.framed hreturned hplaces hplaced.back
      (by rw [hpopped, hargs]; rfl) hfill hroom hm₁ (aims_symbol hplaces.resolves)

/-- The templates that make a delegate leave the function pointer on the stack. -/
theorem makes_delegate {p : Program Instr} {t : MethodDescriptor}
    {null load create invoke : Instruction × Effect} (htables : caller.tables = env.tables)
    (hway : DelegateWay env t null load create invoke) {site entry : Nat} {deep : List UInt32}
    {fp : UInt32} {m : Machine} (hfits : p.code.size ≤ codeLimit)
    (hresolves : p.resolve t.symbol = .ok (codeAddress entry))
    (hplaced : Placed p site (templates backend caller [null, load, create]))
    (hroom : deep.length + 2 ≤ stackCapacity) (hm : Poised Instr m site deep fp) :
    Reaches (Machine.cycle p) m fun m' =>
      Poised Instr m' (site + (templates backend caller [null, load, create]).length)
        (codeAddress entry :: deep) fp := by
  obtain ⟨ctor, type, hctor, htype, hdelegate⟩ := hway.created
  have hfunction := hway.function
  rw [← htables] at hfunction hctor htype
  have hnull : (backend.emit caller null.1 null.2).code = Instr.push .zero := by
    show (emit caller null.1 null.2).code = _
    rw [emit, hway.loadsNull]
    rfl
  rw [templates_cons, templates_cons, templates_cons, templates_nil, List.append_nil, hnull,
    emit_loadFunction hway.loadsFunction hfunction,
    emit_newObject hway.creates, newObject_delegate (methodAndType_ok hctor htype) hdelegate] at hplaced ⊢
  rw [List.length_append, List.length_append, ← Nat.add_assoc, ← Nat.add_assoc]
  refine (hm.turns (turns_pushZero (by omega)) hfits hplaced.front).trans fun m₁ hm₁ => ?_
  refine (pushes_address hfits hplaced.back.front hresolves (by rw [List.length_cons]; omega) hm₁).trans
    fun m₂ hm₂ => ?_
  have hkeeps : Turns (afterCall 4 4) ([codeAddress entry] ++ ([0] ++ deep)) fp .next
      ([codeAddress entry] ++ deep) fp := turns_afterCall rfl rfl
  exact hm₂.turns hkeeps hfits hplaced.back.back

theorem delegatesAgree (h : SimulatedMethod env caller callee ret e') :
    DelegatesAgree backend env caller callee ret e' := by
  intro null load create invoke hway hfine p site site' entry exit stop hplaced hplaced' hplaces args deep
    fp m hfill hroom hpushes hm
  have hreturned := h.poppedBytes
  obtain ⟨signature, type, hsignature, htype, hdelegate, hparams, hreturn⟩ := hway.invoked
  have hlength : (pushedWords args ++ codeAddress entry :: deep).length =
      (pushedWords args).length + (deep.length + 1) := by rw [List.length_append, List.length_cons]
  obtain ⟨hpopped, hpushed⟩ := invoke_effect h.pointerSize h.frame_eq hparams hreturn hsignature hway.accepts
    hway.invokes hfill (by omega)
  rw [← h.tables] at hsignature htype
  have hresolved := methodAndType_ok hsignature htype
  obtain ⟨disp, hdisp, hvalue⟩ := receiver_displacement hway.invokes hresolved (hfine invoke (by simp))
  rw [templates_cons backend caller invoke, templates_nil, List.append_nil,
    emit_callDelegate hway.invokes hresolved hdisp hdelegate, hpushed] at hplaced' ⊢
  have hentry : entry < p.code.size := hplaces.starts.index_lt (k := 0) (Nat.zero_lt_succ _)
  have hfits := hplaces.fits
  refine .after ((makes_delegate h.tables hway hfits hplaces.resolves hplaced (by omega) hm).trans
    fun m₁ hm₁ => (hpushes hm₁).trans fun m₂ hm₂ => ?_)
  refine (passes_receiver hfits (receiver_offset _ hvalue hpopped h.options) hplaced' hm₂ (by decide)
    (codeAddress_ne_zero (by omega))).mono fun m₃ ⟨hm₃, ht9⟩ => ?_
  rw [List.length_append, ← Nat.add_assoc]
  rw [← pushedWords_delegateArgs callee.method] at hm₃ hroom
  have hsum := length_delegateArgs callee.method entry args
  exact callRuns_of_transfer _ h.returns h.framed hreturned hplaces hplaced'.back (by omega) hfill hroom hm₃
    (aims_reg (by decide) ht9)

theorem nullDelegatesEnd (h : SimulatedMethod env caller callee ret e') :
    NullDelegatesEnd backend env caller callee := by
  intro null load create invoke hway hfine p site entry hwf hplaced args deep fp m hfill hroom hm
  obtain ⟨signature, type, hsignature, htype, hdelegate, hparams, hreturn⟩ := hway.invoked
  have hlength : (pushedWords args ++ 0 :: deep).length = (pushedWords args).length + (deep.length + 1) := by
    rw [List.length_append, List.length_cons]
  obtain ⟨hpopped, -⟩ := invoke_effect h.pointerSize h.frame_eq hparams hreturn hsignature hway.accepts
    hway.invokes hfill (by omega)
  rw [← h.tables] at hsignature htype
  have hresolved := methodAndType_ok hsignature htype
  obtain ⟨disp, hdisp, hvalue⟩ := receiver_displacement hway.invokes hresolved hfine
  rw [templates_cons, templates_nil, List.append_nil,
    emit_callDelegate hway.invokes hresolved hdisp hdelegate] at hplaced
  exact reports_null hwf.fits (receiver_offset _ hvalue hpopped h.options) hplaced hm (by decide) hwf rfl
    hroom

end Ways

end Stencil.Mips
