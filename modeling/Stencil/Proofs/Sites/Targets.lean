import Stencil.Proofs.Dispatch.Targets
import Stencil.Proofs.Mips.Sites
import Stencil.Proofs.Running.Targets
import Stencil.Proofs.X86.Sites

/-!
# Exceptions report their sites

On both targets the address that an exception reports is that of an instruction in the span that raised it, and
this instruction asks for its own address. Neither a method that has the symbol of an intrinsic nor a pointer into
the middle of the span may be called.
-/

namespace Stencil

open AddressMap Link

/-- On both targets exceptions report their sites, and are those of the instruction that raises them. -/
theorem exceptions_report_their_sites {tables : Table} (options : Options)
    (hplain : ∀ d ∈ tables.methods, ∀ intrinsic : Intrinsic, d.symbol ≠ intrinsic.symbol) :
    (∀ methods, (∀ m ∈ methods, ∃ body, compileMethod X86.backend tables options body = .ok m) →
      ReportsSites X86.backend tables options methods Strays) ∧
    ∀ methods, (∀ m ∈ methods, ∃ body, compileMethod Mips.backend tables options body = .ok m) →
      ReportsSites Mips.backend tables options methods Strays :=
  ⟨fun _ => X86.reportsSites hplain, fun _ => Mips.reportsSites hplain⟩

/-! ## A delegate that is invoked -/

section Signal

def signalType : TypeDescriptor := .delegate 1 "Signal"

def signalInvoke : MethodDescriptor :=
  (MethodDescriptor.ofName ⟨1, Nat.one_pos⟩ signalType.id "Invoke").onInstance

/-- Takes a signal. -/
def sendMethod : MethodDescriptor :=
  { MethodDescriptor.ofName ⟨2, Nat.two_pos⟩ signalType.id "send" with params := [signalType.id] }

def signalTable (invoke : MethodDescriptor) : Table :=
  ((Table.addType {} signalType).addMethod invoke).addMethod sendMethod

def sendCall (op : Opcode) : Instruction :=
  { Instruction.placed 1 op [0, 0, 0, 0] with methodRef := some signalInvoke.id }

def sendBody (op : Opcode) : MethodBody where
  method := sendMethod.id
  instructions := [.placed 0 .ldarg0 [], sendCall op, .placed 6 .ret []]

variable {I : Type} [TargetInstr I]

def sendContext (backend : Backend I) (invoke : MethodDescriptor) : EmitContext :=
  { tables := signalTable invoke, options := {}, policy := backend.defaultPolicy, frame := dropFrame,
    method := sendMethod, endPosition := 7 }

def sendEffect : Effect := { popped := [.reference 4] }

def sendCode (backend : Backend I) (invoke : MethodDescriptor) (op : Opcode) : List I :=
  (backend.emit (sendContext backend invoke) (sendCall op) sendEffect).code

/-- The body can be linked alone, and the call has a span from `base` on. -/
structure Sends [DecidableEq I] (backend : Backend I) (invoke : MethodDescriptor) (op : Opcode) (base : Nat) :
    Prop where
  compiles : compilesAt backend (signalTable invoke) (sendBody op) (sendCode backend invoke op) base = true
  spans : (compileMethod backend (signalTable invoke) {} (sendBody op)).toOption.any (fun m =>
    m.spans.any fun span => decide (span.op = op) && decide (span.start = base) &&
      decide (span.stop = base + (sendCode backend invoke op).length)) = true
  method : (signalTable invoke).method? sendMethod.id = some sendMethod
  plain : ∀ intrinsic : Intrinsic, intrinsic.symbol ∉ sendMethod.symbol :: (signalTable invoke).dataSymbols

/-- A linked program with the span of a call. -/
structure Sent (backend : Backend I) (invoke : MethodDescriptor) (op : Opcode) (base : Nat) (m : CompiledMethod I)
    (p : Program I) (linked : Store) (span : Span) : Prop where
  compiled : compileMethod backend (signalTable invoke) {} (sendBody op) = .ok m
  plain : ∀ intrinsic : Intrinsic, m.symbol ≠ intrinsic.symbol
  link : link [m] (signalTable invoke) {} {} = .ok (p, linked)
  fits : p.code.size < codeLimit
  placed : Placed p base (sendCode backend invoke op)
  spanAt : SpanAt [m] 0 span
  opcode : span.op = op
  start : span.start = base
  stop : span.stop = base + (sendCode backend invoke op).length
  wellFormed : p.WellFormed

theorem Sends.exists_sent [DecidableEq I] {backend : Backend I} {invoke : MethodDescriptor} {op : Opcode} {base : Nat}
    (h : Sends backend invoke op base) : ∃ m p linked span, Sent backend invoke op base m p linked span := by
  obtain ⟨m, p, linked, hcompiled, hlink, hfits, hplaced⟩ := exists_linked_of_compilesAt h.compiles
  have hspans := h.spans
  rw [hcompiled] at hspans
  obtain ⟨span, hspan, hat⟩ := List.any_eq_true.mp hspans
  simp only [Bool.and_eq_true, decide_eq_true_eq] at hat
  obtain ⟨⟨hop, hstart⟩, hstop⟩ := hat
  have hsymbol : m.symbol = sendMethod.symbol := symbol_of_compiled hcompiled h.method
  refine ⟨m, p, linked, span, hcompiled, fun intrinsic hintrinsic => ?_, hlink, hfits, hplaced,
    ⟨m, List.mem_singleton_self _, hspan⟩, hop, hstart, hstop, ?_⟩
  · refine h.plain intrinsic ?_
    rw [← hintrinsic, hsymbol]
    exact List.mem_cons_self
  · refine (link_ok hlink).wellFormed hfits.le fun intrinsic => ?_
    rw [List.map_singleton, hsymbol, List.singleton_append, ← List.append_assoc (List.map _ _)]
    exact h.plain intrinsic

theorem x86_sends : Sends X86.backend signalInvoke .callvirt 3 where
  compiles := by decide +kernel
  spans := by decide +kernel
  method := rfl
  plain intrinsic := by cases intrinsic <;> decide

theorem mips_sends : Sends Mips.backend signalInvoke .callvirt 8 where
  compiles := by decide +kernel
  spans := by decide +kernel
  method := rfl
  plain intrinsic := by cases intrinsic <;> decide

def hiddenInvoke : MethodDescriptor := { signalInvoke with symbol := Intrinsic.throwNullReference.symbol }

theorem x86_sends_hidden : Sends X86.backend hiddenInvoke .call 3 where
  compiles := by decide +kernel
  spans := by decide +kernel
  method := rfl
  plain intrinsic := by cases intrinsic <;> decide

/-- A machine in front of the call with this word for the signal. -/
def X86.sending (linked : Store) (signal : UInt32) : X86.Machine :=
  X86.Machine.setReg { pc := codeAddress 3, store := linked.withWord (wordAddress 0) signal } .esp (wordAddress 0)

def Mips.sending (linked : Store) (signal : UInt32) : Mips.Machine :=
  Mips.Machine.setReg
    { pc := codeAddress 8, npc := codeAddress 9, store := linked.withWord (wordAddress 0) signal } .sp (wordAddress 0)

theorem signalTable_plain : ∀ d ∈ (signalTable signalInvoke).methods, ∀ intrinsic : Intrinsic,
    d.symbol ≠ intrinsic.symbol := by
  have hmethods : (signalTable signalInvoke).methods.all
      (fun d => Intrinsic.all.all fun intrinsic => decide (d.symbol ≠ intrinsic.symbol)) = true := by decide
  intro d hd intrinsic
  have hall := List.all_eq_true.mp (List.all_eq_true.mp hmethods d hd) intrinsic (by cases intrinsic <;> decide)
  exact of_decide_eq_true hall

namespace X86

variable {m : CompiledMethod Instr} {p : Program Instr} {linked : Store} {span : Span}
  (h : Sent backend signalInvoke .callvirt 3 m p linked span)

include h

theorem holds_sent {k : Nat} (hlow : 3 ≤ k) (hhigh : k < 12) : span.HoldsAt 0 k := by
  rw [Span.HoldsAt, h.start, h.stop, Nat.zero_add]
  exact ⟨hlow, hhigh.trans_eq (Nat.zero_add _).symm⟩

theorem placed_sent : Placed p 4 (nullCheck (sendContext backend signalInvoke) (sendCall .callvirt) .esi ++
    [.callReg .esi, .aluImm .add .esp 4]) := by
  have hplaced : Placed p 3 ([.load .esi (.based .esp 0)] ++
      (nullCheck (sendContext backend signalInvoke) (sendCall .callvirt) .esi ++
        [.callReg .esi, .aluImm .add .esp 4])) := h.placed
  exact hplaced.back

theorem load_sent (signal : UInt32) : ∃ regs, regs .esi = signal ∧ regs .esp = wordAddress 0 ∧
    Succeeds (Machine.cycle p) (sending linked signal)
      (Rests · 4 regs false (linked.withWord (wordAddress 0) signal)) := by
  have hrests : Rests (sending linked signal) 3 _ _ _ := .of_pc rfl
  have hread : (linked.withWord (wordAddress 0) signal).memory.read
      ((Int32.ofNat sendEffect.poppedBytes - Int32.ofNat 4).toUInt32 + wordAddress 0) 4 = .ok signal := by
    rw [show (Int32.ofNat sendEffect.poppedBytes - Int32.ofNat 4).toUInt32 + wordAddress 0 = wordAddress 0 by decide]
    exact Store.read_withWord (by decide) _ _
  exact ⟨_, Function.update_self .., rfl, hrests.load h.fits.le signal (h.placed.fetch 0 _ rfl) hread⟩

theorem sending_null : EndsInside p 0 span (Strays p 0 span) (.nullReference (codeAddress 6)) (sending linked 0) := by
  obtain ⟨regs, hesi, hesp, hloads⟩ := load_sent h 0
  refine .order h.fits (holds_sent h (by decide) (by decide)) rfl (h.placed.fetch 0 _ rfl) rfl rfl hloads
    fun m₁ h₁ => ?_
  exact h₁.nullCheck_inside h.wellFormed h.fits (placed_sent h) hesi (by rw [hesp]; decide)
    (holds_sent h (by decide) (by decide)) (holds_sent h (by decide) (by decide))

end X86

namespace Mips

variable {m : CompiledMethod Instr} {p : Program Instr} {linked : Store} {span : Span}
  (h : Sent backend signalInvoke .callvirt 8 m p linked span)

include h

theorem holds_sent {k : Nat} (hlow : 8 ≤ k) (hhigh : k < 21) : span.HoldsAt 0 k := by
  rw [Span.HoldsAt, h.start, h.stop, Nat.zero_add]
  exact ⟨hlow, hhigh.trans_eq (Nat.zero_add _).symm⟩

theorem sending_null : EndsInside p 0 span (Strays p 0 span) (.nullReference (codeAddress 11)) (sending linked 0) := by
  have hrests : Rests (sending linked 0) 8 _ _ := ⟨rfl, rfl, fun _ => rfl, rfl⟩
  have hload : p.code[8]? = some (.lw .t9 0 .sp) := h.placed.fetch 0 _ rfl
  have hplaced : Placed p 8 ([.lw .t9 0 .sp] ++
      (nullCheck (sendContext backend signalInvoke) (sendCall .callvirt) .t9 ++
        (Instr.callReg .t9 ++ [.addiu .sp .sp 4]))) := h.placed
  have hread : (linked.withWord (wordAddress 0) 0).memory.read (wordAddress 0) 4 = .ok 0 :=
    Store.read_withWord (by decide) _ _
  have hsp : (sending linked 0).reg .sp = wordAddress 0 := rfl
  have hloads := hrests.lw h.fits.le 0 hload (by decide) (hsp ▸ add_zero_offset _) (by decide) hread
  refine .order h.fits (holds_sent h (by decide) (by decide)) rfl hload rfl rfl hloads fun m₁ h₁ => ?_
  refine h₁.nullCheck_inside h.wellFormed h.fits hplaced.back rfl (Function.update_self ..) ?_ ?_
    (holds_sent h (by decide) (by decide)) (holds_sent h (by decide) (by decide))
  · rw [Function.update_of_ne (by decide), hsp]
    decide
  · rw [Function.update_of_ne (by decide), hsp]
    decide

end Mips

/-- A null signal is reported where it is tested. -/
theorem exceptions_report_their_sites_null :
    (∃ m p linked span, Sent X86.backend signalInvoke .callvirt 3 m p linked span ∧
      EndsInside p 0 span (Strays p 0 span) (.nullReference (codeAddress 6)) (X86.sending linked 0) ∧
      IsSite p 0 span (codeAddress 6)) ∧
    ∃ m p linked span, Sent Mips.backend signalInvoke .callvirt 8 m p linked span ∧
      EndsInside p 0 span (Strays p 0 span) (.nullReference (codeAddress 11)) (Mips.sending linked 0) ∧
      IsSite p 0 span (codeAddress 11) := by
  obtain ⟨hx86, hmips⟩ := exceptions_report_their_sites {} signalTable_plain
  constructor
  · obtain ⟨m, p, linked, span, h⟩ := x86_sends.exists_sent
    obtain ⟨t, t', hrun, hfault⟩ := X86.sending_null h
    have hstart : Steering.StartsAt X86.Instr (X86.sending linked 0) (codeAddress (0 + span.start)) := by
      rw [h.start]
      rfl
    obtain ⟨hsite, -⟩ := hx86 [m] (compiled_singleton h.compiled) h.link h.fits h.spanAt hstart hrun hfault rfl
    exact ⟨m, p, linked, span, h, ⟨t, t', hrun, hfault⟩, hsite⟩
  · obtain ⟨m, p, linked, span, h⟩ := mips_sends.exists_sent
    obtain ⟨t, t', hrun, hfault⟩ := Mips.sending_null h
    have hstart : Steering.StartsAt Mips.Instr (Mips.sending linked 0) (codeAddress (0 + span.start)) := by
      rw [h.start]
      exact ⟨rfl, rfl⟩
    obtain ⟨hsite, -⟩ := hmips [m] (compiled_singleton h.compiled) h.link h.fits h.spanAt hstart hrun hfault rfl
    exact ⟨m, p, linked, span, h, ⟨t, t', hrun, hfault⟩, hsite⟩

namespace X86

variable {m : CompiledMethod Instr} {p : Program Instr} {linked : Store} {span : Span}

/-- A signal that leads to the call that raises is called, and what raises finds the address behind the call of the
signal. -/
theorem sending_forged (h : Sent backend signalInvoke .callvirt 3 m p linked span) :
    EndsInside p 0 span (CallsByPointer p) (.nullReference (codeAddress 11)) (sending linked (codeAddress 8)) := by
  have hload := h.placed.fetch 0 _ rfl
  have hplaced := placed_sent h
  have htest := hplaced.fetch 0 _ rfl
  have hbranch := hplaced.fetch 1 _ rfl
  have hraise := hplaced.fetch 4 _ rfl
  have hbind := hplaced.fetch 5 _ rfl
  have hcall := hplaced.fetch 6 _ rfl
  have hnotNull := hplaced.labels 5 _ _ rfl rfl
  have hholds : ∀ k, 3 ≤ k → k < 12 → span.HoldsAt 0 k := fun _ => holds_sent h
  obtain ⟨regs, hesi, hesp, hloads⟩ := load_sent h (codeAddress 8)
  refine .step (.inl ⟨3, hholds 3 (by decide) (by decide), rfl⟩)
    (not_callsByPointer_of_none h.fits rfl hload rfl rfl) hloads fun m₁ h₁ => ?_
  refine .step (.inl ⟨4, hholds 4 (by decide) (by decide), h₁.pc⟩)
    (not_callsByPointer_of_none h.fits h₁.pc htest rfl rfl) (h₁.test h.fits.le htest) fun m₂ h₂ => ?_
  refine .step (.inl ⟨5, hholds 5 (by decide) (by decide), h₂.pc⟩)
    (not_callsByPointer_of_none h.fits h₂.pc hbranch rfl rfl) (h₂.jcc_taken h.fits.le hbranch ?_ hnotNull)
    fun m₃ h₃ => ?_
  · intro flags hflag
    rw [Flags.holds, hflag, hesi]
    decide
  refine .step (.inl ⟨9, hholds 9 (by decide) (by decide), h₃.pc⟩)
    (not_callsByPointer_of_none h.fits h₃.pc hbind rfl rfl) (h₃.label h.fits.le hbind) fun m₄ h₄ => ?_
  have hplain : Intrinsic.atAddress? (regs .esi) = none := by
    rw [hesi]
    exact atAddress?_codeAddress (by decide)
  have hcalls := h₄.callReg h.fits.le hcall hplain (by rw [hesp]; decide)
  refine .step (.inl ⟨10, hholds 10 (by decide) (by decide), h₄.pc⟩) ?_ hcalls fun m₅ h₅ => ?_
  · refine not_callsByPointer h.fits h₄.pc hcall ?_
    rintro a (htarget | htarget)
    · obtain rfl := Option.some.inj htarget
      rw [h₄.reg]
      exact hplain
    · cases htarget
  obtain ⟨hpc, hreg, hstore⟩ := h₅
  rw [hesi] at hpc
  refine .here (.inl ⟨8, hholds 8 (by decide) (by decide), hpc⟩)
    (not_callsByPointer_of_none h.fits hpc hraise rfl rfl) ?_
  refine Rests.stops ⟨hpc, hreg, rfl, hstore⟩ h.wellFormed hraise fun _ => Program.runIntrinsic_throwNullReference ?_
  rw [Function.update_self, hesp]
  exact Store.read_withWord (by decide) _ _

/-- Where the method has the symbol of an intrinsic, its call raises. -/
theorem sending_hidden (h : Sent backend hiddenInvoke .call 3 m p linked span) :
    EndsInside p 0 span (Strays p 0 span) (.nullReference 0) (sending linked 0) := by
  have hcall := h.placed.fetch 0 _ rfl
  have hholds : span.HoldsAt 0 3 := by
    rw [Span.HoldsAt, h.start, h.stop]
    exact ⟨le_rfl, by decide⟩
  refine .here (.inl ⟨3, hholds, rfl⟩) (not_strays h.fits rfl hcall rfl rfl) ?_
  refine Rests.stops (.of_pc rfl) h.wellFormed hcall fun _ => Program.runIntrinsic_throwNullReference ?_
  exact Store.read_withWord (by decide) _ _

end X86

/-- A method that has the symbol of an intrinsic and is not compiled itself, or a signal that leads into the span,
gives an exception another address. -/
theorem exceptions_misreport :
    (∃ m, compileMethod X86.backend (signalTable hiddenInvoke) {} (sendBody .call) = .ok m ∧
      (∀ intrinsic : Intrinsic, m.symbol ≠ intrinsic.symbol) ∧
      ¬ReportsSites X86.backend (signalTable hiddenInvoke) {} [m] Strays) ∧
    ∃ m, compileMethod X86.backend (signalTable signalInvoke) {} (sendBody .callvirt) = .ok m ∧
      (∀ intrinsic : Intrinsic, m.symbol ≠ intrinsic.symbol) ∧
      ¬ReportsSites X86.backend (signalTable signalInvoke) {} [m] fun p _ _ => CallsByPointer p := by
  constructor
  · obtain ⟨m, p, linked, span, h⟩ := x86_sends_hidden.exists_sent
    refine ⟨m, h.compiled, h.plain, fun hreports => ?_⟩
    obtain ⟨t, t', hrun, hfault⟩ := X86.sending_hidden h
    have hstart : Steering.StartsAt X86.Instr (X86.sending linked 0) (codeAddress (0 + span.start)) := by
      rw [h.start]
      rfl
    obtain ⟨-, hmay⟩ := hreports h.link h.fits h.spanAt hstart hrun hfault rfl
    rw [Span.MayRaise, h.opcode] at hmay
    cases hmay
  · obtain ⟨m, p, linked, span, h⟩ := x86_sends.exists_sent
    refine ⟨m, h.compiled, h.plain, fun hreports => ?_⟩
    obtain ⟨t, t', hrun, hfault⟩ := X86.sending_forged h
    have hstart : Steering.StartsAt X86.Instr (X86.sending linked (codeAddress 8)) (codeAddress (0 + span.start)) := by
      rw [h.start]
      rfl
    obtain ⟨⟨k, hindex, hsite, -⟩, -⟩ := hreports h.link h.fits h.spanAt hstart hrun hfault rfl
    have hafter : p.code[11]? = some (.aluImm .add .esp 4) := (X86.placed_sent h).fetch 7 _ rfl
    have hlt := (Array.getElem?_eq_some_iff.mp hafter).1
    obtain rfl := Except.ok.inj ((Program.indexOf_codeAddress h.fits.le hlt).symm.trans hindex)
    cases hafter.symm.trans hsite

end Signal

end Stencil
