import Stencil.Proofs.Mips.Product
import Stencil.Proofs.Mips.Releases
import Stencil.Proofs.Sites.Basic
import Stencil.Proofs.Symbols.Targets

/-!
# Sites of exceptions on MIPS32

Where an exception may be raised, the code in front asks for its own address, which an intrinsic tells in a
register, and pushes it. Control stands in order at an instruction of the span, in a delay slot, or at an intrinsic
that the span has called (`Standing`). It never comes to this code but from its first instruction on, as long as no
call through a register leads there, so the call that raises finds on the stack what was told (`reportsSites`).
-/

namespace Stencil.Mips

open AddressMap Compile Link Stateful

/-! ## Templates -/

section Templates

variable {ctx : EmitContext} {i : Instruction} {e : Effect}

/-- A template that may raise an exception does not return. -/
theorem emit_stays {raised : Intrinsic} (hfailure : (emit ctx i e).failure = none) (hmay : Raisable ctx i raised) :
    Lacks Instr.returns (emit ctx i e).code := by
  cases hcalls : i.op.operation.entersMethods with
  | false =>
    obtain ⟨live, -, need, hneed, -⟩ := emit_isolated hcalls hfailure
    refine List.all_eq_true.mpr fun instr hinstr => ?_
    have hdirect := jumpsByRegister_of_needs hneed instr hinstr
    cases instr with
    | jr => cases hdirect
    | _ => rfl
  | true =>
    unfold emit
    cases hop : i.op.operation with
    | callVirtual =>
      refine .ofExcept fun _ hcode => (callVirtual_plain hcode).mono fun instr hreturns => ?_
      rw [hreturns, Bool.or_true]
    | call | callIndirect | newObject | methodStart | methodEnd =>
      rw [Raisable, hop] at hmay
      cases raised <;> cases hmay
    | _ =>
      rw [hop] at hcalls
      cases hcalls

theorem backend_raisesByCalls : backend.RaisesByCalls where
  lead := rfl
  symbols _ := rfl
  token ctx i e hop s := by
    show Instr.jal s ∉ (emit ctx i e).code
    unfold emit
    rw [hop]
    cases ctx.tokenSymbol i with
    | error e => exact List.not_mem_nil
    | ok symbol =>
      have hplain : Lacks (fun instr => decide (instr = .jal s)) (Instr.pushAddr symbol) := rfl
      intro hmem
      have hjal := hplain.of_mem hmem
      simp at hjal

end Templates

/-! ## Where control goes -/

instance : Steering Instr Machine where
  cycle := Machine.cycle
  pc := Machine.pc
  StartsAt m a := m.pc = a ∧ m.npc = a + 4
  callTarget? m
    | .jalr r => some (m.reg r)
    | _ => none
  jumpTarget? m
    | .jr r => some (m.reg r)
    | _ => none

/-- The code at this index asks for its address, pushes it and raises an exception, and the span does not return. -/
structure RaisesAt (p : Program Instr) (base : Nat) (span : Span) (j : Nat) : Prop where
  holds : span.HoldsAt base j
  lead : LeadsAt p j
  call : ∃ s, p.code[j + 4]? = some (.jal s)
  slot : p.code[j + 5]? = some .nop
  last : span.HoldsAt base (j + 5)
  stays : ∀ k instr, span.HoldsAt base k → p.code[k]? = some instr → instr.returns = false

namespace RaisesAt

variable {p : Program Instr} {base j : Nat} {span : Span} (h : RaisesAt p base span j)

include h

theorem first : p.code[j]? = some (.jal Intrinsic.callSite.symbol) := h.lead 0 _ rfl

theorem second : p.code[j + 1]? = some .nop := h.lead 1 _ rfl

theorem third : p.code[j + 2]? = some (.addiu .sp .sp (-4)) := h.lead 2 _ rfl

theorem fourth : p.code[j + 3]? = some (.sw .v0 0 .sp) := h.lead 3 _ rfl

/-- Of the instructions in front of the call, only the first one has a delay slot. -/
theorem first_of_slot {k : Nat} {instr : Instr} (hinstr : p.code[k]? = some instr)
    (hslot : instr.hasDelaySlot = true) (hlow : j ≤ k) (hhigh : k < j + 4) : k = j := by
  obtain rfl | rfl | rfl | rfl : k = j ∨ k = j + 1 ∨ k = j + 2 ∨ k = j + 3 := by omega
  · rfl
  · cases h.second.symm.trans hinstr
    cases hslot
  · cases h.third.symm.trans hinstr
    cases hslot
  · cases h.fourth.symm.trans hinstr
    cases hslot

theorem unlabelled {n : Nat} {instr : Instr} (hlow : j < n) (hhigh : n ≤ j + 5) (hinstr : p.code[n]? = some instr) :
    TargetInstr.asLabel? instr = none := by
  obtain ⟨s, hcall⟩ := h.call
  obtain rfl | rfl | rfl | rfl | rfl : n = j + 1 ∨ n = j + 2 ∨ n = j + 3 ∨ n = j + 4 ∨ n = j + 5 := by omega
  · cases h.second.symm.trans hinstr
    rfl
  · cases h.third.symm.trans hinstr
    rfl
  · cases h.fourth.symm.trans hinstr
    rfl
  · cases hcall.symm.trans hinstr
    rfl
  · cases h.slot.symm.trans hinstr
    rfl

theorem holdsAt {n : Nat} (hlow : j ≤ n) (hhigh : n ≤ j + 5) : span.HoldsAt base n := by
  obtain ⟨hfirst, -⟩ := h.holds
  obtain ⟨-, hend⟩ := h.last
  exact ⟨by omega, by omega⟩

/-- The code that raises ends before the code of the program. -/
theorem lt_size {tables : Table} {options : Options} {methods : List (CompiledMethod Instr)} {config : RunConfig}
    (hcompiled : ∀ m ∈ methods, ∃ body, compileMethod backend tables options body = .ok m)
    (hlinked : Linked methods tables options config p) (hspan : SpanAt methods base span) : j + 5 < p.code.size :=
  hspan.lt_size hcompiled hlinked h.last

end RaisesAt

namespace Machine

variable {p : Program Instr} {m t : Machine}

/-- What is told by the intrinsic when control is behind it, and what is pushed when it is behind the push. Control
does not come to the delay slots in order. -/
structure TellsAt (j : Nat) (m : Machine) : Prop where
  unslotted : m.pc ≠ codeAddress (j + 1) ∧ m.pc ≠ codeAddress (j + 5)
  told : m.pc = codeAddress (j + 2) ∨ m.pc = codeAddress (j + 3) → m.reg .v0 = codeAddress j
  pushed : m.pc = codeAddress (j + 4) → m.store.memory.read (m.reg .sp) 4 = .ok (codeAddress j)

theorem TellsAt.of_elsewhere {j : Nat} (h : ∀ n, j < n → n ≤ j + 5 → m.pc ≠ codeAddress n) : TellsAt j m where
  unslotted := ⟨h _ (by omega) (by omega), h _ (by omega) (by omega)⟩
  told := by
    rintro (hpc | hpc)
    · exact absurd hpc (h _ (by omega) (by omega))
    · exact absurd hpc (h _ (by omega) (by omega))
  pushed hpc := absurd hpc (h _ (by omega) (by omega))

/-- The instruction at this index of the span has called a symbol, and what is pushed is on the stack. -/
structure Called (p : Program Instr) (base : Nat) (span : Span) (k : Nat) (s : Symbol) (a : UInt32) (m : Machine) :
    Prop where
  instr : p.code[k]? = some (.jal s)
  resolve : p.resolve s = .ok a
  ra : m.reg .ra = codeAddress (k + 2)
  pushed : ∀ j, RaisesAt p base span j → k = j + 4 → m.store.memory.read (m.reg .sp) 4 = .ok (codeAddress j)

/-- Control goes to no intrinsic, nor into code that raises an exception. -/
def Spares (p : Program Instr) (base : Nat) (span : Span) (a : UInt32) : Prop :=
  Intrinsic.atAddress? a = none ∧
    ∀ j, RaisesAt p base span j → ∀ n, j < n → n ≤ j + 5 → a ≠ codeAddress n

/-- Where control stands in a span. -/
inductive Standing (p : Program Instr) (base : Nat) (span : Span) (m : Machine) : Prop
  | inOrder {k : Nat} (hk : span.HoldsAt base k) (hpc : m.pc = codeAddress k) (hnpc : m.npc = codeAddress (k + 1))
      (htells : ∀ j, RaisesAt p base span j → TellsAt j m)
  | inSlot {k : Nat} {instr : Instr} (hk : span.HoldsAt base k) (hinstr : p.code[k]? = some instr)
      (hslot : instr.hasDelaySlot = true) (hpc : m.pc = codeAddress (k + 1))
      (hgoes : (∃ s, Called p base span k s m.npc m) ∨ Spares p base span m.npc)
  | inIntrinsic {k : Nat} {s : Symbol} (hk : span.HoldsAt base k) (hat : Intrinsic.atAddress? m.pc ≠ none)
      (hcalled : Called p base span k s m.pc m)

/-! ### Single instructions -/

theorem callIntrinsic_tells (h : callIntrinsic p .callSite m = .ok () t) : t.reg .v0 = m.reg .ra - 8 := by
  obtain ⟨-, rfl⟩ := EStateM.Result.ok.inj h
  exact reg_setReg_self m _ (by decide)

theorem address_ok {width : Width} {offset : Int32} {base : Reg} {a : UInt32}
    (h : address width offset base m = .ok a t) : a = m.reg base + offset.toUInt32 ∧ t = m := by
  obtain ⟨w, u, hget, h⟩ := bind_eq_ok.mp h
  obtain ⟨rfl, rfl⟩ := EStateM.Result.ok.inj hget
  dsimp only at h
  split at h
  · cases h
  · obtain ⟨rfl, rfl⟩ := EStateM.Result.ok.inj h
    exact ⟨rfl, rfl⟩

/-- A word that is stored at the stack pointer lies on top of the stack. -/
theorem execute_sw_top {src : Reg} {next : Option UInt32} (h : execute p (.sw src 0 .sp) m = .ok next t) :
    t.store.memory.read (t.reg .sp) 4 = .ok (m.reg src) := by
  obtain ⟨a, u, haddress, h⟩ := bind_eq_ok.mp h
  obtain ⟨rfl, rfl⟩ := address_ok haddress
  obtain ⟨value, _, hget, h⟩ := bind_eq_ok.mp h
  obtain ⟨rfl, rfl⟩ := EStateM.Result.ok.inj hget
  obtain ⟨_, v, hwrite, h⟩ := bind_eq_ok.mp h
  obtain ⟨-, rfl⟩ := EStateM.Result.ok.inj h
  unfold onStore at hwrite
  dsimp only at hwrite
  split at hwrite
  · rename_i hstore
    obtain ⟨-, rfl⟩ := EStateM.Result.ok.inj hwrite
    rw [← add_zero_offset (reg _ .sp)]
    exact Store.read_of_writeWord hstore
  · cases hwrite

/-- An intrinsic that ends with an exception reports the word on top of the stack. -/
theorem callIntrinsic_raises {intrinsic raised : Intrinsic} {fault : Fault} {reported : UInt32}
    (h : callIntrinsic p intrinsic m = .error fault t) (hraised : fault.raised? = some (raised, reported)) :
    intrinsic = raised ∧ m.store.memory.read (m.reg .sp) 4 = .ok reported := by
  rcases bind_eq_error.mp h with hfault | ⟨ra, _, hra, hgo⟩
  · cases hfault
  obtain ⟨rfl, rfl⟩ := EStateM.Result.ok.inj hra
  rcases bind_eq_error.mp hgo with hfault | ⟨sp, _, hsp, hgo⟩
  · cases hfault
  obtain ⟨rfl, rfl⟩ := EStateM.Result.ok.inj hsp
  rcases bind_eq_error.mp hgo with hfault | ⟨answer, u, -, hgo⟩
  · unfold onStore at hfault
    dsimp only at hfault
    split at hfault
    · cases hfault
    · rename_i hrun
      cases hfault
      obtain ⟨rfl, hread⟩ := p.runIntrinsic_reports _ _ _ _ _ _ hrun _ _ hraised
      exact ⟨rfl, hread⟩
  · cases answer <;> cases hgo

/-! ### Cycles -/

section Sites

variable {tables : Table} {options : Options} {methods : List (CompiledMethod Instr)} {config : RunConfig}
  (hcompiled : ∀ m ∈ methods, ∃ body, compileMethod backend tables options body = .ok m)
  (hlinked : Linked methods tables options config p) (hfits : p.code.size < codeLimit) {base : Nat} {span : Span}
  (hspan : SpanAt methods base span)

include hcompiled hlinked hfits hspan

omit hfits in
/-- A call that an exception of the span's instruction may raise has the code in front that tells its site. -/
theorem raisesAt {raised : Intrinsic} (hmay : span.MayRaise backend options raised) {j : Nat}
    (hholds : span.HoldsAt base j) (hlead : LeadsAt p j) (hk : span.HoldsAt base (j + 4)) {s : Symbol}
    (hcall : p.code[j + 4]? = some (.jal s)) : RaisesAt p base span j where
  holds := hholds
  lead := hlead
  call := ⟨s, hcall⟩
  slot := (slot_of_linked hcompiled hlinked hcall rfl).1
  last := by
    obtain ⟨_, base', span', hspan', hk', hslot⟩ := slot_of_linked hcompiled hlinked hcall rfl
    obtain ⟨rfl, rfl⟩ := hspan.unique hcompiled hspan' hk hk'
    exact hslot
  stays _ _ hk hinstr := hspan.lacks (fun _ => rfl) (fun _ _ _ => emit_stays) hcompiled hlinked hmay hk hinstr

theorem spares_of_label {l : Label} {a : UInt32} (h : p.labelAddress l = .ok a) : Spares p base span a := by
  obtain ⟨k, instr, rfl, hinstr, hlabel⟩ := hlinked.labelAddress_ok h
  have hk := (Array.getElem?_eq_some_iff.mp hinstr).1
  refine ⟨atAddress?_codeAddress (by omega), fun j hj n hlow hhigh hn => ?_⟩
  have hend := hj.lt_size hcompiled hlinked hspan
  obtain rfl := (codeAddress_inj (by omega) (by omega)).mp hn
  cases (hj.unlabelled hlow hhigh hinstr).symm.trans hlabel

/-- Where an instruction with a delay slot goes behind it. -/
theorem goes_of_execute {k : Nat} {instr : Instr} {next : Option UInt32} (hpc : m.pc = codeAddress k)
    (hinstr : p.code[k]? = some instr) (hk : span.HoldsAt base k) (hslot : instr.hasDelaySlot = true)
    (hstray : ¬Strays p base span m) (h : execute p instr (m.fetched k) = .ok next t) :
    (∃ s, instr = .jal s ∧ p.resolve s = .ok (next.getD (codeAddress (k + 2))) ∧
      t = (m.fetched k).setReg .ra (codeAddress (k + 2))) ∨ Spares p base span (next.getD (codeAddress (k + 2))) := by
  have hra : m.pc + 8 = codeAddress (k + 2) := by
    rw [hpc, show (8 : UInt32) = 4 + 4 from rfl, ← UInt32.add_assoc, codeAddress_succ, codeAddress_succ]
  have hbranch : ∀ {l}, instr.branchesTo l → Spares p base span (next.getD (codeAddress (k + 2))) := by
    intro l hbranches
    obtain ⟨-, rfl | ⟨a, ha, rfl⟩⟩ := execute_branch hbranches h
    · have hend := (Array.getElem?_eq_some_iff.mp (slot_of_linked hcompiled hlinked hinstr hslot).1).1
      refine ⟨atAddress?_codeAddress (by omega), fun j hj n hlow hhigh hn => ?_⟩
      have hlast := hj.lt_size hcompiled hlinked hspan
      obtain rfl := (codeAddress_inj (by omega) (by omega)).mp hn
      -- the branch would be the first instruction, or have it in its delay slot
      by_cases hbefore : k + 1 = j
      · have hnop := (slot_of_linked hcompiled hlinked hinstr hslot).1
        rw [hbefore, hj.first] at hnop
        cases hnop
      · obtain rfl := hj.first_of_slot hinstr hslot (by omega) (by omega)
        cases hj.first.symm.trans hinstr
        exact hbranches.elim
    · exact spares_of_label hcompiled hlinked hfits hspan ha
  -- a register leads elsewhere
  have hplain : ∀ a, (Steering.callTarget? m instr = some a ∨ Steering.jumpTarget? m instr = some a) →
      Intrinsic.atAddress? a = none := by
    intro a ha
    by_contra hat
    exact hstray (.inl ⟨k, instr, a, hpc, hinstr, ha, hat⟩)
  cases instr with
  | branch onEqual lhs rhs target => exact .inr (hbranch (l := target) rfl)
  | branchZero test src target => exact .inr (hbranch (l := target) rfl)
  | j target =>
    obtain ⟨-, a, ha, rfl⟩ := execute_j h
    exact .inr (spares_of_label hcompiled hlinked hfits hspan ha)
  | jal s =>
    obtain ⟨a, rfl, rfl, hresolve⟩ := execute_call rfl h
    exact .inl ⟨s, rfl, hresolve s rfl, by rw [fetched_pc, hra]⟩
  | jalr r =>
    obtain ⟨rfl, -⟩ := EStateM.Result.ok.inj h
    refine .inr ⟨hplain (m.reg r) (.inl rfl), fun j hj n hlow hhigh hn => hstray (.inr ?_)⟩
    have hfirst := hj.holds.1
    exact ⟨k, _, n, hpc, hinstr, congrArg some hn, hj.holdsAt hlow.le hhigh, by omega⟩
  | jr r =>
    obtain ⟨rfl, -⟩ := EStateM.Result.ok.inj h
    exact .inr ⟨hplain (m.reg r) (.inr rfl), fun j hj n _ _ _ => nomatch hj.stays k _ hk hinstr⟩
  | _ => cases hslot

/-- An intrinsic returns behind the call, and tells its site if that is what was asked for. -/
theorem Standing.of_intrinsic {intrinsic : Intrinsic} {k : Nat} {s : Symbol}
    (hat : Intrinsic.atAddress? m.pc = some intrinsic)
    (hcalled : Called p base span k s m.pc m) (hcycle : callIntrinsic p intrinsic m = .ok () t)
    (hnext : ControlIn Instr base span t) : Standing p base span t := by
  obtain ⟨-, -, htpc, htnpc⟩ := callIntrinsic_ok hcycle
  have hslot := (slot_of_linked hcompiled hlinked hcalled.instr rfl).1
  have hend := (Array.getElem?_eq_some_iff.mp hslot).1
  rw [hcalled.ra] at htpc htnpc
  refine .inOrder (hnext.holdsAt hcompiled hlinked hfits hspan htpc (by omega)) htpc
    (htnpc.trans (codeAddress_succ _)) fun j hj => ?_
  have hlast := hj.lt_size hcompiled hlinked hspan
  have hbehind : ∀ n, n ≤ j + 5 → t.pc = codeAddress n → n = k + 2 := fun n hn hpc =>
    (codeAddress_inj (by omega) (by omega)).mp (hpc.symm.trans htpc)
  have hfirst : ∀ n, j < n → n < j + 6 → t.pc = codeAddress n → n = j + 2 := by
    intro n hlow hhigh hpc
    obtain rfl := hbehind n (by omega) hpc
    by_cases hbefore : k + 1 = j
    · rw [hbefore, hj.first] at hslot
      cases hslot
    · have hsame := hj.first_of_slot hcalled.instr rfl (by omega) (by omega)
      omega
  refine ⟨⟨fun hpc => ?_, fun hpc => ?_⟩, fun hpc => ?_, fun hpc => ?_⟩
  · have hwrong := hfirst _ (by omega) (by omega) hpc
    omega
  · have hwrong := hfirst _ (by omega) (by omega) hpc
    omega
  · have hpc : t.pc = codeAddress (j + 2) := by
      rcases hpc with hpc | hpc
      · exact hpc
      · have hwrong := hfirst _ (by omega) (by omega) hpc
        omega
    obtain rfl : j = k := by
      have hsame := hbehind _ (by omega) hpc
      omega
    obtain rfl := Instr.jal.inj (Option.some.inj (hj.first.symm.trans hcalled.instr))
    obtain rfl : intrinsic = .callSite := by
      by_contra hne
      have hsymbol := hlinked.symbol_of_intrinsicAddress hfits.le hcalled.resolve hat hne
      exact hne (Intrinsic.symbol_inj hsymbol).symm
    rw [callIntrinsic_tells hcycle, hcalled.ra, codeAddress_sub_eight]
  · have hwrong := hfirst _ (by omega) (by omega) hpc
    omega

theorem Standing.of_slot
    (hgoes : (∃ k s, span.HoldsAt base k ∧ Called p base span k s t.pc t) ∨ Spares p base span t.pc)
    (hnpc : t.npc = t.pc + 4) (hnext : ControlIn Instr base span t) : Standing p base span t := by
  by_cases hat : Intrinsic.atAddress? t.pc = none
  · obtain ⟨n, hn, hpc⟩ : ∃ n, span.HoldsAt base n ∧ t.pc = codeAddress n := hnext.resolve_right fun hne => hne hat
    have hlt := hspan.lt_size hcompiled hlinked hn
    refine .inOrder hn hpc (by rw [hnpc, hpc, codeAddress_succ]) fun j hj => ?_
    rcases hgoes with ⟨k, s, -, hcalled⟩ | hspares
    · refine .of_elsewhere fun n' hlow hhigh hpc' => ?_
      have hresolve := hcalled.resolve
      rw [hpc'] at hresolve
      have hstart := hspan.start_of_symbol hcompiled hlinked hfits (hj.holdsAt hlow.le hhigh) hresolve
      have hfirst := hj.holds.1
      omega
    · exact .of_elsewhere (hspares.2 j hj)
  · obtain ⟨k, s, hk, hcalled⟩ := hgoes.resolve_right fun hspares => hat hspares.1
    exact .inIntrinsic hk hat hcalled

/-- An instruction that runs in order goes on in order, or to its delay slot. -/
theorem Standing.of_order {k : Nat} {instr : Instr} {next : Option UInt32} {u : Machine} (hk : span.HoldsAt base k)
    (hpc : m.pc = codeAddress k) (hnpc : m.npc = codeAddress (k + 1))
    (htells : ∀ j, RaisesAt p base span j → TellsAt j m) (hinstr : p.code[k]? = some instr)
    (hstray : ¬Strays p base span m) (h : execute p instr (m.fetched k) = .ok next u)
    (hnext : ControlIn Instr base span (u.advance next)) : Standing p base span (u.advance next) := by
  have hlt := (Array.getElem?_eq_some_iff.mp hinstr).1
  have hunpc : u.npc = codeAddress (k + 1) := (congrArg Prod.snd (notes_of_execute h)).trans hnpc
  cases hslot : instr.hasDelaySlot with
  | true =>
    refine .inSlot hk hinstr hslot hunpc ?_
    have htarget : (u.advance next).npc = next.getD (codeAddress (k + 2)) := by
      show next.getD (u.npc + 4) = _
      rw [hunpc, codeAddress_succ]
    rw [htarget]
    refine (goes_of_execute hcompiled hlinked hfits hspan hpc hinstr hk hslot hstray h).imp_left ?_
    rintro ⟨s, rfl, hresolve, rfl⟩
    refine ⟨s, hinstr, hresolve, reg_setReg_self _ _ (by decide), fun j hj hcall => ?_⟩
    have hpushed := (htells j hj).pushed (by rw [hpc, hcall])
    rw [advance_store, setReg_store, advance_reg, reg_setReg_of_ne _ _ (by decide)]
    exact hpushed
  | false =>
    obtain rfl := execute_goesOn_of_plain p hslot _ _ _ h
    refine .inOrder (hnext.holdsAt hcompiled hlinked hfits hspan hunpc (by omega)) hunpc ?_ fun j hj => ?_
    · rw [advance_npc_none, hunpc, codeAddress_succ]
    have hlast := hj.lt_size hcompiled hlinked hspan
    have hbehind : ∀ n, n < j + 6 → (u.advance none).pc = codeAddress n → n = k + 1 := fun n hn hpc =>
      (codeAddress_inj (by omega) (by omega)).mp (hpc.symm.trans hunpc)
    obtain ⟨s, hcall⟩ := hj.call
    refine ⟨⟨fun hn => ?_, fun hn => ?_⟩, fun hn => ?_, fun hn => ?_⟩
    · obtain rfl : j = k := Nat.succ.inj (hbehind _ (by omega) hn)
      cases hj.first.symm.trans hinstr
      cases hslot
    · obtain rfl : j + 4 = k := Nat.succ.inj (hbehind _ (by omega) hn)
      cases hcall.symm.trans hinstr
      cases hslot
    · rcases hn with hn | hn
      · obtain rfl : j + 1 = k := Nat.succ.inj (hbehind _ (by omega) hn)
        exact absurd hpc (htells j hj).unslotted.1
      · obtain rfl : j + 2 = k := Nat.succ.inj (hbehind _ (by omega) hn)
        cases hj.third.symm.trans hinstr
        obtain ⟨-, rfl⟩ := EStateM.Result.ok.inj h
        rw [advance_reg, reg_setReg_of_ne _ _ (by decide)]
        exact (htells j hj).told (.inl hpc)
    · obtain rfl : j + 3 = k := Nat.succ.inj (hbehind _ (by omega) hn)
      cases hj.fourth.symm.trans hinstr
      rw [advance_store, advance_reg, execute_sw_top h]
      exact congrArg Except.ok ((htells j hj).told (.inr hpc))

/-- Control gets to an intrinsic by a call of the span. -/
theorem Standing.called (h : Standing p base span m) {intrinsic : Intrinsic}
    (hat : Intrinsic.atAddress? m.pc = some intrinsic) :
    ∃ k s, span.HoldsAt base k ∧ Called p base span k s m.pc m := by
  cases h with
  | inOrder hk hpc =>
    have hlt := hspan.lt_size hcompiled hlinked hk
    rw [hpc, atAddress?_codeAddress (by omega)] at hat
    cases hat
  | inSlot hk hinstr hslot hpc =>
    have hbehind := (Array.getElem?_eq_some_iff.mp (slot_of_linked hcompiled hlinked hinstr hslot).1).1
    rw [hpc, atAddress?_codeAddress (by omega)] at hat
    cases hat
  | inIntrinsic hk _ hcalled => exact ⟨_, _, hk, hcalled⟩

theorem Standing.cycle (h : Standing p base span m) (hstray : ¬Strays p base span m)
    (hcycle : Machine.cycle p m = .ok () t) (hnext : ControlIn Instr base span t) : Standing p base span t := by
  rcases cycle_cases hfits.le m with ⟨intrinsic, hat, hrun⟩ | ⟨hnone, hrun | ⟨k, instr, hpc, hinstr, hrun⟩⟩
  · rw [hrun] at hcycle
    obtain ⟨k, s, -, hcalled⟩ := h.called hcompiled hlinked hfits hspan hat
    exact .of_intrinsic hcompiled hlinked hfits hspan hat hcalled hcycle hnext
  · cases hrun.symm.trans hcycle
  · rw [hrun] at hcycle
    obtain ⟨next, u, hexecute, hadvance⟩ := bind_eq_ok.mp hcycle
    obtain ⟨-, rfl⟩ := EStateM.Result.ok.inj hadvance
    have hk := (Array.getElem?_eq_some_iff.mp hinstr).1
    cases h with
    | inOrder hk' hpc' hnpc htells =>
      have hlt := hspan.lt_size hcompiled hlinked hk'
      obtain rfl := (codeAddress_inj (by omega) (by omega)).mp (hpc'.symm.trans hpc)
      exact .of_order hcompiled hlinked hfits hspan hk' hpc hnpc htells hinstr hstray hexecute hnext
    | @inSlot j _ hj hinstr' hslot hpc' hgoes =>
      have hnop := (slot_of_linked hcompiled hlinked hinstr' hslot).1
      have hlt := (Array.getElem?_eq_some_iff.mp hnop).1
      obtain rfl := (codeAddress_inj (by omega) (by omega)).mp (hpc'.symm.trans hpc)
      obtain rfl := Option.some.inj (hnop.symm.trans hinstr)
      obtain ⟨rfl, rfl⟩ := EStateM.Result.ok.inj hexecute
      refine .of_slot hcompiled hlinked hfits hspan (hgoes.imp_left ?_) rfl hnext
      rintro ⟨s, hinstr, hresolve, hra, hpushed⟩
      exact ⟨j, s, hj, hinstr, hresolve, hra, hpushed⟩
    | inIntrinsic _ hat => exact absurd hnone hat

/-- A run that stays in a span gives the exception the address that was told. -/
theorem givesSite (hstart : m.pc = codeAddress (base + span.start) ∧ m.npc = codeAddress (base + span.start) + 4)
    {u : Machine} (hrun : StaysIn p base span (Strays p base span) m t) {fault : Fault} {raised : Intrinsic}
    {reported : UInt32} (hfault : Machine.cycle p t = .error fault u)
    (hraised : fault.raised? = some (raised, reported)) :
    GivesSite p base span raised reported (span.MayRaise backend options raised) := by
  have hstarts : Standing p base span m := by
    obtain ⟨hpc, hnpc⟩ := hstart
    have hsize := hspan.start_le_size hcompiled hlinked
    refine .inOrder (hrun.start.holdsAt hcompiled hlinked hfits hspan hpc (by omega)) hpc
      (hnpc.trans (codeAddress_succ _)) fun j hj => ?_
    have hend := hj.lt_size hcompiled hlinked hspan
    have hlow := hj.holds.1
    refine .of_elsewhere fun n hn hlast hm => ?_
    have hsame := (codeAddress_inj (by omega) (by omega)).mp (hpc.symm.trans hm)
    omega
  have hstands : Standing p base span t := hrun.invariant hstarts fun _ _ hm _ hstray hcycle hnext =>
    hm.cycle hcompiled hlinked hfits hspan hstray hcycle hnext
  rcases cycle_cases hfits.le t with ⟨intrinsic, hat, hcycle⟩ | ⟨-, hcycle | ⟨k, instr, hpc, hinstr, hcycle⟩⟩
  · rw [hcycle] at hfault
    obtain ⟨rfl, hread⟩ := callIntrinsic_raises hfault hraised
    obtain ⟨k, s, hk, hcalled⟩ := hstands.called hcompiled hlinked hfits hspan hat
    refine ⟨k, s, t.pc, hk, hcalled.instr, hcalled.resolve, hat, fun hmay j hj hholds hlead => ?_⟩
    obtain rfl : k = j + 4 := hj
    have hraises := raisesAt hcompiled hlinked hspan hmay hholds hlead hk hcalled.instr
    exact Except.ok.inj (hread.symm.trans (hcalled.pushed j hraises rfl))
  · cases hcycle.symm.trans hfault
    cases hraised
  · rw [hcycle] at hfault
    have hquiet : OnlyFaultsAt Quiet (execute p instr) (t.fetched k) :=
      execute_faults p (allows_quiet p instr) fun _ _ _ _ _ => rfl
    rcases bind_eq_error.mp hfault with hfault | ⟨_, _, -, hfault⟩
    · exact absurd hfault (hquiet.ne_raised hraised)
    · cases hfault

end Sites

end Machine

open Function in
theorem Rests.nullCheck_inside {p : Program Instr} {m : Machine} {k base : Nat} {span : Span} {regs : Reg → UInt32}
    {store : Store} (h : Rests m k regs store) (hwf : p.WellFormed) (hfits : p.code.size < codeLimit)
    {ctx : EmitContext} {i : Instruction} {r : Reg} {rest : List Instr}
    (hplaced : Placed p k (nullCheck ctx i r ++ rest)) (hzero : regs .zero = 0) (hnull : regs r = 0)
    (hsp : (regs .sp).toNat % 4 = 0) (hroom : Memory.mapped (regs .sp - 4) 4 = true)
    (hfirst : span.HoldsAt base k) (hlast : span.HoldsAt base (k + 7)) :
    EndsInside p base span (Strays p base span) (.nullReference (codeAddress (k + 2))) m := by
  have hholds : ∀ n ≤ 7, span.HoldsAt base (k + n) := fun n hn =>
    ⟨hfirst.1.trans (Nat.le_add_right k n), lt_of_le_of_lt (by omega) hlast.2⟩
  have hbranch := hplaced.fetch 0 _ rfl
  have hslot := hplaced.fetch 1 _ rfl
  have htell := hplaced.fetch 2 _ rfl
  have htellSlot := hplaced.fetch 3 _ rfl
  have hmove := hplaced.fetch 4 _ rfl
  have hpush := hplaced.fetch 5 _ rfl
  have hraise := hplaced.fetch 6 _ rfl
  have hraiseSlot := hplaced.fetch 7 _ rfl
  obtain ⟨site, hsite, hsiteAt⟩ := hwf.intrinsics .callSite
  obtain ⟨raise, hresolve, hraiseAt⟩ := hwf.intrinsics .throwNullReference
  have hequal : (regs r == regs .zero) = !false := by
    rw [hnull, hzero]
    rfl
  refine .order hfits (hholds 0 (by omega)) h.pc hbranch rfl rfl (h.branch_passes hfits.le hbranch hequal)
    fun m₁ h₁ => ?_
  refine .order hfits (hholds 1 (by omega)) h₁.pc hslot rfl rfl (h₁.nop hfits.le hslot) fun m₂ h₂ => ?_
  refine .order hfits (hholds 2 (by omega)) h₂.pc htell rfl rfl (h₂.call hfits.le htell hsite) fun m₃ h₃ => ?_
  refine .order hfits (hholds 3 (by omega)) h₃.pc htellSlot rfl rfl (h₃.nop hfits.le htellSlot) fun m₄ h₄ => ?_
  have htells : Intrinsic.atAddress? m₄.pc ≠ none := by
    rw [h₄.pc, hsiteAt]
    exact Option.some_ne_none _
  refine .step (.inr htells) (not_strays_of_intrinsic hfits htells) (h₄.tells hsiteAt (update_self ..)) fun m₅ h₅ => ?_
  refine .order hfits (hholds 4 (by omega)) h₅.pc hmove rfl rfl (h₅.addiu hfits.le hmove (by decide)) fun m₆ h₆ => ?_
  rw [update_of_ne (by decide : Reg.sp ≠ .v0), update_of_ne (by decide : Reg.sp ≠ .ra), add_minus_four] at h₆
  have hpushes := h₆.sw hfits.le hpush (a := regs .sp - 4)
    (by rw [update_self, add_zero_offset]) (aligned_sub_four hsp) hroom
  refine .order hfits (hholds 5 (by omega)) h₆.pc hpush rfl rfl hpushes fun m₇ h₇ => ?_
  refine .order hfits (hholds 6 (by omega)) h₇.pc hraise rfl rfl (h₇.call hfits.le hraise hresolve) fun m₈ h₈ => ?_
  refine .order hfits (hholds 7 le_rfl) h₈.pc hraiseSlot rfl rfl (h₈.nop hfits.le hraiseSlot) fun m₉ h₉ => ?_
  have hraises : Intrinsic.atAddress? m₉.pc ≠ none := by
    rw [h₉.pc, hraiseAt]
    exact Option.some_ne_none _
  refine .here (.inr hraises) (not_strays_of_intrinsic hfits hraises) (h₉.stops hraiseAt fun _ => ?_)
  refine Program.runIntrinsic_throwNullReference ?_
  rw [update_of_ne (by decide), update_self, update_of_ne (by decide), update_self]
  exact Store.read_withWord hroom _ _

/-- On MIPS32 exceptions report their sites. -/
theorem reportsSites {tables : Table} {options : Options} {methods : List (CompiledMethod Instr)}
    (hplain : ∀ d ∈ tables.methods, ∀ intrinsic : Intrinsic, d.symbol ≠ intrinsic.symbol)
    (hcompiled : ∀ m ∈ methods, ∃ body, compileMethod backend tables options body = .ok m) :
    ReportsSites backend tables options methods Strays := by
  intro config p store hlink hfits base span hspan m t t' fault raised site hstart hrun hfault hraised
  have hlinked := link_ok hlink
  exact isSite_of_givesSite backend_mentionsTemplates backend_raisesByCalls hcompiled hlinked hfits hplain hspan
    (raises_of_raised hraised) (Machine.givesSite hcompiled hlinked hfits hspan hstart hrun hfault hraised)

end Stencil.Mips
