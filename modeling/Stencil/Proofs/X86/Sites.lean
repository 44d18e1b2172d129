import Stencil.Proofs.Sites.Basic
import Stencil.Proofs.Symbols.Targets
import Stencil.Proofs.X86.Isolation
import Stencil.Proofs.X86.Releases
import Stencil.Proofs.X86.Rests

/-!
# Sites of exceptions on x86

Where an exception may be raised, the code in front tells its own address in a register and pushes it. Control
comes to the push and to the call that raises from the instruction before it only, as long as no call through a
register leads there (`TellsAt.cycle`), so the call finds on the stack what was told (`reportsSites`).
-/

namespace Stencil.X86

open AddressMap Compile Link Stateful

/-! ## Templates -/

/-- The instruction goes where a register or the stack says, and does not come back. -/
def Instr.escapes : Instr → Bool
  | .jmp (.reg _) | .ret => true
  | _ => false

theorem Instr.escapes_of_isLocal {instr : Instr} (h : instr.isLocal = true) : instr.escapes = false := by
  cases instr with
  | jmp target => cases target <;> first | rfl | cases h
  | ret => cases h
  | _ => rfl

/-- No instruction escapes. -/
abbrev Stays (code : List Instr) : Prop := Lacks Instr.escapes code

theorem stays_of_needs {live : Label → List Cell} {after need : List Cell} {code : List Instr}
    (h : needs? live after code = some need) : Stays code := by
  induction code generalizing need with
  | nil => rfl
  | cons head rest ih =>
    obtain ⟨tail, htail, hadmits, -, -⟩ := needs?_cons.mp h
    have hhead : Stays [head] := by simp [Lacks, Instr.escapes_of_isLocal hadmits]
    exact hhead.append (ih htail)

section Templates

variable {ctx : EmitContext} {i : Instruction} {e : Effect} {code : List Instr}

theorem drop_stays (bytes : Nat) : Stays (Instr.drop bytes) := by
  unfold Instr.drop
  split <;> rfl

theorem reserve_stays (bytes : Nat) : Stays (Instr.reserve bytes) := by
  unfold Instr.reserve
  split <;> rfl

theorem afterCall_stays (ret args : Nat) : Stays (afterCall ret args) := by
  have hdrop := drop_stays args
  unfold afterCall
  split
  · rfl
  · split
    · exact hdrop
    · exact .append (.append rfl hdrop) rfl
    · exact .append (.append rfl hdrop) rfl
    · exact .append (.flatMap _ fun _ => rfl) hdrop

theorem callVirtual_stays (hcode : callVirtual ctx i e = .ok code) : Stays code := by
  obtain ⟨⟨m, declaring⟩, -, hcode⟩ := answer_bind.mp hcode
  obtain rfl := Except.ok.inj hcode
  refine .append ?_ (afterCall_stays _ _)
  split
  · exact .append (.append rfl (reserve_stays _)) rfl
  · split
    · exact .append (.append rfl (reserve_stays _)) rfl
    · exact .append rfl (.append (.append rfl (reserve_stays _)) rfl)

/-- A template that may raise an exception does not escape. -/
theorem emit_stays {raised : Intrinsic} (hfailure : (emit ctx i e).failure = none) (hmay : Raisable ctx i raised) :
    Stays (emit ctx i e).code := by
  cases hcalls : i.op.operation.entersMethods with
  | false =>
    obtain ⟨live, -, need, hneed, -⟩ := emit_isolated hcalls hfailure
    exact stays_of_needs hneed
  | true =>
    unfold emit
    cases hop : i.op.operation with
    | callVirtual => exact .ofExcept fun _ => callVirtual_stays
    | call | callIndirect | newObject | methodStart | methodEnd =>
      rw [Raisable, hop] at hmay
      cases raised <;> cases hmay
    | _ =>
      rw [hop] at hcalls
      cases hcalls

theorem backend_raisesByCalls : backend.RaisesByCalls where
  lead := rfl
  symbols _ := rfl
  token ctx i e hop s := by
    show Instr.callSymbol s ∉ (emit ctx i e).code
    unfold emit
    rw [hop]
    cases ctx.tokenSymbol i with
    | error e => exact List.not_mem_nil
    | ok symbol =>
      intro hmem
      cases List.mem_singleton.mp hmem

end Templates

/-! ## Where control goes -/

instance : Steering Instr Machine where
  cycle := Machine.cycle
  pc := Machine.pc
  StartsAt m a := m.pc = a
  callTarget? m
    | .call (.reg r) => some (m.reg r)
    | _ => none
  jumpTarget? m
    | .jmp (.reg r) => some (m.reg r)
    | _ => none

/-- The code at this index tells its address, pushes it and raises an exception, and the span does not escape. -/
structure RaisesAt (p : Program Instr) (base : Nat) (span : Span) (j : Nat) : Prop where
  holds : span.HoldsAt base j
  lead : LeadsAt p j
  call : ∃ s, p.code[j + 2]? = some (.callSymbol s)
  last : span.HoldsAt base (j + 2)
  stays : ∀ k instr, span.HoldsAt base k → p.code[k]? = some instr → instr.escapes = false

namespace RaisesAt

variable {p : Program Instr} {base j : Nat} {span : Span} (h : RaisesAt p base span j)

include h

theorem first : p.code[j]? = some (.callSymbol Intrinsic.callSite.symbol) := h.lead 0 _ rfl

theorem second : p.code[j + 1]? = some (.pushReg .eax) := h.lead 1 _ rfl

theorem unlabelled {n : Nat} {instr : Instr} (hlow : j < n) (hhigh : n ≤ j + 2) (hinstr : p.code[n]? = some instr) :
    TargetInstr.asLabel? instr = none := by
  obtain ⟨s, hcall⟩ := h.call
  obtain rfl | rfl : n = j + 1 ∨ n = j + 2 := by omega
  · cases h.second.symm.trans hinstr
    rfl
  · cases hcall.symm.trans hinstr
    rfl

theorem holdsAt {n : Nat} (hlow : j ≤ n) (hhigh : n ≤ j + 2) : span.HoldsAt base n := by
  obtain ⟨hfirst, -⟩ := h.holds
  obtain ⟨-, hend⟩ := h.last
  exact ⟨by omega, by omega⟩

end RaisesAt

namespace Machine

variable {p : Program Instr} {m t : Machine} {site next a : UInt32}

theorem targetAddress_ok {target : Target} (h : targetAddress p target m = .ok a t) : t = m := by
  rw [← targetAddress_state p target m, stateAfter_of_ok h]

/-- A call goes to its target, or runs an intrinsic there. -/
theorem call_ok {target : Target} (h : call p site next target m = .ok () t) :
    ∃ a, targetAddress p target m = .ok a m ∧ (Intrinsic.atAddress? a = none ∧ t.pc = a ∨
      ∃ intrinsic, Intrinsic.atAddress? a = some intrinsic ∧ t.pc = m.pc ∧
        (intrinsic = .callSite → t.reg .eax = site)) := by
  obtain ⟨a, u, htarget, hgo⟩ := bind_eq_ok.mp h
  obtain rfl := targetAddress_ok htarget
  refine ⟨a, htarget, ?_⟩
  cases hat : Intrinsic.atAddress? a with
  | none =>
    rw [hat] at hgo
    obtain ⟨_, v, -, hgo⟩ := bind_eq_ok.mp hgo
    obtain ⟨-, rfl⟩ := EStateM.Result.ok.inj hgo
    exact .inl ⟨rfl, rfl⟩
  | some intrinsic =>
    rw [hat] at hgo
    obtain ⟨sp, _, hsp, hgo⟩ := bind_eq_ok.mp hgo
    obtain ⟨rfl, rfl⟩ := EStateM.Result.ok.inj hsp
    obtain ⟨answer, v, hrun, hgo⟩ := bind_eq_ok.mp hgo
    have hpc : v.pc = u.pc := by
      rw [← stateAfter_of_ok hrun, onStore_state]
    refine .inr ⟨intrinsic, rfl, ?_, ?_⟩
    · rw [← hpc]
      cases answer with
      | some value =>
        obtain ⟨-, rfl⟩ := EStateM.Result.ok.inj hgo
        rfl
      | none =>
        obtain ⟨-, rfl⟩ := EStateM.Result.ok.inj hgo
        rfl
    · rintro rfl
      obtain ⟨rfl, rfl⟩ := EStateM.Result.ok.inj hrun
      obtain ⟨-, rfl⟩ := EStateM.Result.ok.inj hgo
      exact reg_setReg_self _ _ _

/-- An instruction goes on to the next one, or to a label, a symbol or where a register or the stack says. -/
theorem execute_lands {instr : Instr} (h : execute p site instr m = .ok () t) :
    t.pc = m.pc ∨ (∃ l, p.labelAddress l = .ok t.pc) ∨ (∃ s, p.resolve s = .ok t.pc) ∨ instr.escapes = true ∨
      Steering.callTarget? m instr = some t.pc := by
  cases hjumps : instr.jumps with
  | false =>
    have hnotes := execute_notes p site hjumps m
    rw [stateAfter_of_ok h] at hnotes
    exact .inl (congrArg Prod.snd hnotes)
  | true =>
    have htarget : ∀ {target : Target} {a : UInt32} {u : Machine}, targetAddress p target u = .ok a u →
        (∃ l, p.labelAddress l = .ok a) ∨ (∃ s, p.resolve s = .ok a) ∨ ∃ r, target = .reg r ∧ a = u.reg r := by
      intro target a u htarget
      cases target with
      | label l => exact .inl ⟨l, lift_ok htarget⟩
      | symbol s => exact .inr (.inl ⟨s, lift_ok htarget⟩)
      | reg r =>
        obtain ⟨rfl, -⟩ := EStateM.Result.ok.inj htarget
        exact .inr (.inr ⟨r, rfl, rfl⟩)
    cases instr with
    | jmp target =>
      obtain ⟨a, u, ha, h⟩ := bind_eq_ok.mp h
      obtain ⟨-, rfl⟩ := EStateM.Result.ok.inj h
      obtain rfl := targetAddress_ok ha
      rcases htarget ha with hlabel | hsymbol | ⟨r, rfl, -⟩
      · exact .inr (.inl hlabel)
      · exact .inr (.inr (.inl hsymbol))
      · exact .inr (.inr (.inr (.inl rfl)))
    | jcc cond l =>
      obtain ⟨_, u, hget, h⟩ := bind_eq_ok.mp h
      obtain ⟨rfl, rfl⟩ := EStateM.Result.ok.inj hget
      split at h
      · obtain ⟨a, v, ha, h⟩ := bind_eq_ok.mp h
        obtain ⟨-, rfl⟩ := EStateM.Result.ok.inj h
        exact .inr (.inl ⟨l, lift_ok ha⟩)
      · obtain ⟨-, rfl⟩ := EStateM.Result.ok.inj h
        exact .inl rfl
    | call target =>
      obtain ⟨a, ha, ⟨-, rfl⟩ | ⟨_, -, hpc, -⟩⟩ := call_ok h
      · rcases htarget ha with hlabel | hsymbol | ⟨r, rfl, hr⟩
        · exact .inr (.inl hlabel)
        · exact .inr (.inr (.inl hsymbol))
        · exact .inr (.inr (.inr (.inr (congrArg some hr.symm))))
      · exact .inl hpc
    | ret => exact .inr (.inr (.inr (.inl rfl)))
    | _ => cases hjumps

theorem push_ok {value : UInt32} (h : push value m = .ok () t) :
    t.store.memory.read (t.reg .esp) 4 = .ok value := by
  obtain ⟨sp, _, hsp, h⟩ := bind_eq_ok.mp h
  obtain ⟨rfl, rfl⟩ := EStateM.Result.ok.inj hsp
  obtain ⟨_, u, hwrite, h⟩ := bind_eq_ok.mp h
  obtain ⟨-, rfl⟩ := EStateM.Result.ok.inj h
  rw [reg_setReg_self, setReg_store]
  unfold onStore at hwrite
  dsimp only at hwrite
  split at hwrite
  · rename_i hstore
    obtain ⟨-, rfl⟩ := EStateM.Result.ok.inj hwrite
    exact Store.read_of_writeWord hstore
  · cases hwrite

/-- A call that ends with an exception gets to the intrinsic that raises it, which finds the address of the site on
the stack. -/
theorem call_raises {target : Target} {fault : Fault} {raised : Intrinsic} {reported : UInt32}
    (h : call p site next target m = .error fault t) (hraised : fault.raised? = some (raised, reported)) :
    ∃ a, targetAddress p target m = .ok a m ∧ Intrinsic.atAddress? a = some raised ∧
      m.store.memory.read (m.reg .esp) 4 = .ok reported := by
  rcases bind_eq_error.mp h with hfault | ⟨a, u, htarget, hgo⟩
  · have hquiet : OnlyFaults Quiet (targetAddress p target) :=
      targetAddress_faults p (fun _ _ => .inr fun _ => rfl) fun _ _ => .inr fun _ => rfl
    exact absurd hfault ((hquiet m).ne_raised hraised)
  obtain rfl := targetAddress_ok htarget
  refine ⟨a, htarget, ?_⟩
  cases hat : Intrinsic.atAddress? a with
  | none =>
    rw [hat] at hgo
    have hpush : OnlyFaults Quiet (push next) := push_faults Quiet.of_mechanical next
    have hquiet : OnlyFaults Quiet (push next >>= fun _ => goto a) := .bind hpush fun _ => goto_faults _
    exact absurd hgo ((hquiet u).ne_raised hraised)
  | some intrinsic =>
    rw [hat] at hgo
    rcases bind_eq_error.mp hgo with hfault | ⟨sp, _, hsp, hgo⟩
    · cases hfault
    obtain ⟨rfl, rfl⟩ := EStateM.Result.ok.inj hsp
    rcases bind_eq_error.mp hgo with hfault | ⟨answer, v, -, hgo⟩
    · unfold onStore at hfault
      dsimp only at hfault
      split at hfault
      · cases hfault
      · rename_i hrun
        cases hfault
        obtain ⟨rfl, hread⟩ := p.runIntrinsic_reports _ _ _ _ _ _ hrun _ _ hraised
        exact ⟨rfl, hread⟩
    · cases answer <;> cases hgo

/-- Only calls end with exceptions. -/
theorem cycle_raises (hfits : p.code.size ≤ codeLimit) {fault : Fault} {raised : Intrinsic} {reported : UInt32}
    (h : cycle p m = .error fault t) (hraised : fault.raised? = some (raised, reported)) :
    ∃ k target a, m.pc = codeAddress k ∧ p.code[k]? = some (.call target) ∧
      targetAddress p target (m.fetched k) = .ok a (m.fetched k) ∧ Intrinsic.atAddress? a = some raised ∧
      m.store.memory.read (m.reg .esp) 4 = .ok reported := by
  rcases cycle_cases hfits m with hstop | ⟨k, instr, hpc, hinstr, hrun⟩
  · cases hstop.symm.trans h
    cases hraised
  rw [hrun] at h
  by_cases hcall : ∃ target, instr = .call target
  · obtain ⟨target, rfl⟩ := hcall
    obtain ⟨a, htarget, hat, hread⟩ := call_raises h hraised
    exact ⟨k, target, a, hpc, hinstr, htarget, hat, hread⟩
  · have hquiet : OnlyFaults Quiet (execute p (codeAddress k) instr) :=
      execute_faults p (allows_quiet p instr) fun target htarget => absurd ⟨target, htarget⟩ hcall
    exact absurd h ((hquiet _).ne_raised hraised)

/-! ## What a call that raises finds -/

/-- The code that lies here has told its address when control is behind its first instruction, and has pushed it
when control is behind its second one. -/
structure TellsAt (j : Nat) (m : Machine) : Prop where
  told : m.pc = codeAddress (j + 1) → m.reg .eax = codeAddress j
  pushed : m.pc = codeAddress (j + 2) → m.store.memory.read (m.reg .esp) 4 = .ok (codeAddress j)

theorem TellsAt.of_elsewhere {j : Nat} (h : ∀ n, j < n → n ≤ j + 2 → m.pc ≠ codeAddress n) : TellsAt j m where
  told hpc := absurd hpc (h _ (by omega) (by omega))
  pushed hpc := absurd hpc (h _ (by omega) (by omega))

section Sites

variable {tables : Table} {options : Options} {methods : List (CompiledMethod Instr)} {config : RunConfig}
  (hcompiled : ∀ m ∈ methods, ∃ body, compileMethod backend tables options body = .ok m)
  (hlinked : Linked methods tables options config p) (hfits : p.code.size < codeLimit) {base : Nat} {span : Span}
  (hspan : SpanAt methods base span)

include hcompiled hlinked hfits hspan

/-- Control gets behind the first instruction of code that raises in order only. -/
theorem arrives {j k n : Nat} (hj : RaisesAt p base span j) {instr : Instr} (hk : span.HoldsAt base k)
    (hpc : m.pc = codeAddress k) (hinstr : p.code[k]? = some instr) (hstray : ¬Strays p base span m)
    (h : execute p (codeAddress k) instr (m.fetched k) = .ok () t) (hlow : j < n) (hhigh : n ≤ j + 2)
    (hn : t.pc = codeAddress n) : n = k + 1 := by
  have hholds := hj.holdsAt hlow.le hhigh
  have hlt := hspan.lt_size hcompiled hlinked hholds
  have hlt' := (Array.getElem?_eq_some_iff.mp hinstr).1
  have hstart := hj.holds.1
  rcases execute_lands h with hnext | ⟨l, hl⟩ | ⟨s, hs⟩ | hescapes | htarget
  · exact (codeAddress_inj (by omega) (by omega)).mp (hn.symm.trans hnext)
  · rw [hn] at hl
    obtain ⟨instr', hinstr', hbinds⟩ := hlinked.binds_of_labelAddress hfits (by omega) hl
    cases (hj.unlabelled hlow hhigh hinstr').symm.trans hbinds
  · rw [hn] at hs
    have hfirst := hspan.start_of_symbol hcompiled hlinked hfits hholds hs
    omega
  · cases (hj.stays k instr hk hinstr).symm.trans hescapes
  · rw [hn] at htarget
    exact absurd (.inr ⟨k, instr, n, hpc, hinstr, htarget, hholds, by omega⟩) hstray

/-- The intrinsic tells the site, unless its symbol leads elsewhere. -/
theorem told_of_call {j : Nat} (hj : RaisesAt p base span j)
    (h : call p (codeAddress j) next (.symbol Intrinsic.callSite.symbol) m = .ok () t)
    (hn : t.pc = codeAddress (j + 1)) : t.reg .eax = codeAddress j := by
  obtain ⟨a, htarget, ⟨-, hgone⟩ | ⟨intrinsic, hat, -, htold⟩⟩ := call_ok h
  · have hresolve : p.resolve Intrinsic.callSite.symbol = .ok (codeAddress (j + 1)) := by
      rw [← hn, hgone]
      exact lift_ok htarget
    have hfirst := hspan.start_of_symbol hcompiled hlinked hfits (hj.holdsAt (by omega) (by omega)) hresolve
    have hlow := hj.holds.1
    omega
  · refine htold ?_
    by_cases hsite : intrinsic = .callSite
    · exact hsite
    · have hsymbol := hlinked.symbol_of_intrinsicAddress hfits.le (lift_ok htarget) hat hsite
      exact (Intrinsic.symbol_inj hsymbol).symm

theorem TellsAt.cycle {j : Nat} (hj : RaisesAt p base span j) (hm : TellsAt j m) (hinside : ControlIn Instr base span m)
    (hstray : ¬Strays p base span m) (hcycle : Machine.cycle p m = .ok () t) : TellsAt j t := by
  rcases cycle_cases hfits.le m with hstop | ⟨k, instr, hpc, hinstr, hrun⟩
  · cases hstop.symm.trans hcycle
  rw [hrun] at hcycle
  have hlt := (Array.getElem?_eq_some_iff.mp hinstr).1
  have hk := hinside.holdsAt hcompiled hlinked hfits hspan hpc (by omega)
  have harrives : ∀ n, j < n → n ≤ j + 2 → t.pc = codeAddress n → n = k + 1 := fun n =>
    arrives hcompiled hlinked hfits hspan hj hk hpc hinstr hstray hcycle
  constructor
  · intro hn
    obtain rfl : j = k := Nat.succ.inj (harrives (j + 1) (by omega) (by omega) hn)
    obtain rfl := Option.some.inj (hj.first.symm.trans hinstr)
    exact told_of_call hcompiled hlinked hfits hspan hj hcycle hn
  · intro hn
    obtain rfl : j + 1 = k := Nat.succ.inj (harrives (j + 2) (by omega) (by omega) hn)
    obtain rfl := Option.some.inj (hj.second.symm.trans hinstr)
    obtain ⟨value, u, hread, hpushed⟩ := bind_eq_ok.mp hcycle
    obtain ⟨rfl, rfl⟩ := EStateM.Result.ok.inj hread
    rw [push_ok hpushed]
    exact congrArg Except.ok (hm.told hpc)

/-- A run that stays in a span gives the exception the address that was told. -/
theorem givesSite (hstart : m.pc = codeAddress (base + span.start)) {u : Machine}
    (hrun : StaysIn p base span (Strays p base span) m t) {fault : Fault} {raised : Intrinsic} {reported : UInt32}
    (hfault : Machine.cycle p t = .error fault u) (hraised : fault.raised? = some (raised, reported)) :
    GivesSite p base span raised reported (span.MayRaise backend options raised) := by
  obtain ⟨k, target, a, hpc, hinstr, htarget, hat, hread⟩ := cycle_raises hfits.le hfault hraised
  have hlt := (Array.getElem?_eq_some_iff.mp hinstr).1
  obtain ⟨hinside, hstray⟩ := hrun.stop
  have hk := hinside.holdsAt hcompiled hlinked hfits hspan hpc (by omega)
  cases target with
  | label l =>
    obtain ⟨n, _, rfl, hn, -⟩ := hlinked.labelAddress_ok (lift_ok htarget)
    have hn := (Array.getElem?_eq_some_iff.mp hn).1
    rw [atAddress?_codeAddress (by omega)] at hat
    cases hat
  | reg r =>
    obtain ⟨rfl, -⟩ := EStateM.Result.ok.inj htarget
    have hpointer : Intrinsic.atAddress? (t.reg r) ≠ none := fun hnone => by cases hat.symm.trans hnone
    exact absurd (.inl ⟨k, _, _, hpc, hinstr, .inl rfl, hpointer⟩) hstray
  | symbol s =>
    refine ⟨k, s, a, hk, hinstr, lift_ok htarget, hat, fun hmay j hj hholds hlead => ?_⟩
    obtain rfl : k = j + 2 := hj
    have hraises : RaisesAt p base span j := ⟨hholds, hlead, ⟨s, hinstr⟩, hk, fun _ _ hk hinstr =>
      hspan.lacks (fun _ => rfl) (fun _ _ _ => emit_stays) hcompiled hlinked hmay hk hinstr⟩
    have hfirst : TellsAt j m := by
      have hlow := hholds.1
      refine .of_elsewhere fun n hn hend hm => ?_
      have hsame := (codeAddress_inj (by omega) (by omega)).mp (hstart.symm.trans hm)
      omega
    have htells : TellsAt j t := hrun.invariant hfirst fun _ _ hm hinside hstray hcycle _ =>
      hm.cycle hcompiled hlinked hfits hspan hraises hinside hstray hcycle
    exact Except.ok.inj (hread.symm.trans (htells.pushed hpc))

end Sites

end Machine

theorem Rests.nullCheck_inside {p : Program Instr} {m : Machine} {k base : Nat} {span : Span} {regs : Reg → UInt32}
    {zero : Bool} {store : Store} (h : Rests m k regs zero store) (hwf : p.WellFormed) (hfits : p.code.size < codeLimit)
    {ctx : EmitContext} {i : Instruction} {r : Reg} {rest : List Instr}
    (hplaced : Placed p k (nullCheck ctx i r ++ rest)) (hnull : regs r = 0)
    (hroom : Memory.mapped (regs .esp - 4) 4 = true) (hfirst : span.HoldsAt base k)
    (hlast : span.HoldsAt base (k + 4)) :
    EndsInside p base span (Strays p base span) (.nullReference (codeAddress (k + 2))) m := by
  have hholds : ∀ n ≤ 4, span.HoldsAt base (k + n) := fun n hn =>
    ⟨hfirst.1.trans (Nat.le_add_right k n), lt_of_le_of_lt (by omega) hlast.2⟩
  have htest := hplaced.fetch 0 _ rfl
  have hbranch := hplaced.fetch 1 _ rfl
  have htell := hplaced.fetch 2 _ rfl
  have hpush := hplaced.fetch 3 _ rfl
  have hraise := hplaced.fetch 4 _ rfl
  refine .order hfits (hholds 0 (by omega)) h.pc htest rfl rfl (h.test hfits.le htest) fun m₁ h₁ => ?_
  refine .order hfits (hholds 1 (by omega)) h₁.pc hbranch rfl rfl (h₁.jcc_passed hfits.le hbranch ?_) fun m₂ h₂ => ?_
  · intro flags hflag
    rw [Flags.holds, hflag, hnull]
    rfl
  refine .order hfits (hholds 2 (by omega)) h₂.pc htell rfl rfl (h₂.callSite hfits.le hwf htell) fun m₃ h₃ => ?_
  have hesp : Function.update regs .eax (codeAddress (k + 2)) .esp = regs .esp := Function.update_of_ne (by decide) _ _
  have hpushes := h₃.push hfits.le (w := codeAddress (k + 2)) hpush
    (fun m' hreg => by
      show EStateM.Result.ok (m'.reg .eax) m' = _
      rw [hreg, Function.update_self])
    (by rwa [hesp])
  refine .order hfits (hholds 3 (by omega)) h₃.pc hpush rfl rfl hpushes fun m₄ h₄ => ?_
  refine .here (.inl ⟨_, hholds 4 le_rfl, h₄.pc⟩) (not_strays hfits h₄.pc hraise rfl rfl) ?_
  refine h₄.stops hwf hraise fun site => Program.runIntrinsic_throwNullReference ?_
  rw [Function.update_self, hesp]
  exact Store.read_withWord hroom _ _

/-- On x86 exceptions report their sites. -/
theorem reportsSites {tables : Table} {options : Options} {methods : List (CompiledMethod Instr)}
    (hplain : ∀ d ∈ tables.methods, ∀ intrinsic : Intrinsic, d.symbol ≠ intrinsic.symbol)
    (hcompiled : ∀ m ∈ methods, ∃ body, compileMethod backend tables options body = .ok m) :
    ReportsSites backend tables options methods Strays := by
  intro config p store hlink hfits base span hspan m t t' fault raised site hstart hrun hfault hraised
  have hlinked := link_ok hlink
  exact isSite_of_givesSite backend_mentionsTemplates backend_raisesByCalls hcompiled hlinked hfits hplain hspan
    (raises_of_raised hraised) (Machine.givesSite hcompiled hlinked hfits hspan hstart hrun hfault hraised)

end Stencil.X86
