import Stencil.Proofs.Height.Place
import Stencil.Proofs.Mips.Height
import Mathlib.Logic.Relation

/-!
# Paths through a MIPS32 template

A path runs the instructions of a template one after another. A call is one step together with its
delay slot: of an intrinsic it runs it, of a method it returns through `$ra` with the stack pointer
and the frame pointer it was made with. Every path that leaves a balanced template leaves it at the
distance the template is balanced for (`pathsAdd_of_balanced`).
-/

namespace Stencil.Mips

open AddressMap Stateful

/-- A call and its delay slot, up to where the routine is entered. -/
structure Enters (p : Program Instr) (base : Nat) (code : List Instr) (k : Nat) (m entry : Machine) :
    Prop where
  pc : m.pc = codeAddress (base + k)
  instr : ∃ instr, code[k]? = some instr ∧ instr.isCall = true
  cycles : ∃ t, Machine.cycle p m = .ok () t ∧ Machine.cycle p t = .ok () entry

/-- One step inside the template `code` that is placed at `base`. -/
inductive TemplateStep (p : Program Instr) (base : Nat) (code : List Instr) :
    Machine → Machine → Prop
  /-- An instruction runs that is no call. -/
  | cycle {m m' : Machine} {k : Nat} {instr : Instr} (hpc : m.pc = codeAddress (base + k))
      (hinstr : code[k]? = some instr) (hcall : instr.isCall = false)
      (hcycle : Machine.cycle p m = .ok () m') : TemplateStep p base code m m'
  /-- An intrinsic is called and runs. -/
  | intrinsic {m entry m' : Machine} {k : Nat} {intrinsic : Intrinsic}
      (henters : Enters p base code k m entry)
      (hintrinsic : Intrinsic.atAddress? entry.pc = some intrinsic)
      (hcycle : Machine.cycle p entry = .ok () m') : TemplateStep p base code m m'
  /-- A method is called and returns. -/
  | method {m entry m' : Machine} {k : Nat} (henters : Enters p base code k m entry)
      (hmethod : Intrinsic.atAddress? entry.pc = none) (hsp : m'.reg .sp = entry.reg .sp)
      (hfp : m'.reg .fp = entry.reg .fp) (hpc : m'.pc = entry.reg .ra)
      (hnpc : m'.npc = entry.reg .ra + 4) : TemplateStep p base code m m'

/-- What may stand at the start of tracked code. -/
inductive Next (heights : Label → UInt32) (h : UInt32) (t : Option UInt32) : List Instr → Prop
  | move {instr : Instr} {rest : List Instr} {e : UInt32} (hmove : instr.moves? = some e)
      (hrest : Track heights (some (h + e)) rest t) : Next heights h t (instr :: rest)
  | label {l : Label} {rest : List Instr} (hrest : Track heights (some h) rest t) :
      Next heights h t (.label l :: rest)
  | branch {instr : Instr} {l : Label} {rest : List Instr} (hbranches : instr.branchesTo l)
      (hheight : heights l = h) (hrest : Track heights (some h) rest t) :
      Next heights h t (instr :: .nop :: rest)
  | jump {l : Label} {rest : List Instr} (hheight : heights l = h) :
      Next heights h t (.j l :: .nop :: rest)
  | call {instr : Instr} {rest : List Instr} (hcall : instr.isCall = true)
      (hrest : Track heights (some h) rest t) : Next heights h t (instr :: .nop :: rest)
  | stop {intrinsic : Intrinsic} {rest : List Instr} (hnever : intrinsic.neverReturns = true) :
      Next heights h t (.jal intrinsic.symbol :: .nop :: rest)

theorem next_of_track {heights : Label → UInt32} {h : UInt32} {instr : Instr} {rest : List Instr}
    {t : Option UInt32} (htrack : Track heights (some h) (instr :: rest) t) :
    Next heights h t (instr :: rest) := by
  generalize hcode : instr :: rest = code at htrack ⊢
  cases htrack with
  | nil => cases hcode
  | move hmove hrest => exact .move hmove hrest
  | label hlabel _ hrest =>
    cases hcode
    cases instr <;> first | exact .label hrest | cases hlabel
  | branch hbranch hheight hrest =>
    obtain ⟨instr', rfl, hbranches⟩ := hbranch
    exact .branch hbranches hheight hrest
  | jump hjump hheight =>
    obtain rfl := hjump
    exact .jump hheight
  | call hcall hrest =>
    obtain ⟨instr', rfl, hcall⟩ := hcall
    exact .call hcall hrest
  | stop hstop =>
    obtain ⟨intrinsic, hnever, rfl⟩ := hstop
    exact .stop hnever

namespace Machine

variable {p : Program Instr}

theorem lift_ok {α : Type} {x : Except Fault α} {a : α} {m m' : Machine} :
    lift x m = .ok a m' ↔ x = .ok a ∧ m = m' := by
  cases x with
  | ok b =>
    show EStateM.Result.ok b m = .ok a m' ↔ _
    simp
  | error fault =>
    show EStateM.Result.error fault m = .ok a m' ↔ _
    simp

theorem execute_branch {instr : Instr} {l : Label} {next : Option UInt32} {m m' : Machine}
    (hbranches : instr.branchesTo l) (h : execute p instr m = .ok next m') :
    m = m' ∧ (next = none ∨ ∃ address, p.labelAddress l = .ok address ∧ next = some address) := by
  -- both kinds of branches go to the label or on
  have hgoes : ∀ {t : Machine} {c : Prop} [Decidable c],
      (if c then lift (p.labelAddress l) >>= fun address => pure (some address)
        else pure none : Run (Option UInt32)) t = .ok next m' →
      t = m' ∧ (next = none ∨ ∃ address, p.labelAddress l = .ok address ∧ next = some address) := by
    intro t c _ hrun
    split at hrun
    · obtain ⟨address, _, hlift, hpure⟩ := bind_eq_ok.mp hrun
      obtain ⟨haddress, rfl⟩ := lift_ok.mp hlift
      obtain ⟨rfl, rfl⟩ := EStateM.Result.ok.inj hpure
      exact ⟨rfl, .inr ⟨address, haddress, rfl⟩⟩
    · obtain ⟨rfl, rfl⟩ := EStateM.Result.ok.inj hrun
      exact ⟨rfl, .inl rfl⟩
  cases instr with
  | branch onEqual lhs rhs target =>
    obtain rfl := hbranches
    exact hgoes h
  | branchZero test src target =>
    obtain rfl := hbranches
    exact hgoes h
  | _ => exact hbranches.elim

theorem execute_j {l : Label} {next : Option UInt32} {m m' : Machine}
    (h : execute p (.j l) m = .ok next m') :
    m = m' ∧ ∃ address, p.labelAddress l = .ok address ∧ next = some address := by
  obtain ⟨address, _, hlift, hpure⟩ := bind_eq_ok.mp h
  obtain ⟨haddress, rfl⟩ := lift_ok.mp hlift
  obtain ⟨rfl, rfl⟩ := EStateM.Result.ok.inj hpure
  exact ⟨rfl, address, haddress, rfl⟩

theorem execute_call {instr : Instr} {next : Option UInt32} {m m' : Machine}
    (hcall : instr.isCall = true) (h : execute p instr m = .ok next m') :
    ∃ address, next = some address ∧ m' = m.setReg .ra (m.pc + 8) ∧
      ∀ s, instr = .jal s → p.resolve s = .ok address := by
  cases instr with
  | jal symbol =>
    obtain ⟨address, _, hlift, h⟩ := bind_eq_ok.mp h
    obtain ⟨haddress, rfl⟩ := lift_ok.mp hlift
    obtain ⟨rfl, rfl⟩ := EStateM.Result.ok.inj h
    refine ⟨address, rfl, rfl, ?_⟩
    rintro s heq
    cases heq
    exact haddress
  | jalr target =>
    obtain ⟨rfl, rfl⟩ := EStateM.Result.ok.inj h
    exact ⟨_, rfl, rfl, fun s heq => nomatch heq⟩
  | _ => cases hcall

/-- An intrinsic returns through `$ra` and moves neither the stack nor the frame pointer. -/
theorem callIntrinsic_ok {intrinsic : Intrinsic} {m m' : Machine}
    (h : callIntrinsic p intrinsic m = .ok () m') :
    m'.reg .sp = m.reg .sp ∧ m'.reg .fp = m.reg .fp ∧ m'.pc = m.reg .ra ∧
      m'.npc = m.reg .ra + 4 := by
  obtain ⟨ra, _, hra, h⟩ := bind_eq_ok.mp h
  obtain ⟨rfl, rfl⟩ := EStateM.Result.ok.inj hra
  obtain ⟨sp, _, hsp, h⟩ := bind_eq_ok.mp h
  obtain ⟨rfl, rfl⟩ := EStateM.Result.ok.inj hsp
  obtain ⟨value, t, hrun, h⟩ := bind_eq_ok.mp h
  obtain ⟨hsp, hfp, -, -⟩ := moved_iff.mp (onStore_adds _ m value t hrun)
  rw [UInt32.add_zero] at hsp
  cases value with
  | none =>
    obtain ⟨-, rfl⟩ := EStateM.Result.ok.inj h
    exact ⟨hsp, hfp, rfl, rfl⟩
  | some value =>
    obtain ⟨-, rfl⟩ := EStateM.Result.ok.inj h
    refine ⟨?_, ?_, rfl, rfl⟩
    · rw [← hsp]
      exact reg_setReg_of_ne t value (by decide)
    · rw [← hfp]
      exact reg_setReg_of_ne t value (by decide)

theorem callIntrinsic_stops {intrinsic : Intrinsic} (hnever : intrinsic.neverReturns = true)
    {m m' : Machine} : callIntrinsic p intrinsic m ≠ .ok () m' := by
  intro h
  obtain ⟨ra, _, -, h⟩ := bind_eq_ok.mp h
  obtain ⟨sp, t, -, h⟩ := bind_eq_ok.mp h
  obtain ⟨value, _, hrun, -⟩ := bind_eq_ok.mp h
  unfold onStore at hrun
  dsimp only at hrun
  split at hrun
  · rename_i hstore
    exact p.runIntrinsic_stops hnever hstore
  · cases hrun

end Machine

/-! ## Paths -/

section Paths

variable {p : Program Instr} {base : Nat} {code : List Instr} {heights : Label → UInt32}
  {d : UInt32} {m₀ m m' : Machine}

/-- Control goes on in order from a place at the distance `h`, or stands in a delay slot that holds
`nop` and goes to such a place. -/
inductive OnTrack (heights : Label → UInt32) (base : Nat) (code : List Instr) (d : UInt32)
    (m : Machine) (h : UInt32) : Prop
  | inOrder (hnpc : m.npc = m.pc + 4) (hstands : Stands heights base code d m.pc h)
  | inSlot {k : Nat} (hpc : m.pc = codeAddress (base + k)) (hnop : code[k]? = some .nop)
      (hstands : Stands heights base code d m.npc h)

/-- What holds on a path that started with the machine `m₀`. -/
def Follows (heights : Label → UInt32) (base : Nat) (code : List Instr) (d : UInt32)
    (m₀ m : Machine) : Prop :=
  ∃ h, m.reg .sp = m₀.reg .sp + h ∧ m.reg .fp = m₀.reg .fp ∧ OnTrack heights base code d m h

theorem next_of_level {k : Nat} {instr : Instr} {h : UInt32} (hinstr : code[k]? = some instr)
    (hlevel : Level heights code d k h) :
    ∃ t, (t = none ∨ t = some d) ∧ Next heights h t (instr :: code.drop (k + 1)) := by
  have hk : k < code.length := (List.getElem?_eq_some_iff.mp hinstr).1
  obtain ⟨t, ht, htrack⟩ := hlevel
  rw [List.drop_eq_getElem_cons hk, (List.getElem?_eq_some_iff.mp hinstr).2] at htrack
  exact ⟨t, ht, next_of_track htrack⟩

theorem getElem_of_drop {k : Nat} {rest : List Instr} (h : code.drop (k + 1) = .nop :: rest) :
    code[k + 1]? = some .nop ∧ code.drop (k + 2) = rest ∧ k + 2 ≤ code.length := by
  have hlength := congrArg List.length h
  rw [List.length_drop, List.length_cons] at hlength
  refine ⟨?_, ?_, by omega⟩
  · rw [← List.head?_drop, h]
    rfl
  · have hdrop := congrArg (List.drop 1) h
    rwa [List.drop_drop] at hdrop

theorem follows_cycle (hwf : p.WellFormed) (hplaced : Placed p base code)
    (hend : base + code.length ≤ codeLimit) (hbalanced : Balanced heights code d) {k : Nat}
    {instr : Instr} {h : UInt32} (hpc : m.pc = codeAddress (base + k))
    (hinstr : code[k]? = some instr) (hcall : instr.isCall = false)
    (hsp : m.reg .sp = m₀.reg .sp + h) (hfp : m.reg .fp = m₀.reg .fp) (hnpc : m.npc = m.pc + 4)
    (hlevel : Level heights code d k h) (hcycle : Machine.cycle p m = .ok () m') :
    Follows heights base code d m₀ m' := by
  have hk : k < code.length := (List.getElem?_eq_some_iff.mp hinstr).1
  obtain ⟨next, t, hrun, rfl⟩ := Machine.cycle_ok hwf.fits hpc (hplaced.fetch k instr hinstr) hcycle
  have hsucc : m.npc = codeAddress (base + (k + 1)) := by
    rw [hnpc, hpc, codeAddress_succ]
    rfl
  -- going on to the next instruction at the distance `h + e`
  have hgo : ∀ {e : UInt32}, Level heights code d (k + 1) (h + e) → next = none →
      Moved e (m.fetched (base + k)) t → Follows heights base code d m₀ (t.advance next) := by
    rintro e hlevel rfl hmoved
    obtain ⟨hsp', hfp', -, hnpc'⟩ := Machine.moved_iff.mp hmoved
    refine ⟨h + e, ?_, ?_, .inOrder rfl ?_⟩
    · rw [Machine.advance_reg, hsp', Machine.fetched_reg, hsp, UInt32.add_assoc]
    · rw [Machine.advance_reg, hfp', Machine.fetched_reg, hfp]
    · rw [Machine.advance_pc, hnpc', Machine.fetched_npc, hsucc]
      exact .of_level (k := k + 1) hend hk hlevel
  -- going to the delay slot, and from there to a place at the distance `h`
  have hslot : code[k + 1]? = some .nop → m.fetched (base + k) = t →
      Stands heights base code d (next.getD (codeAddress (base + (k + 2)))) h →
      Follows heights base code d m₀ (t.advance next) := by
    rintro hnop rfl hstands
    refine ⟨h, hsp, hfp, .inSlot (k := k + 1) hsucc hnop ?_⟩
    have htarget : ((m.fetched (base + k)).advance next).npc =
        next.getD (codeAddress (base + (k + 2))) := by
      show next.getD (m.npc + 4) = _
      rw [hsucc, codeAddress_succ]
      rfl
    rwa [htarget]
  have hland : ∀ {l : Label} {address : UInt32}, LabelUse.uses? instr = some l → heights l = h →
      p.labelAddress l = .ok address → Stands heights base code d address h := by
    rintro l address huses rfl haddress
    have hused : l ∈ usedLabels code :=
      List.mem_filterMap.mpr ⟨instr, List.mem_of_getElem? hinstr, huses⟩
    exact hbalanced.stands_label hwf hplaced hend hused haddress
  obtain ⟨u, hu, hnext⟩ := next_of_level hinstr hlevel
  generalize hrest : code.drop (k + 1) = rest at hnext
  cases hnext with
  | move hmove htrack =>
    rw [← hrest] at htrack
    exact hgo ⟨u, hu, htrack⟩ (Machine.execute_goesOn p hmove _ _ _ hrun)
      (Machine.execute_adds p hmove _ _ _ hrun)
  | label htrack =>
    obtain ⟨rfl, rfl⟩ := EStateM.Result.ok.inj hrun
    rw [← hrest, ← UInt32.add_zero h] at htrack
    exact hgo ⟨u, hu, htrack⟩ rfl (.refl _)
  | branch hbranches hheight htrack =>
    obtain ⟨hnop, hdrop, hle⟩ := getElem_of_drop hrest
    obtain ⟨hsame, hnext⟩ := Machine.execute_branch hbranches hrun
    refine hslot hnop hsame ?_
    rcases hnext with rfl | ⟨address, haddress, rfl⟩
    · rw [← hdrop] at htrack
      exact .of_level (k := k + 2) hend hle ⟨u, hu, htrack⟩
    · refine hland ?_ hheight haddress
      cases instr with
      | branch | branchZero =>
        obtain rfl := hbranches
        rfl
      | _ => exact hbranches.elim
  | jump hheight =>
    obtain ⟨hnop, -, -⟩ := getElem_of_drop hrest
    obtain ⟨hsame, address, haddress, rfl⟩ := Machine.execute_j hrun
    exact hslot hnop hsame (hland rfl hheight haddress)
  | call hcall' =>
    rw [hcall'] at hcall
    cases hcall
  | stop => cases hcall

/-- The machine that a call enters a routine with, past a delay slot that does nothing. -/
theorem Machine.call_enters (hfits : p.code.size ≤ codeLimit) {k : Nat} {instr : Instr} {entry t : Machine}
    (hpc : m.pc = codeAddress k) (hnpc : m.npc = m.pc + 4) (hinstr : p.code[k]? = some instr)
    (hcall : instr.isCall = true) (hnop : p.code[k + 1]? = some .nop) (hfirst : Machine.cycle p m = .ok () t)
    (hsecond : Machine.cycle p t = .ok () entry) :
    (∀ r, r ≠ .ra → entry.reg r = m.reg r) ∧ entry.store = m.store ∧ entry.reg .ra = codeAddress (k + 2) ∧
      ∀ s, instr = .jal s → p.resolve s = .ok entry.pc := by
  obtain ⟨next, u, hrun, rfl⟩ := Machine.cycle_ok hfits hpc hinstr hfirst
  obtain ⟨address, rfl, rfl, hresolve⟩ := Machine.execute_call hcall hrun
  -- the delay slot lies behind the call
  have hslot : ((m.fetched k).setReg .ra (m.pc + 8)).npc = codeAddress (k + 1) := by
    rw [Machine.setReg_npc, Machine.fetched_npc, hnpc, hpc, codeAddress_succ]
  obtain ⟨next, v, hrun', rfl⟩ := Machine.cycle_ok hfits hslot hnop hsecond
  obtain ⟨rfl, rfl⟩ := EStateM.Result.ok.inj hrun'
  refine ⟨fun r hr => ?_, ?_, ?_, hresolve⟩
  · exact Machine.reg_setReg_of_ne _ _ hr
  · exact Machine.setReg_store _ _ _
  · have hreturn := Machine.reg_setReg_self (m.fetched k) (m.pc + 8) (r := .ra) (by decide)
    have hplace : m.pc + 8 = codeAddress (k + 2) := by
      rw [hpc, show (8 : UInt32) = 4 + 4 from rfl, ← UInt32.add_assoc, codeAddress_succ, codeAddress_succ]
    exact hreturn.trans hplace

theorem enters_ok (hwf : p.WellFormed) (hplaced : Placed p base code) {k : Nat} {instr : Instr}
    {entry : Machine} (hinstr : code[k]? = some instr) (hcall : instr.isCall = true)
    (hnop : code[k + 1]? = some .nop) (hnpc : m.npc = m.pc + 4)
    (henters : Enters p base code k m entry) :
    entry.reg .sp = m.reg .sp ∧ entry.reg .fp = m.reg .fp ∧
      entry.reg .ra = codeAddress (base + (k + 2)) ∧
      ∀ s, instr = .jal s → p.resolve s = .ok entry.pc := by
  obtain ⟨t, hfirst, hsecond⟩ := henters.cycles
  obtain ⟨hregs, -, hra, hresolve⟩ := Machine.call_enters hwf.fits henters.pc hnpc (hplaced.fetch k instr hinstr) hcall
    (hplaced.fetch (k + 1) .nop hnop) hfirst hsecond
  exact ⟨hregs .sp (by decide), hregs .fp (by decide), hra, hresolve⟩

/-- A call enters its routine at the distance of the call, and the routine never returns or goes back to a
place of that distance. -/
theorem follows_call (hwf : p.WellFormed) (hplaced : Placed p base code)
    (hend : base + code.length ≤ codeLimit) {h : UInt32} (hon : OnTrack heights base code d m h) {k : Nat}
    {entry : Machine} (henters : Enters p base code k m entry) :
    entry.reg .sp = m.reg .sp ∧ entry.reg .fp = m.reg .fp ∧
      ((∃ intrinsic, intrinsic.neverReturns = true ∧ Intrinsic.atAddress? entry.pc = some intrinsic) ∨
        Stands heights base code d (entry.reg .ra) h) := by
  obtain ⟨instr, hinstr, hcall⟩ := henters.instr
  have hk : k < code.length := (List.getElem?_eq_some_iff.mp hinstr).1
  cases hon with
  | inSlot hpc hnop hstands =>
    rename_i j
    have hj : j < code.length := (List.getElem?_eq_some_iff.mp hnop).1
    obtain rfl := index_inj hend hj hk (hpc.symm.trans henters.pc)
    obtain rfl := Option.some.inj (hnop.symm.trans hinstr)
    cases hcall
  | inOrder hnpc hstands =>
    obtain ⟨t, ht, hnext⟩ := next_of_level hinstr (hstands.level hend henters.pc hk)
    generalize hrest : code.drop (k + 1) = rest at hnext
    cases hnext with
    | move hmove =>
      cases instr with
      | jal | jalr => cases hmove
      | _ => cases hcall
    | label => cases hcall
    | branch hbranches =>
      cases instr with
      | jal | jalr => exact hbranches.elim
      | _ => cases hcall
    | jump => cases hcall
    | call _ htrack =>
      obtain ⟨hnop, hdrop, hle⟩ := getElem_of_drop hrest
      obtain ⟨hsp, hfp, hra, -⟩ := enters_ok hwf hplaced hinstr hcall hnop hnpc henters
      rw [← hdrop] at htrack
      refine ⟨hsp, hfp, .inr ?_⟩
      rw [hra]
      exact .of_level (k := k + 2) hend hle ⟨t, ht, htrack⟩
    | stop hnever =>
      obtain ⟨hnop, -, -⟩ := getElem_of_drop hrest
      obtain ⟨hsp, hfp, -, hresolve⟩ := enters_ok hwf hplaced hinstr hcall hnop hnpc henters
      obtain ⟨address, haddress, hat⟩ := hwf.intrinsics _
      obtain rfl := Except.ok.inj (haddress.symm.trans (hresolve _ rfl))
      exact ⟨hsp, hfp, .inl ⟨_, hnever, hat⟩⟩

theorem follows_step (hwf : p.WellFormed) (hplaced : Placed p base code)
    (hend : base + code.length ≤ codeLimit) (hbalanced : Balanced heights code d)
    (hfollows : Follows heights base code d m₀ m) (hstep : TemplateStep p base code m m') :
    Follows heights base code d m₀ m' := by
  obtain ⟨h, hsp, hfp, hon⟩ := hfollows
  cases hstep with
  | cycle hpc hinstr hcall hcycle =>
    rename_i k instr
    have hk : k < code.length := (List.getElem?_eq_some_iff.mp hinstr).1
    cases hon with
    | inOrder hnpc hstands =>
      exact follows_cycle hwf hplaced hend hbalanced hpc hinstr hcall hsp hfp hnpc
        (hstands.level hend hpc hk) hcycle
    | inSlot hpc' hnop hstands =>
      rename_i j
      obtain ⟨next, t, hrun, rfl⟩ := Machine.cycle_ok hwf.fits hpc' (hplaced.fetch j .nop hnop) hcycle
      obtain ⟨rfl, rfl⟩ := EStateM.Result.ok.inj hrun
      exact ⟨h, hsp, hfp, .inOrder rfl hstands⟩
  | intrinsic henters hintrinsic hcycle =>
    obtain ⟨hsp', hfp', hreturn⟩ := follows_call hwf hplaced hend hon henters
    rw [Machine.cycle_intrinsic hintrinsic] at hcycle
    rcases hreturn with ⟨intrinsic, hnever, hat⟩ | hstands
    · obtain rfl := Option.some.inj (hintrinsic.symm.trans hat)
      exact absurd hcycle (Machine.callIntrinsic_stops hnever)
    · obtain ⟨hsp'', hfp'', hpc, hnpc⟩ := Machine.callIntrinsic_ok hcycle
      refine ⟨h, by rw [hsp'', hsp', hsp], by rw [hfp'', hfp', hfp], .inOrder ?_ ?_⟩
      · rw [hnpc, hpc]
      · rwa [hpc]
  | method henters hmethod hsp'' hfp'' hpc hnpc =>
    obtain ⟨hsp', hfp', hreturn⟩ := follows_call hwf hplaced hend hon henters
    rcases hreturn with ⟨intrinsic, hnever, hat⟩ | hstands
    · rw [hat] at hmethod
      cases hmethod
    · refine ⟨h, by rw [hsp'', hsp', hsp], by rw [hfp'', hfp', hfp], .inOrder ?_ ?_⟩
      · rw [hnpc, hpc]
      · rwa [hpc]

theorem follows_path (hwf : p.WellFormed) (hplaced : Placed p base code)
    (hend : base + code.length ≤ codeLimit) (hbalanced : Balanced heights code d)
    (hstart : m.pc = codeAddress base) (hnpc : m.npc = m.pc + 4)
    (hpath : Relation.ReflTransGen (TemplateStep p base code) m m') :
    Follows heights base code d m m' := by
  induction hpath with
  | refl =>
    refine ⟨0, (UInt32.add_zero _).symm, rfl, .inOrder hnpc ?_⟩
    rw [hstart]
    exact hbalanced.stands_start hend
  | tail _ hstep ih => exact follows_step hwf hplaced hend hbalanced ih hstep

/-- Every path through `code`, wherever it is placed, from its first instruction to an address outside
of it adds `d` to the stack pointer and leaves the frame pointer alone. -/
def PathsAdd (code : List Instr) (d : UInt32) : Prop :=
  ∀ (p : Program Instr) (base : Nat) (m m' : Machine), p.WellFormed → Placed p base code →
    base ≤ p.code.size → m.pc = codeAddress base → m.npc = m.pc + 4 →
    Relation.ReflTransGen (TemplateStep p base code) m m' → Outside base code m'.pc →
    m'.reg .sp = m.reg .sp + d ∧ m'.reg .fp = m.reg .fp

theorem pathsAdd_of_balanced (hbalanced : Balanced heights code d) : PathsAdd code d := by
  intro p base m m' hwf hplaced hbase hstart hnpc hpath hleaves
  obtain ⟨h, hsp, hfp, hon⟩ := follows_path hwf hplaced
    ((hplaced.end_le hbase).trans hwf.fits) hbalanced hstart hnpc hpath
  cases hon with
  | inOrder _ hstands =>
    obtain rfl := hstands.eq_of_outside hleaves
    exact ⟨hsp, hfp⟩
  | inSlot hpc hnop =>
    exact absurd hpc (hleaves _ (List.getElem?_eq_some_iff.mp hnop).1)

end Paths

end Stencil.Mips
