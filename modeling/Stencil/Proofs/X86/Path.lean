import Stencil.Proofs.Height.Place
import Stencil.Proofs.X86.Height

/-!
# Paths through an x86 template

A path runs the instructions of a template one after another. The call of a method is one step that
returns with the stack pointer and the frame pointer it was made with; the call of an intrinsic runs
it. Every path that leaves a balanced template leaves it at the distance the template is balanced
for (`pathsAdd_of_balanced`).
-/

namespace Stencil.X86

open AddressMap Stateful

/-- One step inside the template `code` that is placed at `base`. -/
inductive TemplateStep (p : Program Instr) (base : Nat) (code : List Instr) :
    Machine → Machine → Prop
  /-- An instruction runs; if it is a call, then of an intrinsic. -/
  | cycle {m m' : Machine} {k : Nat} {instr : Instr} (hpc : m.pc = codeAddress (base + k))
      (hinstr : code[k]? = some instr)
      (hcall : ∀ target, instr = .call target → ∃ address intrinsic,
        Machine.targetAddress p target m = .ok address m ∧
          Intrinsic.atAddress? address = some intrinsic)
      (hcycle : Machine.cycle p m = .ok () m') : TemplateStep p base code m m'
  /-- A method is called and returns. -/
  | method {m m' : Machine} {k : Nat} {target : Target} {address : UInt32}
      (hpc : m.pc = codeAddress (base + k)) (hinstr : code[k]? = some (.call target))
      (haddress : Machine.targetAddress p target m = .ok address m)
      (hmethod : Intrinsic.atAddress? address = none) (hsp : m'.reg .esp = m.reg .esp)
      (hfp : m'.reg .ebp = m.reg .ebp) (hreturn : m'.pc = codeAddress (base + (k + 1))) :
      TemplateStep p base code m m'

/-- What may stand at the start of tracked code. -/
inductive Next (heights : Label → UInt32) (h : UInt32) (rest : List Instr) (t : Option UInt32) :
    Instr → Prop
  | move {instr : Instr} {e : UInt32} (hmove : instr.moves? = some e)
      (hrest : Track heights (some (h + e)) rest t) : Next heights h rest t instr
  | label {l : Label} (hrest : Track heights (some h) rest t) : Next heights h rest t (.label l)
  | branch {cond : Cond} {l : Label} (hheight : heights l = h)
      (hrest : Track heights (some h) rest t) : Next heights h rest t (.jcc cond l)
  | jump {l : Label} (hheight : heights l = h) : Next heights h rest t (.jmp (.label l))
  | call {target : Target} (hrest : Track heights (some h) rest t) :
      Next heights h rest t (.call target)
  | stop {instr : Instr} (hstops : instr.stops) : Next heights h rest t instr

theorem next_of_track {heights : Label → UInt32} {h : UInt32} {instr : Instr} {rest : List Instr}
    {t : Option UInt32} (htrack : Track heights (some h) (instr :: rest) t) :
    Next heights h rest t instr := by
  generalize hcode : instr :: rest = code at htrack
  cases htrack with
  | nil => cases hcode
  | move hmove hrest =>
    cases hcode
    exact .move hmove hrest
  | label hlabel _ hrest =>
    cases hcode
    cases instr <;> first | exact .label hrest | cases hlabel
  | branch hbranch hheight hrest =>
    obtain ⟨cond, rfl⟩ := hbranch
    cases hcode
    exact .branch hheight hrest
  | jump hjump hheight =>
    obtain rfl := hjump
    cases hcode
    exact .jump hheight
  | call hcall hrest =>
    obtain ⟨target, rfl, -⟩ := hcall
    cases hcode
    exact .call hrest
  | stop hstop =>
    obtain ⟨instr, rfl, hstops⟩ := hstop
    cases hcode
    exact .stop hstops

namespace Machine

variable {p : Program Instr}

theorem targetAddress_fetched {target : Target} {m : Machine} {address : UInt32} (k : Nat)
    (h : targetAddress p target m = .ok address m) :
    targetAddress p target (m.fetched k) = .ok address (m.fetched k) := by
  have hlift : ∀ x : Except Fault UInt32, lift x m = .ok address m →
      lift x (m.fetched k) = .ok address (m.fetched k) := by
    intro x hx
    cases x with
    | ok a =>
      cases hx
      rfl
    | error fault => cases hx
  cases target with
  | label l => exact hlift _ h
  | symbol s => exact hlift _ h
  | reg r =>
    obtain ⟨rfl, -⟩ := EStateM.Result.ok.inj h
    rfl

/-- An intrinsic moves neither the stack pointer nor the frame pointer. -/
theorem call_intrinsic_moved {site next address : UInt32} {target : Target} {m m' : Machine}
    {intrinsic : Intrinsic} (haddress : targetAddress p target m = .ok address m)
    (hintrinsic : Intrinsic.atAddress? address = some intrinsic)
    (h : call p site next target m = .ok () m') : Moved 0 m m' := by
  unfold call at h
  rw [bind_of_ok haddress, hintrinsic] at h
  refine Adds.after (get_adds .esp) (fun sp => ?_) m () m' h
  refine Adds.after (onStore_adds _) fun value => ?_
  cases value with
  | none => exact .pure _
  | some value => exact put_adds rfl value

theorem execute_stops (hwf : p.WellFormed) {site : UInt32} {instr : Instr} {m m' : Machine}
    (hstops : instr.stops) : execute p site instr m ≠ .ok () m' := by
  intro h
  unfold Instr.stops at hstops
  split at hstops
  · obtain ⟨intrinsic, hnever, rfl⟩ := hstops
    obtain ⟨address, hresolve, hat⟩ := hwf.intrinsics intrinsic
    simp only [execute, call, targetAddress, hresolve, lift, bind_apply, pure_apply, hat, get] at h
    cases hstore : onStore (p.runIntrinsic intrinsic (m.reg .esp) site) m with
    | ok value m'' =>
      unfold onStore at hstore
      dsimp only at hstore
      split at hstore
      · rename_i hrun
        exact p.runIntrinsic_stops hnever hrun
      · cases hstore
    | error fault m'' =>
      rw [hstore] at h
      cases h
  · exact hstops

theorem execute_jcc {site : UInt32} {cond : Cond} {l : Label} {m m' : Machine}
    (h : execute p site (.jcc cond l) m = .ok () m') :
    m' = m ∨ ∃ address, p.labelAddress l = .ok address ∧ m' = { m with pc := address } := by
  simp only [execute, bind_apply, estate_get_apply] at h
  split at h
  · cases haddress : p.labelAddress l with
    | error fault => simp [haddress, lift, bind_apply] at h
    | ok address =>
      simp only [haddress, lift, bind_apply, pure_apply, goto] at h
      exact .inr ⟨address, rfl, (EStateM.Result.ok.inj h).2.symm⟩
  · exact .inl (EStateM.Result.ok.inj h).2.symm

theorem execute_jmp_label {site : UInt32} {l : Label} {m m' : Machine}
    (h : execute p site (.jmp (.label l)) m = .ok () m') :
    ∃ address, p.labelAddress l = .ok address ∧ m' = { m with pc := address } := by
  simp only [execute, targetAddress, bind_apply] at h
  cases haddress : p.labelAddress l with
  | error fault => simp [haddress, lift] at h
  | ok address =>
    simp only [haddress, lift, pure_apply, goto] at h
    exact ⟨address, rfl, (EStateM.Result.ok.inj h).2.symm⟩

end Machine

/-! ## Paths -/

section Paths

variable {p : Program Instr} {base : Nat} {code : List Instr} {heights : Label → UInt32}
  {d : UInt32} {m₀ m m' : Machine}

/-- What holds on a path that started with the machine `m₀`. -/
def Follows (heights : Label → UInt32) (base : Nat) (code : List Instr) (d : UInt32)
    (m₀ m : Machine) : Prop :=
  ∃ h, m.reg .esp = m₀.reg .esp + h ∧ m.reg .ebp = m₀.reg .ebp ∧
    Stands heights base code d m.pc h

theorem follows_execute (hwf : p.WellFormed) (hplaced : Placed p base code)
    (hend : base + code.length ≤ codeLimit) (hbalanced : Balanced heights code d) {k : Nat}
    {instr : Instr} {h : UInt32} (hinstr : code[k]? = some instr)
    (hcall : ∀ target, instr = .call target → ∃ address intrinsic,
      Machine.targetAddress p target m = .ok address m ∧
        Intrinsic.atAddress? address = some intrinsic)
    (hsp : m.reg .esp = m₀.reg .esp + h) (hfp : m.reg .ebp = m₀.reg .ebp)
    (hlevel : Level heights code d k h)
    (hrun : Machine.execute p (codeAddress (base + k)) instr (m.fetched (base + k)) = .ok () m') :
    Follows heights base code d m₀ m' := by
  have hk : k < code.length := (List.getElem?_eq_some_iff.mp hinstr).1
  have hdrop : code.drop k = instr :: code.drop (k + 1) := by
    rw [List.drop_eq_getElem_cons hk, (List.getElem?_eq_some_iff.mp hinstr).2]
  obtain ⟨t, ht, htrack⟩ := hlevel
  rw [hdrop] at htrack
  -- going on to the next instruction at the distance `h + e`
  have hgo : ∀ {e : UInt32}, Track heights (some (h + e)) (code.drop (k + 1)) t →
      Moved e (m.fetched (base + k)) m' → Follows heights base code d m₀ m' := by
    intro e hrest hmoved
    obtain ⟨hsp', hfp', hpc'⟩ := Machine.moved_iff.mp hmoved
    refine ⟨h + e, ?_, ?_, ?_⟩
    · rw [hsp', Machine.fetched_reg, hsp, UInt32.add_assoc]
    · rw [hfp', Machine.fetched_reg, hfp]
    · rw [hpc', Machine.fetched_pc]
      exact .of_level (k := k + 1) hend hk ⟨t, ht, hrest⟩
  have hgo_zero : Track heights (some h) (code.drop (k + 1)) t →
      Moved 0 (m.fetched (base + k)) m' → Follows heights base code d m₀ m' := by
    intro hrest
    rw [← UInt32.add_zero h] at hrest
    exact hgo hrest
  -- going to a label that the instruction uses
  have hland : ∀ {l : Label} {address : UInt32}, LabelUse.uses? instr = some l → heights l = h →
      p.labelAddress l = .ok address →
      Follows heights base code d m₀ { m.fetched (base + k) with pc := address } := by
    rintro l address huses rfl haddress
    have hused : l ∈ usedLabels code :=
      List.mem_filterMap.mpr ⟨instr, List.mem_of_getElem? hinstr, huses⟩
    exact ⟨heights l, hsp, hfp, hbalanced.stands_label hwf hplaced hend hused haddress⟩
  cases next_of_track htrack with
  | move hmove hrest => exact hgo hrest (Machine.execute_adds p hmove _ _ _ hrun)
  | label hrest =>
    obtain ⟨-, rfl⟩ := EStateM.Result.ok.inj hrun
    exact hgo_zero hrest (.refl _)
  | branch hheight hrest =>
    rcases Machine.execute_jcc hrun with rfl | ⟨address, haddress, rfl⟩
    · exact hgo_zero hrest (.refl _)
    · exact hland rfl hheight haddress
  | jump hheight =>
    obtain ⟨address, haddress, rfl⟩ := Machine.execute_jmp_label hrun
    exact hland rfl hheight haddress
  | call hrest =>
    obtain ⟨address, intrinsic, haddress, hintrinsic⟩ := hcall _ rfl
    exact hgo_zero hrest
      (Machine.call_intrinsic_moved (Machine.targetAddress_fetched _ haddress) hintrinsic hrun)
  | stop hstops => exact absurd hrun (Machine.execute_stops hwf hstops)

theorem follows_step (hwf : p.WellFormed) (hplaced : Placed p base code)
    (hend : base + code.length ≤ codeLimit) (hbalanced : Balanced heights code d)
    (hfollows : Follows heights base code d m₀ m) (hstep : TemplateStep p base code m m') :
    Follows heights base code d m₀ m' := by
  obtain ⟨h, hsp, hfp, hstands⟩ := hfollows
  -- a step starts inside, where the distance is tracked
  have hlevel : ∀ {k : Nat} {instr : Instr}, m.pc = codeAddress (base + k) →
      code[k]? = some instr → Level heights code d k h := fun hpc hinstr =>
    hstands.level hend hpc (List.getElem?_eq_some_iff.mp hinstr).1
  cases hstep with
  | cycle hpc hinstr hcall hcycle =>
    rename_i k instr
    rw [Machine.cycle_at hwf.fits hpc (hplaced.fetch k instr hinstr)] at hcycle
    exact follows_execute hwf hplaced hend hbalanced hinstr hcall hsp hfp (hlevel hpc hinstr) hcycle
  | method hpc hinstr haddress hmethod hsp' hfp' hreturn =>
    rename_i k target address
    have hk : k < code.length := (List.getElem?_eq_some_iff.mp hinstr).1
    obtain ⟨t, ht, htrack⟩ := hlevel hpc hinstr
    rw [List.drop_eq_getElem_cons hk, (List.getElem?_eq_some_iff.mp hinstr).2] at htrack
    refine ⟨h, hsp'.trans hsp, hfp'.trans hfp, ?_⟩
    rw [hreturn]
    cases next_of_track htrack with
    | move hmove => cases hmove
    | call hrest => exact .of_level (k := k + 1) hend hk ⟨t, ht, hrest⟩
    | stop hstops =>
      -- what never returns is an intrinsic
      cases target with
      | label l => cases hstops
      | reg r => cases hstops
      | symbol s =>
        obtain ⟨intrinsic, -, rfl⟩ := hstops
        obtain ⟨address', hresolve, hat⟩ := hwf.intrinsics intrinsic
        simp only [Machine.targetAddress, hresolve, Machine.lift, pure_apply] at haddress
        obtain rfl := (EStateM.Result.ok.inj haddress).1
        rw [hat] at hmethod
        cases hmethod

theorem follows_path (hwf : p.WellFormed) (hplaced : Placed p base code)
    (hend : base + code.length ≤ codeLimit) (hbalanced : Balanced heights code d)
    (hstart : m.pc = codeAddress base)
    (hpath : Relation.ReflTransGen (TemplateStep p base code) m m') :
    Follows heights base code d m m' := by
  induction hpath with
  | refl =>
    refine ⟨0, (UInt32.add_zero _).symm, rfl, ?_⟩
    rw [hstart]
    exact hbalanced.stands_start hend
  | tail _ hstep ih => exact follows_step hwf hplaced hend hbalanced ih hstep

/-- Every path through `code`, wherever it is placed, from its first instruction to an address outside
of it adds `d` to the stack pointer and leaves the frame pointer alone. -/
def PathsAdd (code : List Instr) (d : UInt32) : Prop :=
  ∀ (p : Program Instr) (base : Nat) (m m' : Machine), p.WellFormed → Placed p base code →
    base ≤ p.code.size → m.pc = codeAddress base →
    Relation.ReflTransGen (TemplateStep p base code) m m' → Outside base code m'.pc →
    m'.reg .esp = m.reg .esp + d ∧ m'.reg .ebp = m.reg .ebp

theorem pathsAdd_of_balanced (hbalanced : Balanced heights code d) : PathsAdd code d := by
  intro p base m m' hwf hplaced hbase hstart hpath hleaves
  obtain ⟨h, hsp, hfp, hstands⟩ := follows_path hwf hplaced
    ((hplaced.end_le hbase).trans hwf.fits) hbalanced hstart hpath
  obtain rfl := hstands.eq_of_outside hleaves
  exact ⟨hsp, hfp⟩

end Paths

end Stencil.X86
