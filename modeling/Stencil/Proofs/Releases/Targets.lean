import Stencil.Proofs.Dispatch.Targets
import Stencil.Proofs.Execution.Path
import Stencil.Proofs.Objects.Targets
import Stencil.Proofs.Machine.Released
import Stencil.Proofs.Running.Targets
import Stencil.Proofs.Symbols.Targets
import Stencil.Proofs.Walk.Allocations
import Stencil.Proofs.X86.Releases

/-!
# Releases on both targets

The template of a pop mentions the intrinsic that releases where the simulation takes the item for fresh,
and no other template does. Such an item was pushed by an allocation on the way that the walk took, and
nothing has touched it since (`standsInFreshPop_of_mentions`). All that linked code releases is dropped by
pops, and each of these pops drops an allocation on the way that the walk took through the method. Where ways
meet the walk compares the sizes and the kinds of items but not whether they are fresh, so on another way the
word that such a pop drops, and releases, may be an argument of the method.
-/

namespace Stencil

open AddressMap Compile Invocation Link Meaning Stateful

/-! ## Where releases stand -/

section Releases

variable {I : Type} [TargetInstr I] {backend : Backend I} {tables : Table} {options : Options}
  {body : MethodBody} {m : CompiledMethod I}

/-- The span of a pop that drops an allocation: on the way that the walk took, nothing has touched the item
since it was pushed. -/
structure FreshPop (c : Compilation backend tables options body m) (span : Span) : Prop where
  op : span.op.operation = .pop
  delivered : ∃ j item below, m.spans[j]? = some span ∧ span.effect.popped = [item] ∧
    Delivered c.env c.marked item below j []

theorem pop_exchange {env : SimEnv} {i : Instruction} {stack stack' : OperandStack} {e : Effect}
    (hop : i.op.operation = .pop) (h : simulate env i stack = .ok e stack') :
    ∃ item below, e.popped = [item] ∧ stack = item :: below := by
  have hsizes := (simulate_exchange h).sizes
  rw [hop] at hsizes
  obtain ⟨item, below, hstack, hpopped, -⟩ := hsizes
  exact ⟨item, below, hpopped, hstack⟩

/-- Where the template of a pop releases the item, the item is an allocation that nothing has touched. -/
theorem Compilation.freshPop (c : Compilation backend tables options body m) {j : Nat} {i : Instruction}
    {span : Span} (hspans : c.Spans j i span) (hspanOp : span.op = i.op)
    (hop : i.op.operation = .pop) (hfresh : (span.effect.operand 0).isNew = true) : FreshPop c span := by
  have hi := hspans.marked
  obtain ⟨step, hstep, heffect⟩ := hspans.effect
  obtain ⟨targets, step', w, u, w', hvisit⟩ := Walk.visit_of_getElem? c.rewalked hi
  obtain rfl : step' = step := Option.some.inj (hvisit.reported.symm.trans hstep)
  have hcarried := hvisit.carried hi
  obtain ⟨item, below, hpopped, hstack⟩ := pop_exchange hop hvisit.stepped.simulate
  have hitem : item.isNew = true := by
    rw [heffect, Effect.operand, hpopped] at hfresh
    exact hfresh
  exact ⟨hspanOp ▸ hop, j, item, below, hspans.placed, heffect ▸ hpopped, hcarried.delivered hstack hitem⟩

/-- The instruction at this index of a linked program stands in the template of a pop that drops an
allocation. -/
def StandsInFreshPop (backend : Backend I) (tables : Table) (options : Options)
    (methods : List (CompiledMethod I)) (index : Nat) : Prop :=
  ∃ base m, (base, m) ∈ placeMethods 0 methods ∧ ∃ (body : MethodBody)
    (c : Compilation backend tables options body m) (span : Span), FreshPop c span ∧
      base + span.start ≤ index ∧ index < base + span.stop

/-- No descriptor has the symbol of an intrinsic. -/
structure Table.PlainSymbols (t : Table) : Prop where
  distinct : t.DistinctSymbols
  fields : ∀ field ∈ t.fields, ∀ intrinsic : Intrinsic, field.symbol ≠ intrinsic.symbol

/-- Of all that a template may mention, only the intrinsic itself has its symbol. -/
theorem mentionable_release {ctx : EmitContext} {i : Instruction} {e : Effect} (hplain : ctx.tables.PlainSymbols)
    (h : Mentionable ctx i e Intrinsic.release.symbol) : i.op.operation = .pop ∧ (e.operand 0).isNew = true := by
  rcases mentionable_intrinsic hplain.distinct h with ⟨-, hrelease⟩ | ⟨field, hfield, hsymbol, -⟩
  · exact hrelease rfl
  · obtain ⟨id, -, hid⟩ := resolveField_ok hfield
    exact absurd hsymbol (hplain.fields _ (mem_values.mpr ⟨_, hid⟩) .release)

variable [RaiseCode I] {methods : List (CompiledMethod I)} {config : RunConfig} {p : Program I}

/-- An instruction that mentions the intrinsic stands in the template of a pop that drops an allocation. -/
theorem standsInFreshPop_of_mentions (hbackend : backend.MentionsTemplates)
    (hcompiled : ∀ m ∈ methods, ∃ body, compileMethod backend tables options body = .ok m)
    (hlinked : Linked methods tables options config p) (hplain : tables.PlainSymbols) {k : Nat} {instr : I}
    (hinstr : p.code[k]? = some instr) (hmentions : Intrinsic.release.symbol ∈ TargetInstr.symbols instr) :
    StandsInFreshPop backend tables options methods k := by
  obtain ⟨base, span, hspan, hk⟩ := exists_spanAt hcompiled hlinked (Array.getElem?_eq_some_iff.mp hinstr).1
  obtain ⟨body, m, c, j, i, hplaced, hspans, hselects⟩ := hspan.selects hcompiled hlinked
  have hmentionable : Mentionable c.ctx i span.effect Intrinsic.release.symbol := by
    refine (hselects.mentions hbackend hk hinstr hmentions).resolve_right ?_
    rintro ⟨intrinsic, hraisable, hsymbol, -⟩
    obtain rfl := Intrinsic.symbol_inj hsymbol
    exact hraisable
  obtain ⟨hpop, hfresh⟩ := mentionable_release hplain hmentionable
  exact ⟨base, m, hplaced, body, c, span, c.freshPop hspans hselects.op hpop hfresh, hk⟩

end Releases

/-! ## What runs release -/

/-- An invocation of a program that is linked from methods of the table releases nothing but what pops of
allocations drop, once for each time that one of them is run, unless control gets to the intrinsic by a
pointer. -/
def ReleasesInFreshPops {I M : Type} [TargetInstr I] (backend : Backend I) (machine : MachineOps I M)
    (passes : Program I → Symbol → List StackValue → UInt32 → M → M → Prop)
    (forges : Program I → M → Prop) (tables : Table) (options : Options) : Prop :=
  ∀ {methods config p linked}, tables.PlainSymbols →
    (∀ m ∈ methods, ∃ body, compileMethod backend tables options body = .ok m) →
    link methods tables options config = .ok (p, linked) → p.code.size ≤ codeLimit →
    ∀ {entry}, entry ≠ Intrinsic.release.symbol → ∀ args returnBytes before,
      (∀ t, passes p entry args returnBytes before t → ¬forges p t) →
      let after := stateAfter (machine.invoke p entry args returnBytes) before
      ReleasedBy (StandsInFreshPop backend tables options methods) (machine.store before).released
        (machine.store after).released (machine.trace after).toList

section Linked

variable {I : Type} [TargetInstr I] [RaiseCode I] {backend : Backend I} {tables : Table} {options : Options}
  {methods : List (CompiledMethod I)} {config : RunConfig} {p : Program I} {linked : Store}

/-- Where an instruction of a linked program mentions a symbol that leads to the intrinsic, it stands in the
template of a pop of an allocation. -/
theorem standsInFreshPop_of_resolves (hbackend : backend.MentionsTemplates) (hplain : tables.PlainSymbols)
    (hcompiled : ∀ m ∈ methods, ∃ body, compileMethod backend tables options body = .ok m)
    (hlink : link methods tables options config = .ok (p, linked)) (hfits : p.code.size ≤ codeLimit) {k : Nat}
    {instr : I} {s : Symbol} {a : UInt32} (hinstr : p.code[k]? = some instr)
    (hmentions : s ∈ TargetInstr.symbols instr) (hresolve : p.resolve s = .ok a)
    (hat : Intrinsic.atAddress? a = some .release) : StandsInFreshPop backend tables options methods k := by
  have hlinked := link_ok hlink
  obtain rfl := hlinked.symbol_of_intrinsicAddress hfits hresolve hat (by decide)
  exact standsInFreshPop_of_mentions hbackend hcompiled hlinked hplain hinstr hmentions

end Linked

/-- On both targets only pops that drop an allocation, on the way that the walk took, release anything. -/
theorem releases_stand_in_fresh_pops (tables : Table) (options : Options) :
    ReleasesInFreshPops X86.backend X86.Machine.ops X86.Machine.PassesThrough X86.Machine.ForgesRelease
      tables options ∧
    ReleasesInFreshPops Mips.backend Mips.Machine.ops Mips.Machine.PassesThrough Mips.Machine.ForgesRelease
      tables options := by
  constructor
  · intro methods config p linked hplain hcompiled hlink hfits entry _ args returnBytes before hunforged
    have hwf := wellFormed_of_link hlink hcompiled hplain.distinct hfits
    refine X86.Machine.invoke_releases hwf (fun k s a hinstr hresolve hat => ?_) entry args returnBytes hunforged
    exact standsInFreshPop_of_resolves X86.backend_mentionsTemplates hplain hcompiled hlink hfits hinstr
      (List.mem_singleton_self s) hresolve hat
  · intro methods config p linked hplain hcompiled hlink hfits entry hentry args returnBytes before
      hunforged
    have hwf := wellFormed_of_link hlink hcompiled hplain.distinct hfits
    refine Mips.Machine.invoke_releases hwf (fun k s a hinstr hresolve hat => ?_) (fun a hresolve hat => ?_) args
      returnBytes hunforged
    · exact standsInFreshPop_of_resolves Mips.backend_mentionsTemplates hplain hcompiled hlink hfits hinstr
        (List.mem_singleton_self s) hresolve hat
    · exact hentry ((link_ok hlink).symbol_of_intrinsicAddress hfits hresolve hat (by decide))

/-! ## An argument and an allocation that meet -/

section Join

def boxInit : MethodDescriptor := (MethodDescriptor.ofName ⟨1, Nat.one_pos⟩ boxType.id "init").asConstructor

/-- Takes a number and a box. -/
def joinMethod : MethodDescriptor :=
  { MethodDescriptor.ofName ⟨2, Nat.two_pos⟩ boxType.id "drop" with params := [1, 2] }

def joinTable : Table :=
  (((Table.addType {} (.primitive 1 "Int32" 4 true)).addType boxType).addMethod boxInit).addMethod joinMethod

def joinHeld : Instruction := .placed 0 .ldarg1 []

def joinFlag : Instruction := .placed 1 .ldarg0 []

def joinBranch : Instruction := .placed 2 .brtrueS [6]

def joinCreate : Instruction := { Instruction.placed 5 .newobj [0, 0, 0, 0] with methodRef := some boxInit.id }

def joinPop : Instruction := .placed 10 .pop []

/-- The box that was passed goes to the pop if the number is not zero, a new box otherwise. -/
def joinBody : MethodBody where
  method := joinMethod.id
  instructions :=
    [joinHeld, joinFlag, joinBranch, .placed 4 .pop [], joinCreate, joinPop, .placed 11 .ret []]

def joinFrame : Frame where
  args := [⟨12, .int32⟩, ⟨8, .reference 4⟩]
  locals := []
  returnItem := none
  argBytes := 8
  localBytes := 0

variable {I : Type} [TargetInstr I]

def joinContext (backend : Backend I) : EmitContext :=
  { tables := joinTable, options := {}, policy := backend.defaultPolicy, frame := joinFrame,
    method := joinMethod, endPosition := 12 }

/-- On the way over the creation the item is fresh. -/
def joinPopEffect : Effect := { popped := [.newObject 4] }

/-- What the body is compiled to, up to the pop. -/
def joinCode (backend : Backend I) : List I :=
  let ctx := joinContext backend
  (backend.emit ctx (.pseudo 0 .methodStart) {}).code ++
    ((backend.emit ctx joinHeld { pushed := [.reference 4] }).code ++
    ((backend.emit ctx joinFlag { pushed := [.int32] }).code ++
    ((backend.emit ctx joinBranch { popped := [.int32] }).code ++
    ((backend.emit ctx (.placed 4 .pop []) { popped := [.reference 4] }).code ++
    ((backend.emit ctx joinCreate { pushed := [.newObject 4] }).code ++
    labelled ctx { joinPop with labelRequired := true } (backend.emit ctx joinPop joinPopEffect).code)))))

/-- What the body is compiled to can be linked, and its first instructions are emitted. -/
structure JoinFits [DecidableEq I] (backend : Backend I) : Prop where
  compiles : compilesAt backend joinTable joinBody (joinCode backend) 0 = true
  held : (backend.emit (joinContext backend) joinHeld { pushed := [.reference 4] }).failure = none
  flag : (backend.emit (joinContext backend) joinFlag { pushed := [.int32] }).failure = none

theorem x86_joinFits : JoinFits X86.backend where
  compiles := by decide +kernel
  held := by decide
  flag := by decide

theorem mips_joinFits : JoinFits Mips.backend where
  compiles := by decide +kernel
  held := by decide
  flag := by decide

theorem joinTable_plain : joinTable.PlainSymbols where
  distinct := ⟨by decide, fun intrinsic => by cases intrinsic <;> decide⟩
  fields := fun _ hfield => absurd hfield (show _ ∉ ([] : List FieldDescriptor) from List.not_mem_nil)

def joinWords (w : UInt32) : List UInt32 := invokedWords 0 [] [.word 1, .word w]

theorem joinHeld_lies (w : UInt32) :
    Lies (joinWords w) (stackPointer (joinWords w)) 8 [0, returnSentinel] [w] [1] where
  words := rfl
  address := stackPointer_append [0, returnSentinel] [w, 1]

theorem joinFlag_lies (w : UInt32) :
    Lies (joinWords w) (stackPointer (joinWords w)) 12 [0, returnSentinel, w] [1] [] where
  words := rfl
  address := stackPointer_append [0, returnSentinel, w] [1]

variable {R M : Type} [LabelUse I] [Semantics I R M] [DecidableEq I] {backend : Backend I}

theorem JoinFits.reaches_pop (h : JoinFits backend) (hmoves : MovesValues backend) (hints : ComputesIntegers backend)
    {p : Program I} (hfits : p.code.size ≤ codeLimit) (hplaced : Placed p 0 (joinCode backend)) {m : M}
    {w : UInt32} (hm : Poised I m (0 + (backend.emit (joinContext backend) (.pseudo 0 .methodStart) {}).code.length)
      (joinWords w) (stackPointer (joinWords w))) :
    ∃ k, Placed p k (backend.emit (joinContext backend) joinPop joinPopEffect).code ∧
      Reaches (Semantics.cycle p) m fun t => Poised I t k (w :: joinWords w) (stackPointer (joinWords w)) := by
  let ctx := joinContext backend
  let words := joinWords w
  have hstart := hplaced.back
  have hmiddle := hstart.back.back
  -- the label stands in front of the pop
  have hend : Placed p _ ([TargetInstr.label (ctx.labelAt 10)] ++ (backend.emit ctx joinPop joinPopEffect).code) :=
    hmiddle.back.back.back
  have hlabel := hend.labels 0 _ _ rfl (LabelUse.asLabel?_label _)
  have hheld : Passes backend ctx joinHeld _ _ _ _ _ := hmoves.load true rfl h.held rfl rfl (joinHeld_lies w)
    (show 1 + 4 ≤ stackCapacity by decide)
  have hflag : Passes backend ctx joinFlag _ _ _ _ _ :=
    hmoves.load true rfl h.flag rfl rfl ((joinFlag_lies w).below [w]) (show 1 + 5 ≤ stackCapacity by decide)
  have htrades : Trades backend ctx joinBranch { popped := [.int32] } [1] (.goto (ctx.labelAt 10)) [] :=
    hints.branchZero false rfl rfl rfl rfl rfl
  have hbranch := htrades.passes (stackPointer (joinWords w)) (w :: joinWords w)
  refine ⟨_, hend.back, ?_⟩
  refine (hheld.reaches hfits hstart.front (fun l hl => by cases hl) hm).trans fun m₁ ⟨_, rfl, h₁⟩ => ?_
  refine (hflag.reaches hfits hstart.back.front (fun l hl => by cases hl) h₁).trans fun m₂ ⟨_, rfl, h₂⟩ => ?_
  refine (hbranch.reaches hfits hmiddle.front (fun l hl => ⟨_, by cases hl; exact hlabel⟩) h₂).trans
    fun m₃ ⟨k, hk, h₃⟩ => ?_
  obtain rfl : _ = k := Option.some.inj (hlabel.symm.trans hk)
  obtain ⟨v, hstands, hv⟩ := h₃
  obtain ⟨t, hcycles, ht⟩ := Semantics.cycles_of_steps hfits hend.front (Semantics.steps_label _ _) hstands
  exact ⟨_, t, hcycles, v, ht, hv⟩

omit [LabelUse I] in
theorem JoinFits.exists_linked (h : JoinFits backend) : ∃ m p linked,
    compileMethod backend joinTable {} joinBody = .ok m ∧ link [m] joinTable {} {} = .ok (p, linked) ∧
      p.WellFormed ∧ p.resolve m.symbol = .ok (codeAddress 0) ∧ Placed p 0 (joinCode backend) := by
  obtain ⟨m, p, linked, hcompiled, hlink, hfits, hplaced⟩ := exists_linked_of_compilesAt h.compiles
  have hwf : p.WellFormed := wellFormed_of_link hlink (compiled_singleton hcompiled)
    joinTable_plain.distinct hfits.le
  have hsymbol : m.symbol = joinMethod.symbol := symbol_of_compiled hcompiled rfl
  have hvisible : joinMethod.symbol ∉ joinTable.dataSymbols := by decide
  exact ⟨m, p, linked, hcompiled, hlink, hwf, resolve_of_visible hlink (hsymbol ▸ hvisible), hplaced⟩

/-- On MIPS32 the branch leads over the creation, with the box that was passed on the stack. -/
theorem mips_exec_join (w : UInt32) {v : View Mips.Registers} (hv : v.At [w, 1] 0)
    (hback : Mips.get v .ra = returnSentinel) :
    ∃ front v', joinCode Mips.backend =
        front ++ (Mips.backend.emit (joinContext Mips.backend) joinPop joinPopEffect).code ∧
      Exec front v .next v' ∧ v'.At (w :: joinWords w) (stackPointer (joinWords w)) := by
  obtain ⟨v₁, hprologue, hv₁⟩ := Mips.exec_prologue (joinContext Mips.backend) hv hback
    (show 0 / 4 + (2 + 2) ≤ stackCapacity by decide)
  have hheld := Mips.turns_pushSlot (joinHeld_lies w) (show 1 + 4 ≤ stackCapacity by decide)
  have hflag := Mips.turns_pushSlot ((joinFlag_lies w).below [w]) (show 1 + 5 ≤ stackCapacity by decide)
  have hbranch := @Mips.turns_branchZero (w :: joinWords w) (stackPointer (joinWords w)) false
    ((joinContext Mips.backend).labelAt 10) [1] rfl
  obtain ⟨v', hexec, hv'⟩ := (hheld.append (hflag.append hbranch)) v₁ hv₁
  let skipped := (Mips.backend.emit (joinContext Mips.backend) (.placed 4 .pop []) { popped := [.reference 4] }).code ++
    (Mips.backend.emit (joinContext Mips.backend) joinCreate { pushed := [.newObject 4] }).code
  refine ⟨_, v', ?_, (hprologue.append hexec).land skipped .nil, hv'⟩
  rfl

/-- On MIPS32 a run gets from the start of the method to the release of the box, and forges nothing. -/
theorem mips_join_releases {p : Program Mips.Instr} (hwf : p.WellFormed) (hplaced : Placed p 0 (joinCode Mips.backend))
    {w : UInt32} {m : Mips.Machine} {v : View Mips.Registers} (hstands : Mips.Stands m 0 v) (hv : v.At [w, 1] 0)
    (hback : Mips.get v .ra = returnSentinel) :
    Avoids (Mips.Machine.cycle p) (Mips.Machine.ForgesRelease p)
      (fun t => t.store.released = m.store.released.push w) m := by
  obtain ⟨front, v', hcode, hexec, hv'⟩ := mips_exec_join w hv hback
  have hwhole : joinCode Mips.backend = [] ++ (front ++ _) := hcode
  obtain ⟨t, k, hpath, rfl, ht⟩ :=
    (Mips.goesAlong hwf.fits hplaced).exec hplaced hexec hwhole (fun l hl => by cases hl) hstands
  have hdirect : (joinCode Mips.backend).all (!·.jumpsByRegister) = true := by decide
  have hkeeps : ∀ {a b : Mips.Machine}, PlainStep Mips.Machine.pc Mips.Instr.isCall p 0 (joinCode Mips.backend) a b →
      ¬Mips.Machine.ForgesRelease p a ∧ b.store.released = a.store.released := by
    rintro a b ⟨⟨k, instr, hpc, hinstr, -⟩, hcycle⟩
    have hplain := List.all_eq_true.mp hdirect _ (List.mem_of_getElem? hinstr)
    rw [Bool.not_eq_true'] at hplain
    refine ⟨Mips.Machine.not_forges hwf.fits hpc (hplaced.fetch _ _ hinstr) hplain, ?_⟩
    obtain ⟨hlogs, -⟩ := Mips.Machine.notes_of_cycle hwf.fits hpc (hplaced.fetch _ _ hinstr) hcycle
    exact congrArg Prod.fst hlogs
  have hsame : t.store.released = m.store.released := by
    clear ht
    induction hpath with
    | refl => rfl
    | tail _ hstep ih => exact (hkeeps hstep).2.trans ih
  have hpop : Placed p (0 + ([] ++ front).length) (Mips.pop joinPopEffect) := (hcode ▸ hplaced).back
  have hat : Poised Mips.Instr t (0 + ([] ++ front).length) (w :: joinWords w) (stackPointer (joinWords w)) :=
    ⟨v', ht, hv'.words_eq, hv'.fp_eq⟩
  refine .of_path hpath (fun hstep => ⟨(hkeeps hstep).1, hstep.cycle⟩) ?_
  refine (Mips.Machine.pop_releases hwf (e := joinPopEffect) rfl hpop hat).trans ?_
  rintro t' ⟨hunforged, -, hstore, t'', hcycle, hreleased⟩
  refine .step hunforged hcycle (.here ?_)
  rw [hreleased, hstore, hsame]

def callsBySymbol (code : List X86.Instr) : Bool :=
  code.all fun | .call (.reg _) => false | _ => true

/-- On x86 no run of the method can forge a release. On MIPS32 one that is handed a number other than zero and a
box does not, up to where the box is released. -/
theorem releases_stand_in_fresh_pops_join :
    (∃ m p linked, compileMethod X86.backend joinTable {} joinBody = .ok m ∧
      link [m] joinTable {} {} = .ok (p, linked) ∧ ∀ args before,
        let after := stateAfter (X86.Machine.invoke p m.symbol args 0) before
        ReleasedBy (StandsInFreshPop X86.backend joinTable {} [m]) before.store.released
          after.store.released after.trace.toList) ∧
    ∀ w before, ∃ m config p linked, compileMethod Mips.backend joinTable {} joinBody = .ok m ∧
      link [m] joinTable {} config = .ok (p, linked) ∧
        let after := stateAfter (Mips.Machine.invoke p m.symbol [.word 1, .word w] 0) before
        after.store.released = before.store.released.push w ∧
        ReleasedBy (StandsInFreshPop Mips.backend joinTable {} [m]) before.store.released
          after.store.released after.trace.toList := by
  obtain ⟨hx86, hmips⟩ := releases_stand_in_fresh_pops joinTable {}
  have hentry : joinMethod.symbol ≠ Intrinsic.release.symbol := by decide
  constructor
  · obtain ⟨m, p, linked, hcompiled, hlink, hwf, -, -⟩ := x86_joinFits.exists_linked
    have hplain : (compileMethod X86.backend joinTable {} joinBody).toOption.any
        (fun m => callsBySymbol m.code) = true := by decide +kernel
    rw [hcompiled] at hplain
    have hsymbol : m.symbol = joinMethod.symbol := symbol_of_compiled hcompiled rfl
    refine ⟨m, p, linked, hcompiled, hlink, fun args before => ?_⟩
    refine hx86 joinTable_plain (compiled_singleton hcompiled) hlink hwf.fits (hsymbol ▸ hentry) args 0 before
      fun t _ hforges => ?_
    obtain ⟨k, r, -, hinstr, -⟩ := hforges
    rw [(link_ok hlink).code, List.flatMap_singleton, List.getElem?_toArray] at hinstr
    cases List.all_eq_true.mp hplain _ (List.mem_of_getElem? hinstr)
  · intro w before
    obtain ⟨m, p, linked, hcompiled, hlink, hwf, hresolve, hplaced⟩ := mips_joinFits.exists_linked
    have hsymbol : m.symbol = joinMethod.symbol := symbol_of_compiled hcompiled rfl
    obtain ⟨t₀, v, slot, hslot, hstands, hv, hback, hprepare⟩ :=
      @Mips.prepares before [.word 1, .word w] 0 0 (show 0 + 2 ≤ stackCapacity by decide)
    obtain rfl := List.length_eq_zero_iff.mp hslot
    obtain ⟨n, t, hcycles, hreleased, hunforged⟩ := (mips_join_releases hwf hplaced hstands hv hback).never_before
    let q : Program Mips.Instr := { p with stepLimit := n }
    have hprepared : Mips.Machine.prepare q m.symbol [.word 1, .word w] 0 before = .ok () t₀ :=
      hprepare q m.symbol hresolve
    have hlogs := Mips.Machine.prepare_logs q m.symbol [.word 1, .word w] 0 before
    rw [stateAfter_of_ok hprepared] at hlogs
    refine ⟨m, _, q, linked, hcompiled, link_stepLimit hlink n, ?_, ?_⟩
    · have hafter := @Mips.Machine.released_of_cycles q before hwf.fits _ _ _ _ _ hprepared hcycles
      exact hafter.trans (hreleased.trans (congrArg (·.push w) (Prod.mk.inj hlogs).1))
    · refine hmips joinTable_plain (compiled_singleton hcompiled) (link_stepLimit hlink n) hwf.fits
        (hsymbol ▸ hentry) _ 0 before fun u hpasses => ?_
      obtain ⟨t₁, j, hprepare', hj, hcycles'⟩ := hpasses
      obtain rfl := (EStateM.Result.ok.inj (hprepared.symm.trans hprepare')).2
      exact hunforged j hj u hcycles'

theorem read_joinHeld {memory : Memory} {w : UInt32} (h : memory.Holds (w :: joinWords w)) :
    memory.read (stackPointer (joinWords w) + 8) 4 = .ok w := by
  have haddress : stackPointer (joinWords w) + 8 = wordAddress [(1 : UInt32)].length := (joinHeld_lies w).address
  rw [haddress]
  exact Memory.Holds.read (show memory.Holds ([w, 0, returnSentinel] ++ w :: [1]) from h)

/-- Invoked with a word for its box, the method comes to an instruction that releases this word, while the
frame still holds it as the argument. -/
def ReleasesHeld (backend : Backend I) (machine : MachineOps I M)
    (passes : Program I → Symbol → List StackValue → UInt32 → M → M → Prop) (fp : M → UInt32) : Prop :=
  ∀ w before, ∃ m config p linked t t', compileMethod backend joinTable {} joinBody = .ok m ∧
    link [m] joinTable {} config = .ok (p, linked) ∧ passes p m.symbol [.word 1, .word w] 0 before t ∧
    (machine.store t).memory.read (fp t + 8) 4 = .ok w ∧ Semantics.cycle p t = .ok () t' ∧
    (machine.store t').released = (machine.store t).released.push w

theorem x86_releasesHeld : ReleasesHeld X86.backend X86.Machine.ops X86.Machine.PassesThrough (·.reg .ebp) := by
  intro w before
  obtain ⟨m, p, linked, hcompiled, hlink, hwf, hresolve, hplaced⟩ := x86_joinFits.exists_linked
  obtain ⟨t₀, k, u, slot, hslot, hentered, hu, hprepare⟩ := @X86.prepare_enters p 0 0 _ [.word 1, .word w]
    (joinContext X86.backend) before hwf.fits hresolve hplaced.front (show 4 ≤ stackCapacity by decide)
  obtain rfl := List.length_eq_zero_iff.mp hslot
  obtain ⟨k', hpop, n, t₁, hran, ht₁⟩ :=
    x86_joinFits.reaches_pop X86.movesValues X86.computesIntegers hwf.fits hplaced hu
  obtain ⟨n', t, hcall, hfp, hholds, t', hcycle, hstore⟩ :=
    X86.Machine.pop_releases hwf (e := joinPopEffect) rfl hpop ht₁
  refine ⟨m, _, _, linked, t, t', hcompiled, link_stepLimit hlink (k + n + n' + 1),
    ⟨t₀, k + n + n', hprepare _, Nat.lt_succ_self _, (hentered.trans hran).trans hcall⟩, ?_, hcycle, ?_⟩
  · dsimp only
    rw [hfp]
    exact read_joinHeld hholds
  · show t'.store.released = _
    rw [hstore]
    rfl

theorem mips_releasesHeld : ReleasesHeld Mips.backend Mips.Machine.ops Mips.Machine.PassesThrough (·.reg .fp) := by
  intro w before
  obtain ⟨m, p, linked, hcompiled, hlink, hwf, hresolve, hplaced⟩ := mips_joinFits.exists_linked
  obtain ⟨t₀, k, u, slot, hslot, hentered, hu, hprepare⟩ := @Mips.prepare_enters p 0 0 _ [.word 1, .word w]
    (joinContext Mips.backend) before hwf.fits hresolve hplaced.front (show 4 ≤ stackCapacity by decide)
  obtain rfl := List.length_eq_zero_iff.mp hslot
  obtain ⟨k', hpop, n, t₁, hran, ht₁⟩ :=
    mips_joinFits.reaches_pop Mips.movesValues Mips.computesIntegers hwf.fits hplaced hu
  obtain ⟨n', t, hcall, -, hfp, hsame, t', hcycle, hstore⟩ :=
    (Mips.Machine.pop_releases hwf (e := joinPopEffect) rfl hpop ht₁).reaches
  refine ⟨m, _, _, linked, t, t', hcompiled, link_stepLimit hlink (k + n + n' + 1),
    ⟨t₀, k + n + n', hprepare _, Nat.lt_succ_self _, (hentered.trans hran).trans hcall⟩, ?_, hcycle, ?_⟩
  · dsimp only
    rw [hfp, show (Mips.Machine.ops.store t) = t₁.store from hsame]
    exact read_joinHeld ht₁.holds
  · show t'.store.released = _
    rw [hstore]
    rfl

/-- On both targets an argument is released, whatever it is, while the frame still holds it. -/
theorem argument_released : joinTable.PlainSymbols ∧
    ReleasesHeld X86.backend X86.Machine.ops X86.Machine.PassesThrough (·.reg .ebp) ∧
    ReleasesHeld Mips.backend Mips.Machine.ops Mips.Machine.PassesThrough (·.reg .fp) :=
  ⟨joinTable_plain, x86_releasesHeld, mips_releasesHeld⟩

end Join

end Stencil
