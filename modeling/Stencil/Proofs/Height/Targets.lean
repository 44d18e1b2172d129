import Stencil.Proofs.Arithmetic.Targets
import Stencil.Proofs.Dispatch.Targets
import Stencil.Proofs.Execution.Path

/-!
# Templates keep the height of the stack on both targets

Whatever path control takes through a template, the stack pointer has moved by the change of the
simulated stack when it leaves.
-/

namespace Stencil

open AddressMap Link

section Paths

variable {ctx : EmitContext} {env : SimEnv} {i : Instruction} {stack stack' : OperandStack}
  {e : Effect}

/-- On both targets every path through the template of an instruction moves the stack pointer by
what the simulation says, and leaves the frame pointer alone. -/
theorem templates_conserve_height (hmatches : Matches ctx env i stack)
    (hsimulate : simulate env i stack = .ok e stack') (hpseudo : i.op.isPseudo = false)
    (hthrow : i.op ≠ .throw) :
    ((X86.backend.emit ctx i e).failure = none →
      X86.PathsAdd (X86.backend.emit ctx i e).code (-UInt32.ofInt e.delta)) ∧
    ((Mips.backend.emit ctx i e).failure = none →
      Mips.PathsAdd (Mips.backend.emit ctx i e).code (-UInt32.ofInt e.delta)) :=
  ⟨X86.emit_pathsAdd hmatches hsimulate hpseudo hthrow,
   Mips.emit_pathsAdd hmatches hsimulate hpseudo hthrow⟩

end Paths

/-! ## A comparison -/

section Less

def lessMethod : MethodDescriptor := .ofName ⟨1, Nat.one_pos⟩ 0 "less"

def lessTable : Table := Table.addMethod {} lessMethod

def lessInstruction : Instruction := .placed 2 .clt []

def lessBody : MethodBody where
  method := lessMethod.id
  instructions := [.placed 0 .ldcI41 [], .placed 1 .ldcI42 [], lessInstruction, .placed 4 .pop [], .placed 5 .ret []]

def lessContext {I : Type} (backend : Backend I) : EmitContext :=
  { tables := lessTable, options := {}, policy := backend.defaultPolicy, frame := dropFrame,
    method := lessMethod, endPosition := 6 }

def lessEnv : SimEnv := { tables := lessTable, frame := dropFrame, pointerSize := 4 }

def lessEffect : Effect := { popped := [.int32, .int32], pushed := [.int32] }

/-- What the comparison is compiled to. It has a way for either answer. -/
abbrev lessCode {I : Type} (backend : Backend I) : List I :=
  (backend.emit (lessContext backend) lessInstruction lessEffect).code

theorem less_matches {I : Type} (backend : Backend I) :
    Matches (lessContext backend) lessEnv lessInstruction [.int32, .int32] where
  tables := rfl
  frame := rfl
  options := rfl
  pointerSize := rfl
  items item hcopies := by
    cases hcopies with
    | arg hop | «local» hop => rcases hop with hop | hop <;> cases hop
    | result hop | top hop => cases hop
  types t htouches := by
    cases htouches with
    | type htype => cases htype
    | field hfield => cases hfield

theorem less_simulates : simulate lessEnv lessInstruction [.int32, .int32] = .ok lessEffect [.int32] := rfl

theorem x86_less_compiles : compilesAt X86.backend lessTable lessBody (lessCode X86.backend) 4 = true := by
  decide +kernel

theorem mips_less_compiles : compilesAt Mips.backend lessTable lessBody (lessCode Mips.backend) 11 = true := by
  decide +kernel

theorem lessTable_distinct : lessTable.DistinctSymbols :=
  ⟨by decide, fun intrinsic => by cases intrinsic <;> decide⟩

theorem X86.templateStep_of_plain {p : Program X86.Instr} {base : Nat} {code : List X86.Instr} {m m' : X86.Machine}
    (h : PlainStep X86.Machine.pc X86.Instr.isCall p base code m m') : X86.TemplateStep p base code m m' := by
  obtain ⟨⟨k, instr, hpc, hinstr, hcall⟩, hcycle⟩ := h
  refine .cycle hpc hinstr (fun target htarget => ?_) hcycle
  subst htarget
  cases hcall

theorem Mips.templateStep_of_plain {p : Program Mips.Instr} {base : Nat} {code : List Mips.Instr}
    {m m' : Mips.Machine} (h : PlainStep Mips.Machine.pc Mips.Instr.isCall p base code m m') :
    Mips.TemplateStep p base code m m' := by
  obtain ⟨⟨k, instr, hpc, hinstr, hcall⟩, hcycle⟩ := h
  exact .cycle hpc hinstr hcall hcycle

variable {I R M : Type} [TargetInstr I] [LabelUse I] [Semantics I R M]

/-- The method is compiled and linked, and in front of its comparison with any two words on the stack a machine
has a path through the template to their answer. There the stack pointer is four bytes higher. -/
def ComparesOnPaths (backend : Backend I) (Step : Program I → Nat → List I → M → M → Prop) (sp fp : M → UInt32) :
    Prop :=
  ∃ m p linked base, compileMethod backend lessTable {} lessBody = .ok m ∧
    link [m] lessTable {} {} = .ok (p, linked) ∧ Placed p base (lessCode backend) ∧ ∀ a b : UInt32, ∃ u t,
      Poised I u base [b, a] 0 ∧ Relation.ReflTransGen (Step p base (lessCode backend)) u t ∧
      Poised I t (base + (lessCode backend).length) [if Meaning.compare .lt [a] [b] then 1 else 0] 0 ∧
      sp t = sp u + 4 ∧ fp t = fp u

theorem comparesOnPaths [DecidableEq I] {backend : Backend I} {Step : Program I → Nat → List I → M → M → Prop}
    {sp fp pc : M → UInt32} {calls : I → Bool} {base : Nat}
    (hcompiles : compilesAt backend lessTable lessBody (lessCode backend) base = true)
    (hsome : 0 < (lessCode backend).length)
    (hturns : ∀ a b, Turns (lessCode backend) [b, a] 0 .next [if Meaning.compare .lt [a] [b] then 1 else 0] 0)
    (hpoised : ∀ a b, ∃ u, Poised I u base [b, a] 0)
    (hgoes : ∀ {p : Program I}, p.code.size ≤ codeLimit → Placed p base (lessCode backend) →
      GoesAlong pc calls p base (lessCode backend))
    (hplain : ∀ {p : Program I} {u t : M}, PlainStep pc calls p base (lessCode backend) u t →
      Step p base (lessCode backend) u t)
    (hadds : ∀ {p : Program I} {words words' : List UInt32} {u t : M}, p.WellFormed →
      Placed p base (lessCode backend) → base ≤ p.code.size → Poised I u base words 0 →
      Poised I t (base + (lessCode backend).length) words' 0 →
      Relation.ReflTransGen (Step p base (lessCode backend)) u t →
      Outside base (lessCode backend) (codeAddress (base + (lessCode backend).length)) →
      sp t = sp u + 4 ∧ fp t = fp u) :
    ComparesOnPaths backend Step sp fp := by
  obtain ⟨m, p, linked, hcompiled, hlink, hfits, hplaced⟩ := exists_linked_of_compilesAt hcompiles
  have hwf : p.WellFormed := wellFormed_of_link hlink (compiled_singleton hcompiled)
    lessTable_distinct hfits.le
  have hinside : base ≤ p.code.size := (hplaced.index_lt hsome).le
  have hend : base + (lessCode backend).length ≤ codeLimit := (hplaced.end_le hinside).trans hfits.le
  refine ⟨m, p, linked, base, hcompiled, hlink, hplaced, fun a b => ?_⟩
  obtain ⟨u, hu⟩ := hpoised a b
  obtain ⟨v, hstands, hv⟩ := hu.view
  obtain ⟨v', hexec, hv'⟩ := hturns a b v hv
  have hwhole : lessCode backend = [] ++ (lessCode backend ++ []) := (List.append_nil _).symm
  obtain ⟨t, k, hplainPath, rfl, ht⟩ :=
    (hgoes hfits.le hplaced).exec hplaced hexec hwhole (fun l hl => by cases hl) hstands
  have hpath := hplainPath.lift id fun _ _ => hplain
  have hpast : Poised I t (base + (lessCode backend).length) _ 0 := ⟨v', ht, hv'.words_eq, hv'.fp_eq⟩
  exact ⟨u, t, hu, hpath, hpast, hadds hwf hplaced hinside hu hpast hpath (outside_end hend)⟩

/-- Whichever way a comparison of two words takes, it leaves its template four bytes higher. -/
theorem templates_conserve_height_less :
    simulate lessEnv lessInstruction [.int32, .int32] = .ok lessEffect [.int32] ∧
      ComparesOnPaths X86.backend X86.TemplateStep (·.reg .esp) (·.reg .ebp) ∧
      ComparesOnPaths Mips.backend Mips.TemplateStep (·.reg .sp) (·.reg .fp) := by
  obtain ⟨hx86, -⟩ := templates_conserve_height (less_matches X86.backend) less_simulates (by decide) (by decide)
  obtain ⟨-, hmips⟩ := templates_conserve_height (less_matches Mips.backend) less_simulates (by decide) (by decide)
  have hroom : ∀ a b : UInt32, [b, a].length ≤ stackCapacity := fun _ _ => show 2 ≤ stackCapacity by decide
  refine ⟨less_simulates, ?_, ?_⟩
  · have hturns : ∀ a b, Turns (lessCode X86.backend) [b, a] 0 .next [_] 0 := fun a b =>
      @X86.turns_compare [] 0 _ _ lessEffect .lt [a] [b] rfl rfl rfl
    refine comparesOnPaths x86_less_compiles (by decide) hturns (fun a b => X86.exists_poised (hroom a b))
      X86.goesAlong X86.templateStep_of_plain ?_
    intro p words words' u t hwf hplaced hinside ⟨_, hu, _⟩ ⟨_, ht, _⟩ hpath houtside
    exact hx86 (by decide) p 4 u t hwf hplaced hinside hu.pc hpath (ht.pc ▸ houtside)
  · have hturns : ∀ a b, Turns (lessCode Mips.backend) [b, a] 0 .next [_] 0 := fun a b =>
      @Mips.turns_compare [] 0 _ _ lessEffect .lt [a] [b] rfl rfl rfl
    refine comparesOnPaths mips_less_compiles (by decide) hturns (fun a b => Mips.exists_poised (hroom a b))
      Mips.goesAlong Mips.templateStep_of_plain ?_
    intro p words words' u t hwf hplaced hinside ⟨_, hu, _⟩ ⟨_, ht, _⟩ hpath houtside
    have hnpc : u.npc = u.pc + 4 := by rw [hu.npc, hu.pc, codeAddress_succ]
    exact hmips (by decide) p 11 u t hwf hplaced hinside hu.pc hnpc hpath (ht.pc ▸ houtside)

end Less

end Stencil
