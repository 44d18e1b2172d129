import Mathlib.Logic.Relation
import Stencil.Proofs.Mips.Releases

/-!
# Executions are paths

Whatever a template executes, a machine that it is placed for follows without leaving it: every cycle runs an
instruction of the template, and none is a call.
-/

namespace Stencil

open AddressMap Stateful

section Paths

variable {I R M : Type} [TargetInstr I] [LabelUse I] [Semantics I R M]

/-- A cycle on an instruction of the code, which is placed at `base`, that is no call. -/
structure PlainStep (pc : M → UInt32) (calls : I → Bool) (p : Program I) (base : Nat) (code : List I) (m m' : M) :
    Prop where
  inside : ∃ k instr, pc m = codeAddress (base + k) ∧ code[k]? = some instr ∧ calls instr = false
  cycle : Semantics.cycle p m = .ok () m'

/-- Whatever a group of instructions inside the code does, machines follow by such cycles. -/
structure GoesAlong (pc : M → UInt32) (calls : I → Bool) (p : Program I) (base : Nat) (code : List I) : Prop where
  steps : ∀ {front group back : List I} {v v' : View R} {m : M}, code = front ++ (group ++ back) →
    Semantics.Steps group v v' → Semantics.Stands I m (base + front.length) v →
      ∃ m', Relation.ReflTransGen (PlainStep pc calls p base code) m m' ∧
        Semantics.Stands I m' (base + (front ++ group).length) v'
  jumps : ∀ {front group back : List I} {v : View R} {l : Label} {k : Nat} {m : M},
    code = front ++ (group ++ back) → Semantics.Jumps group v l → p.labels[l]? = some k →
      Semantics.Stands I m (base + front.length) v →
        ∃ m', Relation.ReflTransGen (PlainStep pc calls p base code) m m' ∧ Semantics.Stands I m' k v

variable {pc : M → UInt32} {calls : I → Bool} {p : Program I} {base : Nat} {whole : List I}

/-- A part of the code is followed up to where it is left. -/
theorem GoesAlong.exec (h : GoesAlong pc calls p base whole) (hplaced : Placed p base whole) {code : List I}
    {v v' : View R} {x : Exit} (hexec : Exec code v x v') {front back : List I}
    (hwhole : whole = front ++ (code ++ back)) (hlabel : ∀ l, x = .goto l → ∃ k, p.labels[l]? = some k) {m : M}
    (hstands : Semantics.Stands I m (base + front.length) v) :
    ∃ m' k, Relation.ReflTransGen (PlainStep pc calls p base whole) m m' ∧
      x.LeadsTo p (base + (front ++ code).length) k ∧ Semantics.Stands I m' k v' := by
  induction hexec generalizing front m with
  | nil => exact ⟨m, _, .refl, by rw [List.append_nil]; rfl, hstands⟩
  | @steps group rest _ _ _ x hsteps _ ih =>
    obtain ⟨t, hgroup, ht⟩ := h.steps (by rw [hwhole, List.append_assoc]) hsteps hstands
    obtain ⟨m', k, hrest, hleads, hm'⟩ := ih (by rw [hwhole, List.append_assoc, List.append_assoc]) hlabel ht
    refine ⟨m', k, hgroup.trans hrest, ?_, hm'⟩
    rwa [List.append_assoc] at hleads
  | @jump group skipped rest _ _ l x hjumps _ ih =>
    have hat : whole = (front ++ (group ++ skipped)) ++ ([TargetInstr.label l] ++ (rest ++ back)) := by
      simp only [hwhole, List.append_assoc, List.cons_append, List.nil_append]
    have hbound := (hat ▸ hplaced).back.labels 0 _ l rfl (LabelUse.asLabel?_label l)
    obtain ⟨t, hgroup, ht⟩ := h.jumps (by rw [hwhole, List.append_assoc]) hjumps hbound hstands
    obtain ⟨u, hlabelled, hu⟩ := h.steps hat (Semantics.steps_label l _) ht
    obtain ⟨m', k, hrest, hleads, hm'⟩ := ih (by simp only [hat, List.append_assoc]) hlabel hu
    refine ⟨m', k, (hgroup.trans hlabelled).trans hrest, ?_, hm'⟩
    rwa [show front ++ (group ++ skipped) ++ [TargetInstr.label l] ++ rest =
      front ++ (group ++ (skipped ++ TargetInstr.label l :: rest)) by simp] at hleads
  | @leave group rest _ l hjumps =>
    obtain ⟨k, hk⟩ := hlabel l rfl
    obtain ⟨m', hgroup, hm'⟩ := h.jumps (by rw [hwhole, List.append_assoc]) hjumps hk hstands
    exact ⟨m', k, hgroup, hk, hm'⟩

end Paths

section X86

open X86 (Steps Jumps)

variable {p : Program X86.Instr} {base : Nat} {code : List X86.Instr}

def X86.Instr.isCall : X86.Instr → Bool
  | .call _ => true
  | _ => false

theorem X86.path_of_cycles {front back : List X86.Instr} {instr : X86.Instr} {n : Nat} {m m' : X86.Machine}
    (hcode : code = front ++ ([instr] ++ back)) (hcall : instr.isCall = false)
    (hpc : m.pc = codeAddress (base + front.length)) (hn : n ≤ 1) (hcycles : Cycles (X86.Machine.cycle p) n m m') :
    Relation.ReflTransGen (PlainStep X86.Machine.pc X86.Instr.isCall p base code) m m' := by
  cases hcycles with
  | zero => exact .refl
  | succ hcycle hrest =>
    obtain rfl := Nat.le_zero.mp (Nat.le_of_succ_le_succ hn)
    cases hrest
    have hinstr : code[front.length]? = some instr := by
      rw [hcode, List.getElem?_append_right (Nat.le_refl _), Nat.sub_self]
      rfl
    exact .single ⟨⟨_, instr, hpc, hinstr, hcall⟩, hcycle⟩

theorem X86.goesAlong (hfits : p.code.size ≤ codeLimit) (hplaced : Placed p base code) :
    GoesAlong X86.Machine.pc X86.Instr.isCall p base code where
  steps {front group back v v' m} hcode hsteps hstands := by
    obtain ⟨m', hcycles, hstands'⟩ := Semantics.cycles_of_steps hfits (hcode ▸ hplaced).back.front hsteps hstands
    rw [List.length_append, ← Nat.add_assoc]
    obtain ⟨instr, rfl, -⟩ := X86.execute_of_steps (p := p) 0 hstands.sees hsteps
    refine ⟨m', X86.path_of_cycles hcode ?_ hstands.pc (Nat.le_refl 1) hcycles, hstands'⟩
    cases hsteps with
    | plain hstep => cases instr <;> first | rfl | cases hstep
    | _ => rfl
  jumps {front group back v l k m} hcode hjumps hlabel hstands := by
    obtain ⟨n, m', hn, hcycles, hstands'⟩ :=
      Semantics.cycles_of_jumps hfits (hcode ▸ hplaced).back.front hjumps hlabel hstands
    cases hjumps <;> exact ⟨m', X86.path_of_cycles hcode rfl hstands.pc hn hcycles, hstands'⟩

end X86

section Mips

open Mips (Steps Jumps)

variable {p : Program Mips.Instr} {base : Nat} {code : List Mips.Instr}

/-- A group has two instructions at most and calls nothing. -/
theorem Mips.Steps.short {group : List Mips.Instr} {v v' : View Mips.Registers} (h : Steps group v v') :
    group.length ≤ 2 ∧ group.all (!·.isCall) = true := by
  cases h with
  | @plain _ _ group hstep =>
    cases group with
    | one instr => exact ⟨Nat.le_succ 1, by cases instr <;> first | rfl | cases hstep⟩
    | push | pop => exact ⟨Nat.le_refl 2, rfl⟩
  | restore | passed => exact ⟨Nat.le_refl 2, rfl⟩
  | load | store | drop | enter | leave => exact ⟨Nat.le_succ 1, rfl⟩

theorem Mips.Jumps.short {group : List Mips.Instr} {v : View Mips.Registers} {l : Label} (h : Jumps group v l) :
    group.length ≤ 2 ∧ group.all (!·.isCall) = true := by
  cases h <;> exact ⟨Nat.le_refl 2, rfl⟩

/-- The cycles of a group; the second one starts behind the first instruction, wherever that leads. -/
theorem Mips.path_of_cycles {front group back : List Mips.Instr} {n : Nat} {m m' : Mips.Machine}
    (hfits : p.code.size ≤ codeLimit) (hplaced : Placed p base code) (hcode : code = front ++ (group ++ back))
    (hshort : group.length ≤ 2 ∧ group.all (!·.isCall) = true) (hpc : m.pc = codeAddress (base + front.length))
    (hnpc : m.npc = codeAddress (base + front.length + 1)) (hn : n ≤ group.length)
    (hcycles : Cycles (Mips.Machine.cycle p) n m m') :
    Relation.ReflTransGen (PlainStep Mips.Machine.pc Mips.Instr.isCall p base code) m m' := by
  have hstep : ∀ {j : Nat} {t t' : Mips.Machine}, j < group.length →
      t.pc = codeAddress (base + (front.length + j)) → Mips.Machine.cycle p t = .ok () t' →
      PlainStep Mips.Machine.pc Mips.Instr.isCall p base code t t' ∧ t'.pc = t.npc := by
    intro j t t' hj hat hcycle
    have hinstr : code[front.length + j]? = some group[j] := by
      rw [hcode, List.getElem?_append_right (Nat.le_add_right _ _), Nat.add_sub_cancel_left,
        List.getElem?_append_left hj, List.getElem?_eq_getElem hj]
    have hcall := List.all_eq_true.mp hshort.2 _ (List.getElem_mem hj)
    rw [Bool.not_eq_true'] at hcall
    exact ⟨⟨⟨_, _, hat, hinstr, hcall⟩, hcycle⟩,
      (Mips.Machine.notes_of_cycle hfits hat (hplaced.fetch _ _ hinstr) hcycle).2⟩
  cases hcycles with
  | zero => exact .refl
  | succ hfirst hrest =>
    obtain ⟨hone, hnext⟩ := hstep (j := 0) (by omega) hpc hfirst
    cases hrest with
    | zero => exact .single hone
    | succ hsecond hrest =>
      obtain ⟨htwo, -⟩ := hstep (j := 1) (by omega) (hnext.trans hnpc) hsecond
      cases hrest with
      | zero => exact .tail (.single hone) htwo
      | succ => omega

theorem Mips.goesAlong (hfits : p.code.size ≤ codeLimit) (hplaced : Placed p base code) :
    GoesAlong Mips.Machine.pc Mips.Instr.isCall p base code where
  steps {front group back v v' m} hcode hsteps hstands := by
    obtain ⟨m', hcycles, hstands'⟩ := Semantics.cycles_of_steps hfits (hcode ▸ hplaced).back.front hsteps hstands
    rw [List.length_append, ← Nat.add_assoc]
    exact ⟨m', Mips.path_of_cycles hfits hplaced hcode hsteps.short hstands.pc hstands.npc (Nat.le_refl _) hcycles,
      hstands'⟩
  jumps {front group back v l k m} hcode hjumps hlabel hstands := by
    obtain ⟨n, m', hn, hcycles, hstands'⟩ :=
      Semantics.cycles_of_jumps hfits (hcode ▸ hplaced).back.front hjumps hlabel hstands
    exact ⟨m', Mips.path_of_cycles hfits hplaced hcode hjumps.short hstands.pc hstands.npc hn hcycles, hstands'⟩

end Mips

end Stencil
