import Stencil.Proofs.Dispatch.Targets
import Stencil.Proofs.Mips.Leftovers
import Stencil.Proofs.Objects.Targets
import Stencil.Proofs.Running.Targets
import Stencil.Proofs.X86.Leftovers

/-!
# Machines are used again on both targets

Whatever a machine has run before, and however that ended, its next invocation goes like one on a new machine
with the same store. On x86 this holds of every program, since an invocation sets anew all that runs look at.
On MIPS32 `hi` and `lo` stay, but compiled code reads them only behind its own multiplications and divisions.
-/

namespace Stencil

open AddressMap Invocation Link Stateful

/-- Of a machine that has run before nothing but its store makes a difference: neither registers and flags nor
program counters, nor `hi` and `lo` as long as control comes to spans from where it should. -/
theorem machines_reusable :
    (∀ p entry args returnBytes used, Restarts X86.Machine.ops p entry args returnBytes used) ∧
    ∀ {tables options methods config p linked},
      (∀ m ∈ methods, ∃ body, compileMethod Mips.backend tables options body = .ok m) →
      link methods tables options config = .ok (p, linked) → p.code.size < codeLimit →
      ∀ entry args returnBytes used,
        EntersSpans methods p Mips.Instr.isCall 1
          (stateAfter (Mips.Machine.invoke p entry args returnBytes) used).trace.toList →
        Restarts Mips.Machine.ops p entry args returnBytes used :=
  ⟨X86.Machine.invoke_start, fun hcompiled hlink hfits entry args returnBytes used =>
    Mips.Machine.invoke_start hcompiled (link_ok hlink) hfits entry args returnBytes used⟩

/-! ## Code in order -/

section InOrder

variable {p : Program Mips.Instr} {count k : Nat} {m t : Mips.Machine}

/-- Each of the first instructions goes on to the next one, by itself or by a jump over its delay slot. -/
def GoesInOrder (p : Program Mips.Instr) (count : Nat) : Prop :=
  ∀ k < count, ∃ instr, p.code[k]? = some instr ∧
    (instr.hasDelaySlot = false ∨ ∃ l, instr = .j l ∧ p.labels[l]? = some (k + 2))

/-- The machine has run the first `k` instructions in order. Where it goes behind the instruction at `count` and
its delay slot is left open. -/
structure InOrder (count k : Nat) (m : Mips.Machine) : Prop where
  trace : m.trace.toList.map TraceEntry.index = List.range k
  pc : k ≤ count + 1 → m.pc = codeAddress k
  npc : k ≤ count → m.npc = codeAddress (k + 1)

variable (hfits : p.code.size ≤ codeLimit) (hcode : GoesInOrder p count) (hsize : count + 2 ≤ p.code.size)

include hfits hcode hsize

theorem InOrder.cycle (h : InOrder count k m) (hk : k ≤ count + 1) (hcycle : Mips.Machine.cycle p m = .ok () t) :
    InOrder count (k + 1) t := by
  have hinstr : p.code[k]? = some p.code[k] := Array.getElem?_eq_getElem (by omega)
  obtain ⟨hlogs, hpc⟩ := Mips.Machine.notes_of_cycle hfits (h.pc hk) hinstr hcycle
  have htrace : t.trace = (m.fetched k).trace := congrArg Prod.snd hlogs
  refine ⟨?_, fun hlast => hpc.trans (h.npc (by omega)), fun hlast => ?_⟩
  · rw [htrace, Mips.Machine.fetched, Array.toList_push, List.map_append, h.trace, List.range_succ]
    rfl
  · obtain ⟨next, u, hexecute, rfl⟩ := Mips.Machine.cycle_ok hfits (h.pc hk) hinstr hcycle
    have hnpc : u.npc = m.npc := hpc
    obtain ⟨instr, hinstr', hgoes⟩ := hcode k (by omega)
    obtain rfl := Option.some.inj (hinstr.symm.trans hinstr')
    rcases hgoes with hplain | ⟨l, hjump, hlabel⟩
    · obtain rfl := Mips.Machine.execute_goesOn_of_plain p hplain _ _ _ hexecute
      rw [Mips.Machine.advance_npc_none, hnpc, h.npc (by omega), codeAddress_succ]
    · have haddress : p.labelAddress l = .ok (codeAddress (k + 2)) := by
        unfold Program.labelAddress
        rw [hlabel]
      rw [hjump, Mips.Machine.execute_j_apply] at hexecute
      unfold Mips.Machine.branchAnswer at hexecute
      rw [haddress] at hexecute
      obtain ⟨rfl, -⟩ := EStateM.Result.ok.inj hexecute
      rw [Mips.Machine.advance_npc_some]

theorem InOrder.cycles (h : InOrder count k m) {n : Nat} (hcycles : Cycles (Mips.Machine.cycle p) n m t)
    (hn : k + n ≤ count + 2) : InOrder count (k + n) t := by
  induction hcycles generalizing k with
  | zero => exact h
  | @succ n _ _ _ hcycle _ ih =>
    rw [show k + (n + 1) = k + 1 + n by omega] at hn ⊢
    exact ih (h.cycle hfits hcode hsize (by omega) hcycle) hn

end InOrder

/-- In order, control comes to every instruction of a span but the first from inside. -/
theorem entersSpans_of_range {I : Type} {methods : List (CompiledMethod I)} {p : Program I} {calls : I → Bool}
    {slots : Nat} {ran : List TraceEntry} {n : Nat} (h : ran.map TraceEntry.index = List.range n) :
    EntersSpans methods p calls slots ran := by
  have hindex : ∀ {before : List TraceEntry} {entry : TraceEntry} {after : List TraceEntry},
      ran = before ++ entry :: after → entry.index = before.length := by
    rintro before entry after rfl
    have hat := congrArg (·[before.length]?) h
    simp only [List.map_append, List.map_cons] at hat
    rw [List.getElem?_append_right (by simp), List.length_map, Nat.sub_self] at hat
    exact (List.getElem?_eq_some_iff.mp hat.symm).2.symm.trans (List.getElem_range _)
  intro before entry after hran base span _ hholds
  have hentry := hindex hran
  rcases List.eq_nil_or_concat before with rfl | ⟨front, last, rfl⟩
  · have hlow := hholds.1
    rw [List.length_nil] at hentry
    exact .inl (by omega)
  · rw [List.concat_eq_append, List.append_assoc, List.singleton_append] at hran
    have hlast := hindex hran
    rw [List.length_concat] at hentry
    obtain ⟨hlow, hhigh⟩ := hholds
    by_cases hfirst : entry.index = base + span.start
    · exact .inl hfirst
    · exact .inr (.inl ⟨last, by rw [List.concat_eq_append, List.getLast?_concat], by omega, by omega⟩)

/-! ## A method that multiplies -/

section Square

def squareMethod : MethodDescriptor :=
  { MethodDescriptor.ofName ⟨1, Nat.one_pos⟩ 1 "square" with params := [1], returnType := some 1 }

def squareTable : Table := (Table.addType {} numberType).addMethod squareMethod

def squareBody : MethodBody where
  method := squareMethod.id
  instructions := [.placed 0 .ldarg0 [], .placed 1 .ldarg0 [], .placed 2 .mul [], .placed 3 .ret []]

def squareContext : EmitContext :=
  { areaContext with
    tables := squareTable, policy := Mips.backend.defaultPolicy, method := squareMethod, endPosition := 4
    frame := { args := [⟨12, .int32⟩], locals := [], returnItem := some .int32, argBytes := 4, localBytes := 0 } }

/-- The argument is pushed twice and multiplied. -/
def squareValue : List Mips.Instr :=
  (Mips.Instr.lw .t6 12 .fp :: Mips.Instr.push .t6) ++ ((Mips.Instr.lw .t6 12 .fp :: Mips.Instr.push .t6) ++
    (Mips.popOperands false ++ Mips.binaryWord .mul ++ Mips.pushResult false))

def squareReturn : List Mips.Instr := Mips.Instr.pop .v0 ++ Mips.Instr.jump squareContext.endLabel

def squareCode : List Mips.Instr :=
  (Mips.prologue squareContext ++ squareValue) ++
    (squareReturn ++ Mips.Instr.label squareContext.endLabel :: Mips.epilogue squareContext)

theorem square_compiles : compilesAt Mips.backend squareTable squareBody squareCode 0 = true := by
  decide +kernel

theorem turns_squareValue (w s saved back : UInt32) :
    Turns squareValue [saved, back, s, w] (stackPointer [saved, back, s, w]) .next [w * w, saved, back, s, w]
      (stackPointer [saved, back, s, w]) := by
  have hlies : Lies [saved, back, s, w] (stackPointer [saved, back, s, w]) 12 [saved, back, s] [w] [] :=
    ⟨rfl, stackPointer_append [saved, back, s] [w]⟩
  have hfirst := Mips.turns_pushSlot hlies (show 1 + 4 ≤ stackCapacity by decide)
  have hsecond := Mips.turns_pushSlot (hlies.below [w]) (show 1 + 5 ≤ stackCapacity by decide)
  exact hfirst.append (hsecond.append (Mips.turns_binaryWord w w (Meaning.binary_mul_word w w)))

variable {p : Program Mips.Instr} (hplaced : Placed p 0 squareCode)

include hplaced

theorem square_goesInOrder : GoesInOrder p 30 := by
  intro k hk
  have hplain : ∀ k < 30, k ≠ 21 → squareCode[k]?.any (fun instr => !instr.hasDelaySlot) = true := by decide
  by_cases hjump : k = 21
  · subst hjump
    exact ⟨.j squareContext.endLabel, by simpa using hplaced.fetch 21 _ rfl,
      .inr ⟨_, rfl, by simpa using hplaced.labels 23 _ _ rfl rfl⟩⟩
  · obtain ⟨instr, hinstr, hslot⟩ := (Option.any_eq_true _ _).mp (hplain k hk hjump)
    exact ⟨instr, by simpa using hplaced.fetch k _ hinstr, .inl (by simpa using hslot)⟩

/-- The method returns the square of its argument, after its 32 instructions in order. -/
theorem square_runs (hfits : p.code.size < codeLimit) (hlimit : 32 ≤ p.stepLimit) {symbol : Symbol}
    (hresolve : p.resolve symbol = .ok (codeAddress 0)) (w : UInt32) (used : Mips.Machine) :
    ∃ after, Mips.Machine.invoke p symbol [.word w] 4 used = .ok [w * w] after ∧
      after.trace.toList.map TraceEntry.index = List.range 32 := by
  obtain ⟨t, v, slot, hslot, hstands, hv, hback, hprepare⟩ :=
    @Mips.prepares used [.word w] 1 0 (show 1 + 1 ≤ stackCapacity by decide)
  obtain ⟨s, rfl⟩ := List.length_eq_one_iff.mp hslot
  obtain ⟨u, hprologue, hu⟩ := Mips.exec_prologue squareContext hv hback
    (show 0 + (2 + 2) ≤ stackCapacity by decide)
  obtain ⟨v', hvalue, hv'⟩ := turns_squareValue w s 0 returnSentinel u hu
  obtain ⟨n, m₁, j, hn, hcycles, rfl, hstands₁⟩ :=
    (hprologue.append hvalue).reaches hfits.le hplaced.front (fun l hl => by cases hl) hstands
  obtain ⟨n', after, hn', hcycles', hafter⟩ :=
    @Mips.leaves squareContext [w * w] [] [s] [w] 0 p m₁ (.placed 3 .ret []) { popped := [.int32] } squareReturn
      (0 + (Mips.prologue squareContext ++ squareValue).length)
      (0 + (Mips.prologue squareContext ++ squareValue).length + squareReturn.length) sentinelIndex hfits.le rfl
      hplaced.back.front hplaced.back.back rfl rfl rfl ⟨v', hstands₁, hv'.words_eq, hv'.fp_eq⟩
  have hall := hcycles.trans hcycles'
  have hpc : after.pc = returnSentinel := by
    obtain ⟨x, hx, -⟩ := hafter
    exact hx.pc.trans codeAddress_sentinelIndex
  have hprepared := hprepare p symbol hresolve
  have hlogs := Mips.Machine.prepare_logs p symbol [.word w] (UInt32.ofNat (4 * 1)) used
  rw [stateAfter_of_ok hprepared] at hlogs
  have hstart : InOrder 30 0 t := by
    refine ⟨?_, fun _ => hstands.pc, fun _ => hstands.npc⟩
    rw [show t.trace = #[] from (Prod.mk.inj hlogs).2]
    rfl
  have hsize : 30 + 2 ≤ p.code.size := by
    have hlast : p.code[0 + 31]? = some .nop := hplaced.fetch 31 _ rfl
    have := (Array.getElem?_eq_some_iff.mp hlast).1
    omega
  have hfront : (Mips.prologue squareContext ++ squareValue).length = 19 := rfl
  have hback : squareReturn.length + ((Mips.epilogue squareContext).length + 1) = 13 := rfl
  have hordered := hstart.cycles hfits.le (square_goesInOrder hplaced) hsize hall (by omega)
  -- the run ends behind the last instruction, since the address of no other one is the sentinel
  have hcount : n + n' = 32 := by
    have hnone : ∀ k ≤ 31, codeAddress k ≠ returnSentinel := by decide
    by_contra hshort
    exact hnone (0 + (n + n')) (by omega) ((hordered.pc (by omega)).symm.trans hpc)
  have hrun := Mips.Machine.run_of_cycles hfits.le hall hpc (by omega : n + n' ≤ p.stepLimit)
  refine ⟨after, ?_, by rw [hordered.trace, Nat.zero_add, hcount]⟩
  have hrest : [w].length = (argumentWords [.word w]).length := rfl
  have hcollect := Mips.collect_of_poised hafter hrest (show 1 ≤ stackCapacity by decide)
  refine (Mips.Machine.invoke_of_prepare hprepared).trans ?_
  rw [bind_of_ok hrun]
  exact hcollect

omit hplaced

/-- A machine that has run before squares a number as a new one does, up to the end of the method. -/
theorem machines_reusable_square :
    ∃ m p linked, compileMethod Mips.backend squareTable {} squareBody = .ok m ∧
      link [m] squareTable {} {} = .ok (p, linked) ∧ ∀ w used,
        (∃ after, Mips.Machine.invoke p m.symbol [.word w] 4 used = .ok [w * w] after ∧
          after.trace.toList.map TraceEntry.index = List.range 32) ∧
        Restarts Mips.Machine.ops p m.symbol [.word w] 4 used := by
  obtain ⟨-, hmips⟩ := machines_reusable
  obtain ⟨m, p, linked, hcompiled, hlink, hfits, hplaced⟩ := exists_linked_of_compilesAt square_compiles
  have hsymbol : m.symbol = squareMethod.symbol := symbol_of_compiled hcompiled rfl
  have hvisible : squareMethod.symbol ∉ squareTable.dataSymbols := by decide
  have hresolve := resolve_of_visible hlink (hsymbol ▸ hvisible)
  have hlimit : 32 ≤ p.stepLimit := by
    rw [(link_ok hlink).stepLimit]
    decide
  refine ⟨m, p, linked, hcompiled, hlink, fun w used => ?_⟩
  obtain ⟨after, hinvoke, htrace⟩ := square_runs hplaced hfits hlimit hresolve w used
  refine ⟨⟨after, hinvoke, htrace⟩, ?_⟩
  refine hmips (compiled_singleton hcompiled) hlink hfits m.symbol [.word w] 4 used
    (entersSpans_of_range (n := 32) ?_)
  rw [stateAfter_of_ok hinvoke]
  exact htrace

end Square

end Stencil
