import Stencil.Proofs.Height.Paths
import Stencil.Proofs.Mips.Convention
import Stencil.Proofs.X86.Convention

/-!
# Caller and callee agree on both targets

The effect of a call counts the bytes of the callee's frame. The callee finds its arguments where its
slots say, its locals are cleared, and the caller gets the result in place of the arguments.
-/

namespace Stencil

open AddressMap Link

/-- A call that the simulation has accepted and a return of the method that is called. -/
structure SimulatedCall (env : SimEnv) (caller callee : EmitContext) (call ret : Instruction)
    (e e' : Effect) : Prop where
  calls : call.op.operation = .call
  returns : ret.op.operation = .ret
  tables : caller.tables = env.tables
  pointerSize : env.pointerSize = 4
  resolved : env.tables.resolveMethod call = .ok callee.method
  framed : Frame.ofMethod env.tables 4 callee.method = .ok callee.frame
  simulated : ∃ stack stack', simulate env call stack = .ok e stack'
  returned : ∃ stack stack', simulate { env with frame := callee.frame } ret stack = .ok e' stack'

/-- On both targets caller and callee agree on how a call is made. -/
theorem calls_keep_convention {env : SimEnv} {caller callee : EmitContext} {call ret : Instruction}
    {e e' : Effect} (h : SimulatedCall env caller callee call ret e e') :
    (e.poppedBytes = callee.frame.argBytes ∧ e.pushedBytes = callee.frame.returnBytes) ∧
    KeepsConvention X86.backend caller callee call ret e e' ∧
    KeepsConvention Mips.backend caller callee call ret e e' := by
  obtain ⟨stack, stack', hsimulated⟩ := h.simulated
  obtain ⟨stack₁, stack₁', hreturned⟩ := h.returned
  have hframed := h.framed
  rw [← h.pointerSize] at hframed
  have hpointer : env.pointerSize < 2 ^ 32 := by
    rw [h.pointerSize]
    decide
  obtain ⟨hpopped, hpushed⟩ := call_effect hpointer h.calls h.resolved hframed hsimulated
  have hreturn : e'.poppedBytes = callee.frame.returnBytes :=
    ret_effect h.returns (returnBytes_lt h.framed (by decide)) hreturned
  obtain ⟨⟨items, localItems, hof⟩, hlocalWords, hreturnWords⟩ := words_of_ofMethod h.framed
  have hresolved := h.resolved
  rw [← h.tables] at hresolved
  refine ⟨⟨hpopped, hpushed⟩, ?_, ?_⟩
  · exact keepsConvention_of_acts hof hlocalWords hreturnWords fun hplaces =>
      X86.callActs h.calls h.returns hresolved hpopped hpushed hreturn hreturnWords hplaces
  · exact keepsConvention_of_acts hof hlocalWords hreturnWords fun hplaces =>
      Mips.callActs h.calls h.returns hresolved hpopped hpushed hreturn hreturnWords hplaces

/-! ## A method that returns its argument -/

section Identity

def identityMethod : MethodDescriptor :=
  { MethodDescriptor.ofName ⟨1, Nat.one_pos⟩ 0 "identity" with
    params := [1], returnType := some 1, locals := [1] }

def identityTable : Table :=
  (Table.addType {} (.primitive 1 "Int32" 4 true)).addMethod identityMethod

def identityFrame : Frame where
  args := [⟨12, .int32⟩]
  locals := [⟨-4, .int32⟩]
  returnItem := some .int32
  argBytes := 4
  localBytes := 4

def identityContext : EmitContext :=
  { tables := identityTable, options := {}, policy := X86.backend.defaultPolicy,
    frame := identityFrame, method := identityMethod, endPosition := 2 }

def identityCaller : EmitContext :=
  { identityContext with method := .ofName ⟨2, Nat.two_pos⟩ 0 "main" }

def identityCall : Instruction :=
  { Instruction.placed 0 .call [0, 0, 0, 0] with methodRef := some identityMethod.id }

def identityLoad : Instruction := .placed 0 .ldarg0 []

def identityReturn : Instruction := .placed 1 .ret []

def identityEnv : SimEnv := { tables := identityTable, frame := identityFrame, pointerSize := 4 }

def identityEffect : Effect := { popped := [.int32], pushed := [.int32] }

def returnEffect : Effect := { popped := [.int32] }

theorem identity_simulated : SimulatedCall identityEnv identityCaller identityContext identityCall
    identityReturn identityEffect returnEffect where
  calls := rfl
  returns := rfl
  tables := rfl
  pointerSize := rfl
  resolved := rfl
  framed := rfl
  simulated := ⟨[.int32], [.int32], rfl⟩
  returned := ⟨[.int32], [], rfl⟩

variable {I R M : Type} [TargetInstr I]

def identityBody (backend : Backend I) : List I :=
  (backend.emit identityContext (.pseudo 0 .methodStart) {}).code ++
  (backend.emit identityContext identityLoad { pushed := [.int32] }).code

def identityExit (backend : Backend I) : List I :=
  (backend.emit identityContext identityReturn returnEffect).code ++
  (TargetInstr.label identityContext.endLabel ::
    (backend.emit identityContext (.pseudo 2 .methodEnd) {}).code)

def identityCode (backend : Backend I) : List I :=
  identityBody backend ++ identityExit backend ++
    (backend.emit identityCaller identityCall identityEffect).code

def identityProgram (backend : Backend I) : Program I :=
  { Program.ofTemplate (identityCode backend) with
    symbols := bindAll ∅ [(identityMethod.symbol, codeAddress 0)] }

/-- The templates of the method and of the call can be linked. -/
structure IdentityFits (backend : Backend I) : Prop where
  short : (identityCode backend).length ≤ codeLimit
  nodup : (boundLabels (identityCode backend)).Nodup
  called : (backend.emit identityCaller identityCall identityEffect).failure = none
  returned : (backend.emit identityContext identityReturn returnEffect).failure = none

theorem IdentityFits.places {backend : Backend I} (h : IdentityFits backend) :
    CallPlaces backend (identityProgram backend) identityCaller identityContext identityCall
      identityReturn identityEffect returnEffect (identityBody backend ++ identityExit backend).length 0
      (identityBody backend).length
      ((identityBody backend).length +
        (backend.emit identityContext identityReturn returnEffect).code.length) := by
  have hplaced : ∀ before part after, identityCode backend = before ++ part ++ after →
      Placed (identityProgram backend) before.length part :=
    Placed.of_layout (identityCode backend) rfl rfl h.nodup
  have hexit : Placed (identityProgram backend) (identityBody backend).length (identityExit backend) :=
    hplaced _ _ _ rfl
  exact {
    fits := h.short
    calls := hplaced (identityBody backend ++ identityExit backend) _ [] (List.append_nil _).symm
    called := h.called
    resolves := by
      rw [Program.resolve]
      simp [identityProgram, bindAll, identityContext]
    starts := (hplaced [] (identityBody backend) _ (List.append_assoc _ _ _)).front
    returns := hexit.front
    returned := h.returned
    ends := hexit.back }

/-- However the identity method is called, it gives its argument back. -/
theorem identity_returns [LabelUse I] [Semantics I R M] (below : List UInt32) {backend : Backend I} {p : Program I}
    (hfits : p.code.size ≤ codeLimit) {entry next : Nat} (hplaced : Placed p entry (identityBody backend))
    (hload : ∀ {words front rest : List UInt32} {fp w : UInt32}, Lies words fp 12 front [w] rest →
      1 + words.length ≤ stackCapacity →
      Turns (backend.emit identityContext identityLoad { pushed := [.int32] }).code words fp .next
        (w :: words) fp)
    {rest : List UInt32} {w fp : UInt32} {m : M} (hroom : below.length + 6 ≤ stackCapacity)
    (hruns : CallRuns backend p identityContext entry (entry + (identityBody backend).length) next [[w]]
      below rest fp m) :
    Reaches (Semantics.cycle p) m fun m' => Poised I m' next (w :: rest) fp := by
  refine hruns.trans fun m₁ ⟨back, slot, fp₁, hslot, hfp₁, hpoised, _, hreturns⟩ => ?_
  obtain ⟨old, rfl⟩ : ∃ old, slot = [old] :=
    List.length_eq_one_iff.mp (Nat.eq_of_mul_eq_mul_left (by decide) hslot)
  have hfill : Fill (identityContext.frame.args.map FrameSlot.item) [[w]] := .cons rfl .nil
  obtain ⟨value, front, rest', hvalue, -, hlies, -⟩ :=
    @lies_argument [.int32] fp back [old] below [[w]] hfill 0 ⟨12, .int32⟩ rfl
  obtain rfl : [w] = value := Option.some.inj hvalue
  rw [← hfp₁] at hlies
  rw [identityBody] at hplaced
  have hheight : 1 + ([0] ++ frameWords fp back [old] [[w]] below).length ≤ stackCapacity := by
    simp only [frameWords, pushedWords, List.length_append, List.length_cons, List.length_nil,
      List.reverse_singleton, List.flatten_cons, List.flatten_nil]
    omega
  refine (hpoised.turns (hload (hlies.below [0]) hheight) hfits hplaced.back).trans fun m₂ h₂ => ?_
  rw [Nat.add_assoc, ← List.length_append] at h₂
  exact @hreturns [w] [0] [old] [w] m₂ rfl rfl rfl h₂

/-- The identity method gives the caller its argument back. -/
theorem identity_answers [LabelUse I] [Semantics I R M] {backend : Backend I}
    (hfits : IdentityFits backend)
    (hload : ∀ {words front rest : List UInt32} {fp w : UInt32}, Lies words fp 12 front [w] rest →
      1 + words.length ≤ stackCapacity →
      Turns (backend.emit identityContext identityLoad { pushed := [.int32] }).code words fp .next
        (w :: words) fp)
    (hkeeps : KeepsConvention backend identityCaller identityContext identityCall identityReturn
      identityEffect returnEffect)
    {w fp : UInt32} {m : M}
    (hm : Poised I m (identityBody backend ++ identityExit backend).length [w] fp) :
    Reaches (Semantics.cycle (identityProgram backend)) m fun m' =>
      Poised I m' (identityCode backend).length [w] fp := by
  have hroom : identityContext.frame.localSpan / 4 + (identityContext.frame.returnBytes / 4 +
      (pushedWords [[w]] ++ []).length + 2) ≤ stackCapacity := Nat.le_of_ble_eq_true rfl
  have hplaced : Placed (identityProgram backend) 0 (identityBody backend) :=
    Placed.of_layout (identityCode backend) rfl rfl hfits.nodup [] (identityBody backend) _
      (List.append_assoc _ _ _)
  rw [identityCode, List.length_append]
  refine identity_returns [] hfits.short hplaced hload (Nat.le_of_ble_eq_true rfl) ?_
  rw [Nat.zero_add]
  exact hkeeps hfits.places (.cons rfl .nil) hroom hm

/-- Memory with one word on the stack. -/
def oneWordStore (w : UInt32) : Store := dropStore.withWord (wordAddress 0) w

theorem holds_oneWordStore (w : UInt32) : (oneWordStore w).memory.Holds [w] := by
  rw [oneWordStore, Store.withWord, toNat_wordAddress (by decide)]
  have hempty : dropStore.memory.Holds [] := trivial
  exact hempty.put_word (by decide)

/-- On both targets a call of the identity method with seven on the stack leaves seven there. -/
theorem calls_keep_convention_identity :
    (∃ m : X86.Machine,
      Poised X86.Instr m (identityBody X86.backend ++ identityExit X86.backend).length [7] 0 ∧
      Reaches (X86.Machine.cycle (identityProgram X86.backend)) m fun m' =>
        Poised X86.Instr m' (identityCode X86.backend).length [7] 0) ∧
    ∃ m : Mips.Machine,
      Poised Mips.Instr m (identityBody Mips.backend ++ identityExit Mips.backend).length [7] 0 ∧
      Reaches (Mips.Machine.cycle (identityProgram Mips.backend)) m fun m' =>
        Poised Mips.Instr m' (identityCode Mips.backend).length [7] 0 := by
  obtain ⟨-, hx86, hmips⟩ := calls_keep_convention identity_simulated
  constructor
  · let site := (identityBody X86.backend ++ identityExit X86.backend).length
    let m : X86.Machine :=
      X86.Machine.setReg { pc := codeAddress site, store := oneWordStore 7 } .esp (stackPointer [7])
    have hm : Poised X86.Instr m site [7] 0 := X86.poised_iff.mpr ⟨rfl, rfl, rfl, holds_oneWordStore 7⟩
    refine ⟨m, hm, identity_answers ?_ (fun hlies hroom => X86.turns_pushSlot hlies hroom) hx86 hm⟩
    exact ⟨Nat.le_of_ble_eq_true rfl, by decide, rfl, rfl⟩
  · let site := (identityBody Mips.backend ++ identityExit Mips.backend).length
    let m : Mips.Machine := Mips.Machine.setReg
      { pc := codeAddress site, npc := codeAddress (site + 1), store := oneWordStore 7 } .sp
      (stackPointer [7])
    have hm : Poised Mips.Instr m site [7] 0 :=
      Mips.poised_iff.mpr ⟨rfl, rfl, rfl, rfl, rfl, holds_oneWordStore 7⟩
    refine ⟨m, hm, identity_answers ?_ (fun hlies hroom => Mips.turns_pushSlot hlies hroom) hmips hm⟩
    exact ⟨Nat.le_of_ble_eq_true rfl, by decide, rfl, rfl⟩

end Identity

end Stencil
