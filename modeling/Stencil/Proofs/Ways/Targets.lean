import Stencil.Proofs.Calls.Targets
import Stencil.Proofs.Mips.Transfers
import Stencil.Proofs.Mips.Ways
import Stencil.Proofs.X86.Ways

/-!
# All ways of calling a method agree on both targets

The templates of calls, of indirect calls and of calls on a receiver count the arguments from different
effects, and those of delegates have a word more under them. Whichever way a method is called, it finds the
same words in the same slots, and nothing but its result is left.
-/

namespace Stencil

open AddressMap Link

/-- On both targets a method runs in the same way whether it is called by its symbol, through a function
pointer, on a receiver or through a delegate. A delegate that is null raises an exception. -/
theorem calls_agree {env : SimEnv} {caller callee : EmitContext} {ret : Instruction} {e' : Effect}
    (h : SimulatedMethod env caller callee ret e') :
    (CallsAgree X86.backend env caller callee ret e' ∧ DelegatesAgree X86.backend env caller callee ret e' ∧
      NullDelegatesEnd X86.backend env caller callee) ∧
    CallsAgree Mips.backend env caller callee ret e' ∧ DelegatesAgree Mips.backend env caller callee ret e' ∧
      NullDelegatesEnd Mips.backend env caller callee :=
  ⟨⟨X86.callsAgree h, X86.delegatesAgree h, X86.nullDelegatesEnd h⟩,
   Mips.callsAgree h, Mips.delegatesAgree h, Mips.nullDelegatesEnd h⟩

/-! ## A delegate of the identity method -/

section Action

def actionType : TypeDescriptor := .delegate 2 "Action"

def actionConstructor : MethodDescriptor :=
  (MethodDescriptor.ofName ⟨3, Nat.succ_pos 2⟩ actionType.id ".ctor").asConstructor

def actionInvoke : MethodDescriptor :=
  { (MethodDescriptor.ofName ⟨4, Nat.succ_pos 3⟩ actionType.id "Invoke").onInstance with
    params := [1], returnType := some 1 }

def actionTable : Table :=
  ((identityTable.addType actionType).addMethod actionConstructor).addMethod actionInvoke

def actionCaller : EmitContext := { identityCaller with tables := actionTable }

def actionEnv : SimEnv := { identityEnv with tables := actionTable }

def loadNothing (position : Nat) : Instruction × Effect :=
  (.placed position .ldnull [], { pushed := [.reference 4] })

def loadIdentity (position : Nat) : Instruction × Effect :=
  ({ Instruction.placed position .ldftn [0, 0, 0, 0] with methodRef := some identityMethod.id },
   { pushed := [.nativeInt 4] })

def makeAction : Instruction × Effect :=
  ({ Instruction.placed 8 .newobj [0, 0, 0, 0] with methodRef := some actionConstructor.id },
   { popped := [.nativeInt 4, .reference 4], pushed := [.nativeInt 4] })

def loadSeven : Instruction × Effect := (.placed 13 .ldcI47 [], { pushed := [.int32] })

def invokeAction (position : Nat) : Instruction × Effect :=
  ({ Instruction.placed position .callvirt [0, 0, 0, 0] with methodRef := some actionInvoke.id },
   { popped := [.int32, .nativeInt 4], pushed := [.int32] })

def callIdentity : Instruction × Effect :=
  ({ Instruction.placed 25 .calli [0, 0, 0, 0] with methodRef := some identityMethod.id },
   { popped := [.nativeInt 4, .int32], pushed := [.int32] })

theorem identity_simulatedMethod :
    SimulatedMethod actionEnv actionCaller identityContext identityReturn returnEffect where
  returns := rfl
  tables := rfl
  pointerSize := rfl
  options := rfl
  framed := rfl
  returned := ⟨[.int32], [], rfl⟩

theorem identity_indirect :
    CallWay actionEnv identityContext.method [[7]] [loadIdentity 19, callIdentity] :=
  have hsignature : actionEnv.tables.resolveMethod callIdentity.1 = .ok identityMethod := by
    rfl
  .indirect rfl rfl rfl hsignature rfl rfl rfl
    ⟨[.nativeInt 4, .int32], [.int32], rfl⟩

theorem identity_delegate (position : Nat) :
    DelegateWay actionEnv identityContext.method (loadNothing 1) (loadIdentity 2) makeAction
      (invokeAction position) where
  loadsNull := rfl
  loadsFunction := rfl
  function := rfl
  creates := rfl
  created := ⟨actionConstructor, actionType, rfl, rfl, rfl⟩
  invokes := rfl
  invoked := by
    have hmethod : actionTable.method? actionInvoke.id = some actionInvoke := rfl
    have htype : actionTable.type? actionType.id = some actionType := rfl
    refine ⟨actionInvoke, actionType, ?_, typeFor_ok.mpr htype, rfl, rfl, rfl⟩
    show Table.require _ _ ((some actionInvoke.id).bind actionTable.method?) = _
    rw [Option.bind_some, hmethod]
    rfl
  accepts := ⟨[.int32, .nativeInt 4], [.int32], rfl⟩

variable {I : Type} [TargetInstr I]

/-- The identity method, then instructions of a caller of it. -/
def actionCode (backend : Backend I) (code : List (Instruction × Effect)) : List I :=
  identityBody backend ++ identityExit backend ++ templates backend actionCaller code

/-- Over a null make a delegate of the identity method and push seven for it. -/
def pushesSeven : List (Instruction × Effect) :=
  [loadNothing 0, loadNothing 1, loadIdentity 2, makeAction, loadSeven]

def invokesDelegate : List (Instruction × Effect) := pushesSeven ++ [invokeAction 14]

/-- Call the identity method through a function pointer. -/
def callsPointer : List (Instruction × Effect) := [loadIdentity 19, callIdentity]

/-- Invoke a delegate, call a function pointer on the result and invoke null on what that leaves. -/
def invokesTwice : List (Instruction × Effect) := invokesDelegate ++ callsPointer ++ [invokeAction 30]

def actionProgram (backend : Backend I) : Program I :=
  { Program.ofTemplate (actionCode backend invokesTwice) with
    symbols := bindAll ∅ (intrinsicSymbols ++ [(identityMethod.symbol, codeAddress 0)]) }

/-- The templates can be linked. -/
structure ActionFits (backend : Backend I) : Prop where
  short : (actionCode backend invokesTwice).length ≤ codeLimit
  nodup : (boundLabels (actionCode backend invokesTwice)).Nodup
  emitted : ∀ pair ∈ invokesTwice, (backend.emit actionCaller pair.1 pair.2).failure = none
  returned : (backend.emit identityContext identityReturn returnEffect).failure = none

theorem ActionFits.wellFormed {backend : Backend I} (h : ActionFits backend) :
    (actionProgram backend).WellFormed := by
  refine Program.wellFormed_of_layout (actionCode backend invokesTwice) rfl rfl h.short
    [(identityMethod.symbol, codeAddress 0)] rfl fun intrinsic => ?_
  cases intrinsic <;> decide

theorem ActionFits.placed {backend : Backend I} (h : ActionFits backend)
    (before : List (Instruction × Effect)) {part after : List (Instruction × Effect)}
    (hparts : invokesTwice = before ++ part ++ after) :
    Placed (actionProgram backend) (actionCode backend before).length
      (templates backend actionCaller part) := by
  refine Placed.of_layout (actionCode backend invokesTwice) rfl rfl h.nodup _ _
    (templates backend actionCaller after) ?_
  rw [hparts]
  simp only [actionCode, templates, List.flatMap_append, List.append_assoc]

theorem ActionFits.body {backend : Backend I} (h : ActionFits backend) :
    Placed (actionProgram backend) 0 (identityBody backend ++ identityExit backend) :=
  Placed.of_layout (actionCode backend invokesTwice) rfl rfl h.nodup [] _ _ rfl

theorem ActionFits.places {backend : Backend I} (h : ActionFits backend) :
    CalleePlaces backend (actionProgram backend) identityContext identityReturn returnEffect 0
      (0 + (identityBody backend).length) (0 + (identityBody backend).length +
        (backend.emit identityContext identityReturn returnEffect).code.length) where
  fits := h.short
  resolves := by
    rw [Program.resolve]
    simp [actionProgram, bindAll, identityContext]
  starts := h.body.front.front
  returns := h.body.back.front
  returned := h.returned
  ends := h.body.back.back

theorem length_actionCode (backend : Backend I) (before part : List (Instruction × Effect)) :
    (actionCode backend (before ++ part)).length =
      (actionCode backend before).length + (templates backend actionCaller part).length := by
  simp only [actionCode, templates, List.flatMap_append, List.length_append, Nat.add_assoc]

/-- The delegate leaves seven, and so does the call through the pointer. Null is reported. -/
theorem action_answers [LabelUse I] [Semantics I R M] {backend : Backend I} (hfits : ActionFits backend)
    (hload : ∀ {words front rest : List UInt32} {fp w : UInt32}, Lies words fp 12 front [w] rest →
      1 + words.length ≤ stackCapacity →
      Turns (backend.emit identityContext identityLoad { pushed := [.int32] }).code words fp .next
        (w :: words) fp)
    (hnull : ∀ {words : List UInt32} {fp : UInt32}, words.length < stackCapacity →
      Turns (templates backend actionCaller [loadNothing 0]) words fp .next (0 :: words) fp)
    (hseven : ∀ {words : List UInt32} {fp : UInt32}, words.length < stackCapacity →
      Turns (templates backend actionCaller [loadSeven]) words fp .next (7 :: words) fp)
    (hcalls : CallsAgree backend actionEnv actionCaller identityContext identityReturn returnEffect)
    (hdelegates : DelegatesAgree backend actionEnv actionCaller identityContext identityReturn returnEffect)
    (hends : NullDelegatesEnd backend actionEnv actionCaller identityContext) {fp : UInt32} {m : M}
    (hm : Poised I m (actionCode backend []).length [] fp) :
    Reaches (Semantics.cycle (actionProgram backend)) m fun m₁ =>
      Poised I m₁ (actionCode backend invokesDelegate).length [7, 0] fp ∧
      Reaches (Semantics.cycle (actionProgram backend)) m₁ fun m₂ =>
        Poised I m₂ (actionCode backend (invokesDelegate ++ callsPointer)).length [7, 0] fp ∧
        Ends (Semantics.cycle (actionProgram backend))
          (.nullReference (codeAddress
            ((actionCode backend (invokesDelegate ++ callsPointer)).length + 3))) m₂ := by
  have hfill : Fill (identityContext.frame.args.map FrameSlot.item) [[7]] := .cons rfl .nil
  have hsublist : [loadNothing 1, loadIdentity 2, makeAction, invokeAction 14].Sublist invokesTwice :=
    .cons _ (.cons_cons _ (.cons_cons _ (.cons_cons _ (.cons _ (.cons_cons _ (List.nil_sublist _))))))
  have hinvokes : Reaches (Semantics.cycle (actionProgram backend)) m fun m₁ =>
      Poised I m₁ (actionCode backend invokesDelegate).length [7, 0] fp := by
    refine (hm.turns (hnull (by decide)) hfits.short (hfits.placed [] rfl)).trans
      fun m₁ h₁ => ?_
    rw [← length_actionCode] at h₁
    refine identity_returns [codeAddress 0, 0] hfits.short hfits.body.front hload (by decide) ?_
    rw [show invokesDelegate = pushesSeven ++ [invokeAction 14] from rfl, length_actionCode]
    refine hdelegates (identity_delegate 14) (fun pair hpair => hfits.emitted pair (hsublist.subset hpair))
      (hfits.placed [loadNothing 0] rfl) (hfits.placed pushesSeven rfl)
      hfits.places hfill (by decide) (fun {m'} hm' => ?_) h₁
    rw [← length_actionCode] at hm'
    have hreaches := hm'.turns (hseven (by decide)) hfits.short
      (hfits.placed [loadNothing 0, loadNothing 1, loadIdentity 2, makeAction] rfl)
    rwa [← length_actionCode] at hreaches
  refine hinvokes.mono fun m₁ h₁ => ⟨h₁, ?_⟩
  have hpointer : Reaches (Semantics.cycle (actionProgram backend)) m₁ fun m₂ =>
      Poised I m₂ (actionCode backend (invokesDelegate ++ callsPointer)).length [7, 0] fp := by
    refine identity_returns [0] hfits.short hfits.body.front hload (by decide) ?_
    rw [length_actionCode]
    exact hcalls identity_indirect
      (fun pair hpair => hfits.emitted pair (List.mem_append_left _ (List.mem_append_right _ hpair)))
      (hfits.placed invokesDelegate rfl) hfits.places hfill (by decide) h₁
  refine hpointer.mono fun m₂ h₂ => ⟨h₂, ?_⟩
  have hargs : Fill (identityContext.frame.args.map FrameSlot.item)
      (delegateArgs identityContext.method 0 [[7]]) := hfill
  exact hends (identity_delegate 30) (hfits.emitted _ (List.mem_append_right _ (List.mem_singleton_self _)))
    hfits.wellFormed (hfits.placed (invokesDelegate ++ callsPointer) rfl) hargs (by decide) h₂

/-- The call of a delegate answers with its argument, and so does an indirect call of the result. Null
invoked on that raises an exception. -/
theorem calls_agree_identity :
    (∃ m : X86.Machine, Poised X86.Instr m (actionCode X86.backend []).length [] 0 ∧
      Reaches (X86.Machine.cycle (actionProgram X86.backend)) m fun m₁ =>
        Poised X86.Instr m₁ (actionCode X86.backend invokesDelegate).length [7, 0] 0 ∧
        Reaches (X86.Machine.cycle (actionProgram X86.backend)) m₁ fun m₂ =>
          Poised X86.Instr m₂ (actionCode X86.backend (invokesDelegate ++ callsPointer)).length [7, 0] 0 ∧
          Ends (X86.Machine.cycle (actionProgram X86.backend))
            (.nullReference (codeAddress
              ((actionCode X86.backend (invokesDelegate ++ callsPointer)).length + 3))) m₂) ∧
    ∃ m : Mips.Machine, Poised Mips.Instr m (actionCode Mips.backend []).length [] 0 ∧
      Reaches (Mips.Machine.cycle (actionProgram Mips.backend)) m fun m₁ =>
        Poised Mips.Instr m₁ (actionCode Mips.backend invokesDelegate).length [7, 0] 0 ∧
        Reaches (Mips.Machine.cycle (actionProgram Mips.backend)) m₁ fun m₂ =>
          Poised Mips.Instr m₂ (actionCode Mips.backend (invokesDelegate ++ callsPointer)).length [7, 0] 0 ∧
          Ends (Mips.Machine.cycle (actionProgram Mips.backend))
            (.nullReference (codeAddress
              ((actionCode Mips.backend (invokesDelegate ++ callsPointer)).length + 3))) m₂ := by
  obtain ⟨⟨hcalls, hdelegates, hends⟩, hcalls', hdelegates', hends'⟩ := calls_agree identity_simulatedMethod
  constructor
  · let m : X86.Machine := X86.Machine.setReg
      { pc := codeAddress (actionCode X86.backend []).length, store := dropStore } .esp (stackPointer [])
    have hm : Poised X86.Instr m (actionCode X86.backend []).length [] 0 :=
      X86.poised_iff.mpr ⟨rfl, rfl, rfl, trivial⟩
    refine ⟨m, hm, action_answers ?_ (fun hlies hroom => X86.turns_pushSlot hlies hroom)
      (X86.turns_pushImm 0) (X86.turns_pushImm 7) hcalls hdelegates hends hm⟩
    exact ⟨Nat.le_of_ble_eq_true rfl, by decide, by decide, rfl⟩
  · let m : Mips.Machine := Mips.Machine.setReg
      { pc := codeAddress (actionCode Mips.backend []).length,
        npc := codeAddress ((actionCode Mips.backend []).length + 1), store := dropStore } .sp
      (stackPointer [])
    have hm : Poised Mips.Instr m (actionCode Mips.backend []).length [] 0 :=
      Mips.poised_iff.mpr ⟨rfl, rfl, rfl, rfl, rfl, trivial⟩
    refine ⟨m, hm, action_answers ?_ (fun hlies hroom => Mips.turns_pushSlot hlies hroom)
      Mips.turns_pushZero (Mips.turns_pushImm 7) hcalls' hdelegates' hends' hm⟩
    exact ⟨Nat.le_of_ble_eq_true rfl, by decide, by decide, rfl⟩

end Action

end Stencil
