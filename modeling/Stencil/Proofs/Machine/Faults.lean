import Stencil.Machine.Invocation
import Stencil.Proofs.Labels.Basic

/-!
# Faults of runs

Which faults a program ends with is put together from its parts (`OnlyFaults`). The store and the intrinsics
know nothing of labels, symbols and alignment (`Fault.Plain`), so what remains for a machine is where its
instructions go, what they mention and what they access (`Allows`). Exceptions are left to the intrinsics
(`Fault.Mechanical`), which report the word at the stack pointer (`Program.runIntrinsic_reports`).
-/

namespace Stencil

open Stateful

/-- A fault that is not about a label, a symbol or the alignment of an address. -/
def Fault.Plain : Fault → Prop
  | .unboundLabel _ | .unknownSymbol _ | .unaligned _ => False
  | _ => True

/-- A fault of an access to memory, of a division, or for want of an instruction. -/
def Fault.Mechanical : Fault → Prop
  | .memory _ | .divide | .invalidInstruction _ => True
  | _ => False

theorem Fault.Mechanical.plain {fault : Fault} (h : fault.Mechanical) : fault.Plain := by
  cases fault <;> trivial

/-- The intrinsic that raises an exception, and the address that is reported. -/
def Fault.raised? : Fault → Option (Intrinsic × UInt32)
  | .nullReference site => some (.throwNullReference, site)
  | .indexOutOfRange site => some (.throwIndexOutOfRange, site)
  | .invalidCast site => some (.throwInvalidCast, site)
  | _ => none

theorem Fault.Mechanical.raised? {fault : Fault} (h : fault.Mechanical) : fault.raised? = none := by
  cases fault <;> first | rfl | exact h.elim

/-- From this state the program ends with faults that `E` allows only. -/
def OnlyFaultsAt {σ α : Type} (E : Fault → σ → Prop) (x : EStateM Fault σ α) (s : σ) : Prop :=
  ∀ fault s', x s = .error fault s' → E fault s'

/-- The program ends with faults that `E` allows only. -/
def OnlyFaults {σ α : Type} (E : Fault → σ → Prop) (x : EStateM Fault σ α) : Prop := ∀ s, OnlyFaultsAt E x s

theorem OnlyFaultsAt.bind {σ α β : Type} {E : Fault → σ → Prop} {x : EStateM Fault σ α}
    {f : α → EStateM Fault σ β} {s : σ} (hx : OnlyFaultsAt E x s)
    (hf : ∀ a t, x s = .ok a t → OnlyFaultsAt E (f a) t) : OnlyFaultsAt E (x >>= f) s := by
  intro fault s' h
  rcases bind_eq_error.mp h with h | ⟨a, t, ha, h⟩
  · exact hx fault s' h
  · exact hf a t ha fault s' h

namespace OnlyFaults

variable {σ α β : Type} {E E' : Fault → σ → Prop}

theorem mono {x : EStateM Fault σ α} (h : OnlyFaults E x) (hE : ∀ fault s, E fault s → E' fault s) :
    OnlyFaults E' x := fun s fault s' heq => hE fault s' (h s fault s' heq)

theorem of_ok {x : EStateM Fault σ α} (h : ∀ s, ∃ a t, x s = .ok a t) : OnlyFaults E x := by
  intro s fault s' heq
  obtain ⟨a, t, ha⟩ := h s
  cases ha.symm.trans heq

theorem pure (a : α) : OnlyFaults E (pure a : EStateM Fault σ α) := .of_ok fun s => ⟨a, s, rfl⟩

theorem throw {fault : Fault} (h : ∀ s, E fault s) : OnlyFaults E (throw fault : EStateM Fault σ α) := by
  intro s fault' s' heq
  cases heq
  exact h s

theorem bind {x : EStateM Fault σ α} {f : α → EStateM Fault σ β} (hx : OnlyFaults E x)
    (hf : ∀ a, OnlyFaults E (f a)) : OnlyFaults E (x >>= f) :=
  fun s => .bind (hx s) fun a t _ => hf a t

theorem modify (f : σ → σ) : OnlyFaults E (modify f : EStateM Fault σ PUnit) := .of_ok fun s => ⟨_, f s, rfl⟩

theorem get : OnlyFaults E (get : EStateM Fault σ σ) := .of_ok fun s => ⟨s, s, rfl⟩

theorem ite {p : Prop} [Decidable p] {x y : EStateM Fault σ α} (hx : OnlyFaults E x)
    (hy : OnlyFaults E y) : OnlyFaults E (if p then x else y) := by
  split
  · exact hx
  · exact hy

theorem forM {f : α → EStateM Fault σ PUnit} (hf : ∀ a, OnlyFaults E (f a)) (as : List α) :
    OnlyFaults E (as.forM f) := by
  induction as with
  | nil => exact .pure _
  | cons a as ih => exact .bind (hf a) fun _ => ih

theorem mapM {f : α → EStateM Fault σ β} (hf : ∀ a, OnlyFaults E (f a)) (as : List α) :
    OnlyFaults E (as.mapM f) := by
  induction as with
  | nil => exact .pure _
  | cons a as ih =>
    rw [List.mapM_cons]
    exact .bind (hf a) fun _ => .bind ih fun _ => .pure _

end OnlyFaults

/-! ## The store -/

/-- Work on the store has plain faults. -/
abbrev PlainFaults {α : Type} (x : StoreM α) : Prop := OnlyFaults (fun fault _ => fault.Plain) x

/-- Work on the store has mechanical faults. -/
abbrev MechanicalFaults {α : Type} (x : StoreM α) : Prop := OnlyFaults (fun fault _ => fault.Mechanical) x

theorem MechanicalFaults.plain {α : Type} {x : StoreM α} (h : MechanicalFaults x) : PlainFaults x :=
  h.mono fun _ _ => Fault.Mechanical.plain

theorem Store.read_faults (address : UInt32) (count : Nat) : MechanicalFaults (Store.read address count) := by
  intro s fault s' h
  unfold Store.read Memory.read at h
  split at h
  · cases h
  · rename_i fault hread
    split at hread
    · cases hread
    · cases hread
      cases h
      trivial

theorem Store.write_faults (address : UInt32) (count : Nat) (value : UInt32) :
    MechanicalFaults (Store.write address count value) := by
  intro s fault s' h
  unfold Store.write at h
  split at h <;> cases h
  trivial

theorem Store.clear_faults (address : UInt32) (count : Nat) : MechanicalFaults (Store.clear address count) := by
  intro s fault s' h
  unfold Store.clear at h
  split at h <;> cases h
  trivial

theorem Store.allocate_faults (size : UInt32) : MechanicalFaults (Store.allocate size) := by
  refine .bind .get fun s => .ite ?_ (.pure _)
  exact .bind (Store.clear_faults _ _) fun _ => .bind (.modify _) fun _ => .pure _

namespace Program

variable {I : Type} (p : Program I)

theorem typeInfoAt_faults (descriptor : UInt32) : MechanicalFaults (p.typeInfoAt descriptor) := by
  unfold typeInfoAt
  split
  · exact .pure _
  · exact .throw fun _ => trivial

theorem newObject_faults (descriptor : UInt32) : MechanicalFaults (p.newObject descriptor) := by
  refine .bind (p.typeInfoAt_faults _) fun _ => .bind (Store.allocate_faults _) fun _ => ?_
  exact .ite (.bind (Store.write_faults _ _ _) fun _ => .pure _) (.pure _)

theorem newArray_faults (descriptor length : UInt32) : MechanicalFaults (p.newArray descriptor length) := by
  refine .bind (p.typeInfoAt_faults _) fun info => ?_
  split
  · exact .pure _
  · refine .bind (Store.allocate_faults _) fun _ => .ite ?_ (.pure _)
    exact .bind (Store.write_faults _ _ _) fun _ => .bind (Store.write_faults _ _ _) fun _ => .pure _

theorem runIntrinsic_faults (intrinsic : Intrinsic) (sp site : UInt32) :
    PlainFaults (p.runIntrinsic intrinsic sp site) := by
  have hread := fun address => (Store.read_faults address 4).plain
  have hwrite := fun address value => (Store.write_faults address 4 value).plain
  cases intrinsic with
  | callSite => exact .pure _
  | throwNullReference | throwIndexOutOfRange | throwInvalidCast | throwObject | halt =>
    exact .bind (hread _) fun _ => .throw fun _ => trivial
  | release => exact .bind (hread _) fun _ => .bind (.modify _) fun _ => .pure _
  | newObject =>
    exact .bind (hread _) fun _ => .bind (p.newObject_faults _).plain fun _ =>
      .bind (hwrite _ _) fun _ => .pure _
  | newArray =>
    exact .bind (hread _) fun _ => .bind (hread _) fun _ =>
      .bind (p.newArray_faults _ _).plain fun _ => .bind (hwrite _ _) fun _ => .pure _

/-- If the fault is an exception, the intrinsic raises it, and it reports the word at the stack pointer. -/
def Reports (intrinsic : Intrinsic) (sp : UInt32) (store : Store) (fault : Fault) : Prop :=
  ∀ raised site, fault.raised? = some (raised, site) → raised = intrinsic ∧ store.memory.read sp 4 = .ok site

theorem runIntrinsic_reports (intrinsic : Intrinsic) (sp site : UInt32) (store : Store) :
    OnlyFaultsAt (fun fault _ => Reports intrinsic sp store fault) (p.runIntrinsic intrinsic sp site) store := by
  let E : Fault → Store → Prop := fun fault _ => Reports intrinsic sp store fault
  have hquiet : ∀ {fault : Fault}, fault.raised? = none → ∀ s, E fault s := fun hnone _ raised site hsome => by
    rw [hnone] at hsome
    cases hsome
  have hmechanical : ∀ {α : Type} {x : StoreM α}, MechanicalFaults x → OnlyFaults E x := fun hx =>
    hx.mono fun _ s h => hquiet h.raised? s
  have hread := fun address => hmechanical (Store.read_faults address 4)
  have hwrite := fun address value => hmechanical (Store.write_faults address 4 value)
  -- the argument of an intrinsic without a return slot lies at the stack pointer
  have hargument : ∀ {w : UInt32} {s : Store}, Store.readWord (sp + 0) store = .ok w s →
      store.memory.read sp 4 = .ok w := by
    intro w s h
    unfold Store.readWord Store.read at h
    rw [UInt32.add_zero] at h
    split at h
    · rename_i value hvalue
      cases h
      exact hvalue
    · cases h
  cases intrinsic with
  | callSite => exact OnlyFaults.pure _ store
  | throwNullReference | throwIndexOutOfRange | throwInvalidCast =>
    refine .bind (hread _ store) fun w s hw fault s' hthrow raised site hraised => ?_
    cases hthrow
    cases hraised
    exact ⟨rfl, hargument hw⟩
  | throwObject | halt => exact OnlyFaults.bind (hread _) (fun _ => .throw (hquiet rfl)) store
  | release => exact OnlyFaults.bind (hread _) (fun _ => .bind (.modify _) fun _ => .pure _) store
  | newObject =>
    exact OnlyFaults.bind (hread _) (fun _ => .bind (hmechanical (p.newObject_faults _)) fun _ =>
      .bind (hwrite _ _) fun _ => .pure _) store
  | newArray =>
    exact OnlyFaults.bind (hread _) (fun _ => .bind (hread _) fun _ =>
      .bind (hmechanical (p.newArray_faults _ _)) fun _ => .bind (hwrite _ _) fun _ => .pure _) store

def HasLabel (l : Label) : Prop := ∃ address, p.labelAddress l = .ok address

def Resolves (symbol : Symbol) : Prop := ∃ address, p.resolve symbol = .ok address

end Program

/-! ## Machines -/

section Machines

variable {I M : Type} (p : Program I) (E : Fault → M → Prop)

/-- The label is known, or `E` allows that it is not. -/
def AllowsLabel (l : Label) : Prop := p.HasLabel l ∨ ∀ m, E (.unboundLabel l) m

/-- The symbol is known, or `E` allows that it is not. -/
def AllowsSymbol (s : Symbol) : Prop := p.Resolves s ∨ ∀ m, E (.unknownSymbol s) m

/-- All mechanical faults are allowed, and those for want of the labels and symbols of an instruction. -/
structure AllowsInstr [TargetInstr I] [LabelUse I] (instr : I) : Prop where
  mechanical : ∀ {fault : Fault} {m : M}, fault.Mechanical → E fault m
  label : ∀ {l : Label}, LabelUse.uses? instr = some l → AllowsLabel p E l
  symbol : ∀ {s : Symbol}, s ∈ TargetInstr.symbols instr → AllowsSymbol p E s

/-- This holds of all the instructions of a program, and all plain faults are allowed. -/
structure Allows [TargetInstr I] [LabelUse I] : Prop where
  plain : ∀ {fault : Fault} {m : M}, fault.Plain → E fault m
  instr : ∀ {index : Nat} {instr : I}, p.code[index]? = some instr → AllowsInstr p E instr

variable {p E} in
theorem Allows.mechanical [TargetInstr I] [LabelUse I] (h : Allows p E) {fault : Fault} {m : M}
    (hfault : fault.Mechanical) : E fault m := h.plain hfault.plain

end Machines

end Stencil
