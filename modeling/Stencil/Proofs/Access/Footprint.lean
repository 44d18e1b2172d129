import Stencil.Proofs.Execution.Block
import Stencil.Proofs.Machine.Data
import Mathlib.Data.Set.Lattice
import Mathlib.Logic.Function.Basic
import Mathlib.Order.CompletePartialOrder
import Mathlib.Order.Interval.Set.Basic

/-!
# What a run touches

A step leaves a byte alone if it does the same whatever the byte is and does not change it. `Goes` is a
run whose cycles leave every byte alone outside of a footprint; it ends as asked or in a fault. `Runs`
is such a run through a piece of code, seen as a change of registers and store, and follows the
structure of the code.
-/

namespace Stencil

open AddressMap Function Stateful

/-! ## Bytes that a step leaves alone -/

namespace Memory

theorem setByte_byte (m : Memory) (c : Nat) : m.setByte c (m.byte c) = m := by
  unfold setByte byte
  split
  · rename_i hc
    rw [Vector.set_getElem_self]
  · rfl

theorem setByte_comm (m : Memory) {a c : Nat} (h : a ≠ c) (x y : UInt8) :
    (m.setByte a x).setByte c y = (m.setByte c y).setByte a x := by
  unfold setByte
  split
  · split
    · exact congrArg Memory.mk (Vector.set_comm x y h)
    · rfl
  · rfl

theorem put_setByte (m : Memory) {a c n : Nat} (h : c ∉ Set.Ico a (a + n)) (b : UInt8) (value : UInt32) :
    (m.setByte c b).put a value n = (m.put a value n).setByte c b := by
  induction n generalizing m a value with
  | zero => rfl
  | succ n ih =>
    rw [Set.mem_Ico] at h
    have hrest : c ∉ Set.Ico (a + 1) (a + 1 + n) := by
      rw [Set.mem_Ico]
      omega
    rw [put, put, setByte_comm m (by omega : c ≠ a), ih _ hrest]

theorem read_setByte (m : Memory) {a : UInt32} {c n : Nat} (h : c ∉ Set.Ico a.toNat (a.toNat + n))
    (b : UInt8) : (m.setByte c b).read a n = m.read a n := by
  refine read_congr fun d hd hlt => ?_
  by_cases hc : c < memorySize
  · rw [byte_setByte hc, if_neg]
    rintro rfl
    exact h ⟨hd, hlt⟩
  · rw [setByte, dif_neg hc]

end Memory

def Store.withByte (s : Store) (c : Nat) (b : UInt8) : Store := { s with memory := s.memory.setByte c b }

/-- Machines that work on a store. -/
class Storing (M : Type) where
  store : M → Store
  withStore : M → Store → M
  store_withStore : ∀ m s, store (withStore m s) = s
  withStore_store : ∀ m, withStore m (store m) = m

instance : Storing Store where
  store s := s
  withStore _ s := s
  store_withStore _ _ := rfl
  withStore_store _ := rfl

section Blind

variable {M α β : Type}

def mapState (f : M → M) : EStateM.Result Fault M α → EStateM.Result Fault M α
  | .ok a m => .ok a (f m)
  | .error fault m => .error fault (f m)

variable [Storing M]

def withByte (m : M) (c : Nat) (b : UInt8) : M := Storing.withStore m ((Storing.store m).withByte c b)

/-- The step neither reads nor writes a byte that is not touched: with any other byte there it does the
same, and the byte stays. -/
def Blind (touched : Set Nat) (x : EStateM Fault M α) (m : M) : Prop :=
  ∀ c ∉ touched, ∀ b, x (withByte m c b) = mapState (withByte · c b) (x m)

/-- The step answers, and is blind to what is not touched. -/
structure Acts (touched : Set Nat) (x : EStateM Fault M α) (m : M) (a : α) (m' : M) : Prop where
  ok : x m = .ok a m'
  blind : Blind touched x m

variable {touched : Set Nat} {m t m' : M} {x : EStateM Fault M α} {f : α → EStateM Fault M β}

theorem Blind.byte_eq {a : α} (h : Blind touched x m) (hx : x m = .ok a m') {c : Nat} (hc : c ∉ touched) :
    (Storing.store m').memory.byte c = (Storing.store m).memory.byte c := by
  have hself : withByte m c ((Storing.store m).memory.byte c) = m := by
    unfold withByte Store.withByte
    rw [Memory.setByte_byte]
    exact Storing.withStore_store m
  have hsame := h c hc ((Storing.store m).memory.byte c)
  rw [hself, hx] at hsame
  have hm' := congrArg (fun s => (Storing.store s).memory.byte c) (EStateM.Result.ok.inj hsame).2
  simp only [withByte, Storing.store_withStore, Store.withByte] at hm'
  rw [hm']
  by_cases hmemory : c < memorySize
  · rw [Memory.byte_setByte hmemory, if_pos rfl]
  · simp only [Memory.byte, dif_neg hmemory]

theorem Blind.bind {a : α} (hx : Blind touched x m) (hok : x m = .ok a t) (hf : Blind touched (f a) t) :
    Blind touched (x >>= f) m := by
  intro c hc b
  have hx' := hx c hc b
  rw [hok] at hx'
  rw [bind_of_ok hx', bind_of_ok hok, hf c hc b]

namespace Acts

theorem pure (a : α) : Acts touched (pure a : EStateM Fault M α) m a m := ⟨rfl, fun _ _ _ => rfl⟩

theorem bind {a : α} {b : β} (hx : Acts touched x m a t) (hf : Acts touched (f a) t b m') :
    Acts touched (x >>= f) m b m' :=
  ⟨(bind_of_ok hx.ok).trans hf.ok, hx.blind.bind hx.ok hf.blind⟩

end Acts

end Blind

namespace Store

variable {touched : Set Nat} {s : Store} {a : UInt32} {n : Nat}

theorem acts_read {w : UInt32} (hread : s.memory.read a n = .ok w)
    (htouched : Set.Ico a.toNat (a.toNat + n) ⊆ touched) : Acts touched (read a n) s w s := by
  have hok : read a n s = .ok w s := by rw [read, hread]
  refine ⟨hok, fun c hc b => ?_⟩
  have hread' : (Stencil.withByte s c b).memory.read a n = .ok w := by
    rw [← hread]
    exact Memory.read_setByte _ (fun hmem => hc (htouched hmem)) b
  rw [hok, read, hread']
  rfl

def put (s : Store) (a : UInt32) (n : Nat) (w : UInt32) : Store :=
  { s with memory := s.memory.put a.toNat w n }

theorem acts_write (w : UInt32) (hmapped : Memory.mapped a n = true)
    (htouched : Set.Ico a.toNat (a.toNat + n) ⊆ touched) :
    Acts touched (write a n w) s () (s.put a n w) := by
  have hok : ∀ s : Store, write a n w s = .ok () (s.put a n w) := fun s => by
    rw [write, if_pos hmapped]
    rfl
  refine ⟨hok s, fun c hc b => ?_⟩
  rw [hok, hok]
  have hput := Memory.put_setByte s.memory (fun hmem => hc (htouched hmem)) b w
  exact congrArg (fun memory => EStateM.Result.ok () { s with memory }) hput

end Store

/-- The intrinsics that failing checks call, and the faults they end in. -/
inductive Raises : Intrinsic → (UInt32 → Fault) → Prop
  | nullReference : Raises .throwNullReference .nullReference
  | indexOutOfRange : Raises .throwIndexOutOfRange .indexOutOfRange

/-- Such an intrinsic reads the word on top of the stack and nothing else. -/
theorem Raises.stops {intrinsic : Intrinsic} {fault : UInt32 → Fault} (h : Raises intrinsic fault)
    {I : Type} (p : Program I) {touched : Set Nat} {s : Store} {sp w : UInt32} (site : UInt32)
    (hread : s.memory.read sp 4 = .ok w) (htouched : Set.Ico sp.toNat (sp.toNat + 4) ⊆ touched) :
    Blind touched (p.runIntrinsic intrinsic sp site) s ∧
      p.runIntrinsic intrinsic sp site s = .error (fault w) s := by
  have hrun : p.runIntrinsic intrinsic sp site = Store.readWord sp >>= fun w => throw (fault w) := by
    cases h <;> exact congrArg (Store.readWord · >>= _) (UInt32.add_zero sp)
  have hword := Store.acts_read hread htouched
  rw [hrun]
  exact ⟨hword.blind.bind hword.ok fun _ _ _ => rfl, bind_of_ok hword.ok⟩

/-! ## Runs with a footprint -/

section Goes

variable {M : Type} [Storing M]

/-- After some cycles, all blind to what is not touched, the machine is as asked, or the next cycle
faults as allowed. -/
inductive Goes (cycle : EStateM Fault M Unit) (touched : Set Nat) (Q : M → Prop) (E : Fault → M → Prop) :
    M → Prop
  | stop {m : M} (h : Q m) : Goes cycle touched Q E m
  | step {m t : M} (hcycle : Acts touched cycle m () t) (hrest : Goes cycle touched Q E t) :
      Goes cycle touched Q E m
  | fault {m t : M} {fault : Fault} (hblind : Blind touched cycle m) (hcycle : cycle m = .error fault t)
      (h : E fault t) : Goes cycle touched Q E m

/-- The run reaches what is asked and touches nothing else. -/
def ReachesWithin (cycle : EStateM Fault M Unit) (touched : Set Nat) (m : M) (Q : M → Prop) : Prop :=
  Goes cycle touched Q (fun _ _ => False) m

/-- The run ends in a fault as asked and touches nothing else. -/
def EndsWithin (cycle : EStateM Fault M Unit) (touched : Set Nat) (m : M) (E : Fault → M → Prop) : Prop :=
  Goes cycle touched (fun _ => False) E m

variable {cycle : EStateM Fault M Unit} {touched : Set Nat} {P Q : M → Prop} {E E' : Fault → M → Prop}
  {m : M}

namespace Goes

theorem mono (h : Goes cycle touched P E m) (hPQ : ∀ t, P t → Q t) (hE : ∀ fault t, E fault t → E' fault t) :
    Goes cycle touched Q E' m := by
  induction h with
  | stop hP => exact .stop (hPQ _ hP)
  | step hcycle _ ih => exact .step hcycle ih
  | fault hblind hcycle hfault => exact .fault hblind hcycle (hE _ _ hfault)

theorem trans (h : Goes cycle touched P E m) (h' : ∀ t, P t → Goes cycle touched Q E t) :
    Goes cycle touched Q E m := by
  induction h with
  | stop hP => exact h' _ hP
  | step hcycle _ ih => exact .step hcycle ih
  | fault hblind hcycle hfault => exact .fault hblind hcycle hfault

end Goes

/-- What is reached within a footprint is reached, with every byte outside of it as it was. -/
theorem ReachesWithin.reaches (h : ReachesWithin cycle touched m Q) : Reaches cycle m fun m' =>
    Q m' ∧ ∀ c ∉ touched, (Storing.store m').memory.byte c = (Storing.store m).memory.byte c := by
  unfold ReachesWithin at h
  induction h with
  | stop hQ => exact .here ⟨hQ, fun _ _ => rfl⟩
  | step hcycle _ ih =>
    refine .step hcycle.ok (ih.mono fun m' hm' => ⟨hm'.1, fun c hc => ?_⟩)
    rw [hm'.2 c hc, hcycle.blind.byte_eq hcycle.ok hc]
  | fault _ _ hfalse => exact hfalse.elim

end Goes

/-! ## Runs through a piece of code -/

/-- What runs change of a machine: the registers and the store. -/
structure Snapshot (R : Type) where
  regs : R → UInt32
  store : Store

namespace Snapshot

variable {R : Type}

def memory (s : Snapshot R) : Memory := s.store.memory

def put (s : Snapshot R) (a : UInt32) (n : Nat) (w : UInt32) : Snapshot R :=
  { s with store := s.store.put a n w }

variable [DecidableEq R]

def set (s : Snapshot R) (r : R) (w : UInt32) : Snapshot R := { s with regs := update s.regs r w }

@[simp] theorem set_self (s : Snapshot R) (r : R) (w : UInt32) : (s.set r w).regs r = w := update_self ..

@[simp] theorem set_of_ne (s : Snapshot R) {r r' : R} (h : r' ≠ r) (w : UInt32) :
    (s.set r w).regs r' = s.regs r' := update_of_ne h ..

@[simp] theorem set_memory (s : Snapshot R) (r : R) (w : UInt32) : (s.set r w).memory = s.memory := rfl

omit [DecidableEq R] in
@[simp] theorem put_regs (s : Snapshot R) (a : UInt32) (n : Nat) (w : UInt32) :
    (s.put a n w).regs = s.regs := rfl

omit [DecidableEq R] in
@[simp] theorem put_memory (s : Snapshot R) (a : UInt32) (n : Nat) (w : UInt32) :
    (s.put a n w).memory = s.memory.put a.toNat w n := rfl

end Snapshot

/-- Machines that run instructions on registers and a store. -/
class Runner (I : Type) (R M : outParam Type) where
  cycle : Program I → EStateM Fault M Unit
  reg : M → R → UInt32
  /-- The machine is about to run the instruction of this index. -/
  At : M → Nat → Prop
  /-- The stack pointer. -/
  sp : R
  /-- Accesses to misaligned addresses fault. -/
  strict : Bool

section Runs

variable {I R M : Type} [Runner I R M] [Storing M]

def snap (I : Type) {R M : Type} [Runner I R M] [Storing M] (m : M) : Snapshot R :=
  ⟨Runner.reg I m, Storing.store m⟩

/-- Where the instruction lies, the machine goes past it and has changed as given. -/
def StepsWithin (p : Program I) (touched : Set Nat) (instr : I) (s s' : Snapshot R) : Prop :=
  ∀ (k : Nat) (m : M), p.code[k]? = some instr → Runner.At I m k → snap I m = s →
    ∃ m', Acts touched (Runner.cycle p) m () m' ∧ Runner.At I m' (k + 1) ∧ snap I m' = s'

def FaultsWithin (p : Program I) (touched : Set Nat) (instr : I) (s : Snapshot R) (fault : Fault)
    (s' : Snapshot R) : Prop :=
  ∀ (k : Nat) (m : M), p.code[k]? = some instr → Runner.At I m k → snap I m = s →
    ∃ m', Blind touched (Runner.cycle p) m ∧ Runner.cycle p m = .error fault m' ∧ snap I m' = s'

variable [TargetInstr I]

/-- Where the code is placed, the machine goes past its end as asked, or faults as allowed. -/
def Runs (p : Program I) (touched : Set Nat) (code : List I) (s : Snapshot R) (Q : Snapshot R → Prop)
    (E : Fault → Snapshot R → Prop) : Prop :=
  ∀ (base : Nat) (m : M), Placed p base code → Runner.At I m base → snap I m = s →
    Goes (Runner.cycle p) touched (fun m' => Runner.At I m' (base + code.length) ∧ Q (snap I m'))
      (fun fault m' => E fault (snap I m')) m

/-- Where the code is placed, the machine goes to the label and has changed as given. -/
def JumpsWithin (p : Program I) (touched : Set Nat) (code : List I) (s : Snapshot R) (l : Label)
    (s' : Snapshot R) : Prop :=
  ∀ (base target : Nat) (m : M), Placed p base code → p.labels[l]? = some target → Runner.At I m base →
    snap I m = s → Goes (Runner.cycle p) touched (fun m' => Runner.At I m' target ∧ snap I m' = s')
      (fun _ _ => False) m

namespace Runs

variable {p : Program I} {touched : Set Nat} {code code' : List I} {instr : I} {s s' : Snapshot R}
  {P Q : Snapshot R → Prop} {E : Fault → Snapshot R → Prop}

theorem nil (h : Q s) : Runs p touched ([] : List I) s Q E := by
  rintro base m - hat rfl
  exact .stop ⟨hat, h⟩

theorem mono (h : Runs p touched code s P E) (hPQ : ∀ s', P s' → Q s') : Runs p touched code s Q E := by
  intro base m hplaced hat hm
  exact (h base m hplaced hat hm).mono (fun t ht => ⟨ht.1, hPQ _ ht.2⟩) fun _ _ hfault => hfault

theorem append (h : Runs p touched code s P E) (h' : ∀ s', P s' → Runs p touched code' s' Q E) :
    Runs p touched (code ++ code') s Q E := by
  intro base m hplaced hat hm
  refine (h base m hplaced.front hat hm).trans fun t ht => ?_
  rw [List.length_append, ← Nat.add_assoc]
  exact h' _ ht.2 _ t hplaced.back ht.1 rfl

theorem cons (h : StepsWithin p touched instr s s') (h' : Runs p touched code s' Q E) :
    Runs p touched (instr :: code) s Q E := by
  intro base m hplaced hat hm
  obtain ⟨m', hcycle, hat', hm'⟩ := h base m (hplaced.fetch 0 instr rfl) hat hm
  have hback : Placed p (base + [instr].length) code := Placed.back hplaced
  refine .step hcycle ?_
  rw [List.length_cons, Nat.add_comm code.length, ← Nat.add_assoc]
  exact h' _ m' hback hat' hm'

theorem one (h : StepsWithin p touched instr s s') (hQ : Q s') : Runs p touched [instr] s Q E := cons h (nil hQ)

theorem fault {fault : Fault} (h : FaultsWithin p touched instr s fault s') (hE : E fault s') :
    Runs p touched (instr :: code) s Q E := by
  intro base m hplaced hat hm
  obtain ⟨m', hblind, hcycle, rfl⟩ := h base m (hplaced.fetch 0 instr rfl) hat hm
  exact .fault hblind hcycle hE

/-- A jump lands at a label of the code that follows. -/
theorem land [LabelUse I] {l : Label} (skipped : List I) (h : JumpsWithin p touched code s l s')
    (h' : Runs p touched (TargetInstr.label l :: code') s' Q E) :
    Runs p touched (code ++ (skipped ++ TargetInstr.label l :: code')) s Q E := by
  intro base m hplaced hat hm
  have hback := hplaced.back.back
  have htarget := hback.labels 0 _ l rfl (LabelUse.asLabel?_label l)
  refine ((h base _ m hplaced.front htarget hat hm).mono (fun _ ht => ht)
    fun _ _ hfalse => hfalse.elim).trans fun t ht => ?_
  rw [List.length_append, List.length_append, ← Nat.add_assoc, ← Nat.add_assoc]
  exact h' _ t hback ht.1 ht.2

theorem countUp (f : Nat → List I) (Inv : Nat → Snapshot R → Prop) {n : Nat}
    (hstep : ∀ k < n, ∀ s, Inv k s → Runs p touched (f k) s (Inv (k + 1)) E) (h : Inv 0 s) :
    Runs p touched ((List.range n).flatMap f) s (Inv n) E := by
  induction n with
  | zero => exact nil h
  | succ n ih =>
    rw [List.range_succ, List.flatMap_append, List.flatMap_singleton]
    exact (ih fun k hk => hstep k (by omega)).append (hstep n (by omega))

theorem countDown (f : Nat → List I) (Inv : Nat → Snapshot R → Prop) {n : Nat}
    (hstep : ∀ k < n, ∀ s, Inv (k + 1) s → Runs p touched (f k) s (Inv k) E) (h : Inv n s) :
    Runs p touched ((List.range n).reverse.flatMap f) s (Inv 0) E := by
  induction n generalizing s with
  | zero => exact nil h
  | succ n ih =>
    rw [List.range_succ, List.reverse_append, List.reverse_singleton, List.singleton_append,
      List.flatMap_cons]
    exact (hstep n (by omega) s h).append fun s' hs' => ih (fun k hk => hstep k (by omega)) hs'

end Runs

end Runs

end Stencil
