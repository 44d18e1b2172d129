import Stencil.Proofs.Access.Footprint
import Stencil.Proofs.Access.Values

/-!
# Values copied to and from the stack

What it means that words were pushed, and that bytes were stored, with everything else unchanged. Both
grow one step at a time, so they are the invariants of the unrolled loops that move a value.
-/

namespace Stencil

open AddressMap

variable {R : Type} [DecidableEq R] {sp r : R} {scratch : List R} {s t s' : Snapshot R}

/-- So many words below the stack pointer are mapped. -/
def Room (sp : UInt32) (count : Nat) : Prop :=
  Memory.mapped (sp - UInt32.ofNat (4 * count)) (4 * count) = true

theorem Room.toNat {a : UInt32} {count : Nat} (h : Room a count) :
    (a - UInt32.ofNat (4 * count)).toNat + 4 * count = a.toNat ∧ a.toNat ≤ 0x400000 ∧
      0x1000 + 4 * count ≤ a.toNat := by
  obtain ⟨hlow, hhigh⟩ := Memory.mapped_iff.mp h
  have hsum := toNat_add_ofNat (n := 4 * count) (show (a - UInt32.ofNat (4 * count)).toNat + _ < _ by omega)
  rw [UInt32.sub_add_cancel] at hsum
  omega

theorem Room.mono {a : UInt32} {count k : Nat} (h : Room a count) (hk : k ≤ count) : Room a k := by
  obtain ⟨-, hhigh, hlow⟩ := h.toNat
  have hplace := toNat_sub_ofNat (a := a) (n := 4 * k) (by omega)
  exact Memory.mapped_iff.mpr (by omega)

theorem Room.one {a : UInt32} (hlow : 0x1004 ≤ a.toNat) (hhigh : a.toNat ≤ 0x400000) : Room a 1 := by
  have hplace := toNat_sub_ofNat (a := a) (n := 4 * 1) (by omega)
  exact Memory.mapped_iff.mpr (by omega)

theorem Room.slot {a : UInt32} (h : Room a 1) :
    Set.Ico (a - 4).toNat ((a - 4).toNat + 4) = Set.Ico (a.toNat - 4) a.toNat := by
  have hplace : (a - 4).toNat + 4 = a.toNat := h.toNat.1
  rw [hplace, ← hplace, Nat.add_sub_cancel]

/-- Nothing has changed but scratch registers. -/
structure Scratched (scratch : List R) (s s' : Snapshot R) : Prop where
  regs : ∀ r, r ∉ scratch → s'.regs r = s.regs r
  store : s'.store = s.store

namespace Scratched

omit [DecidableEq R] in
theorem refl : Scratched scratch s s := ⟨fun _ _ => rfl, rfl⟩

omit [DecidableEq R] in
theorem trans (h : Scratched scratch s t) (h' : Scratched scratch t s') : Scratched scratch s s' :=
  ⟨fun r hr => (h'.regs r hr).trans (h.regs r hr), h'.store.trans h.store⟩

omit [DecidableEq R] in
theorem memory_eq (h : Scratched scratch s s') : s'.memory = s.memory := congrArg Store.memory h.store

theorem set (h : Scratched scratch s t) (hr : r ∈ scratch) (w : UInt32) : Scratched scratch s (t.set r w) where
  regs r' hr' := by
    rw [Snapshot.set_of_ne, h.regs r' hr']
    rintro rfl
    exact hr' hr
  store := h.store

end Scratched

omit [DecidableEq R] in
theorem Scratched.mono {scratch' : List R} (h : Scratched scratch s s') (hsub : scratch ⊆ scratch') :
    Scratched scratch' s s' := ⟨fun r hr => h.regs r fun hmem => hr (hsub hmem), h.store⟩

/-- The fault is of the kind. Nothing has changed but registers and some bytes. -/
def Raised (fault : UInt32 → Fault) (changed : Set Nat) (s : Snapshot R) (raised : Fault) (s' : Snapshot R) :
    Prop :=
  (∃ site, raised = fault site) ∧ s'.store = { s.store with memory := s'.memory } ∧
    ∀ c ∉ changed, s'.memory.byte c = s.memory.byte c

omit [DecidableEq R] in
theorem Raised.after {fault : UInt32 → Fault} {changed changed' : Set Nat} {raised : Fault}
    (h : s.store = t.store) (h' : Raised fault changed t raised s') (hsub : changed ⊆ changed') :
    Raised fault changed' s raised s' := by
  obtain ⟨hsite, hheap, hkept⟩ := h'
  refine ⟨hsite, by rw [hheap, h], fun c hc => ?_⟩
  rw [hkept c fun hmem => hc (hsub hmem), Snapshot.memory, ← h, Snapshot.memory]

/-! ## Pushed words -/

/-- The words lie at the stack pointer. Nothing else has changed but the scratch registers. -/
structure Pushed (sp : R) (scratch : List R) (words : List UInt32) (s s' : Snapshot R) : Prop where
  pointer : s'.regs sp = s.regs sp - UInt32.ofNat (4 * words.length)
  regs : ∀ r, r ≠ sp → r ∉ scratch → s'.regs r = s.regs r
  words : s'.memory.wordsAt (s'.regs sp).toNat words.length = words
  kept : ∀ c ∉ Set.Ico (s'.regs sp).toNat (s.regs sp).toNat, s'.memory.byte c = s.memory.byte c
  heap : s'.store = { s.store with memory := s'.memory }

namespace Pushed

variable {words words' : List UInt32}

omit [DecidableEq R] in
theorem nil : Pushed sp scratch [] s s :=
  ⟨(UInt32.sub_zero _).symm, fun _ _ _ => rfl, rfl, fun _ _ => rfl, rfl⟩

omit [DecidableEq R] in
/-- Scratch registers may change before the words are pushed. -/
theorem after (h : Scratched scratch s t) (h' : Pushed sp scratch words t s') (hsp : sp ∉ scratch) :
    Pushed sp scratch words s s' where
  pointer := by rw [h'.pointer, h.regs sp hsp]
  regs r hr hscratch := by rw [h'.regs r hr hscratch, h.regs r hscratch]
  words := h'.words
  kept c hc := by
    rw [← h.regs sp hsp] at hc
    rw [h'.kept c hc, Snapshot.memory, h.store, Snapshot.memory]
  heap := by rw [h'.heap, h.store]

omit [DecidableEq R] in
theorem mono {scratch' : List R} (h : Pushed sp scratch words s s') (hsub : scratch ⊆ scratch') :
    Pushed sp scratch' words s s' :=
  ⟨h.pointer, fun r hr hscratch => h.regs r hr fun hmem => hscratch (hsub hmem), h.words, h.kept, h.heap⟩

theorem one {w : UInt32} (hroom : Room (s.regs sp) 1) :
    Pushed sp scratch [w] s ((s.put (s.regs sp - 4) 4 w).set sp (s.regs sp - 4)) := by
  obtain ⟨hlow, hhigh, -⟩ := hroom.toNat
  have hfour : UInt32.ofNat (4 * 1) = 4 := rfl
  rw [hfour] at hlow
  have hfits : (s.regs sp - 4).toNat + 4 ≤ memorySize := by
    show _ ≤ 0x400000
    omega
  refine ⟨?_, fun r hr _ => ?_, ?_, fun c hc => ?_, rfl⟩
  · rw [Snapshot.set_self]
    rfl
  · rw [Snapshot.set_of_ne _ hr, Snapshot.put_regs]
  · rw [Snapshot.set_self, Snapshot.set_memory, Snapshot.put_memory]
    exact Memory.wordsAt_put w 0 hfits
  · rw [Snapshot.set_self, Set.mem_Ico] at hc
    rw [Snapshot.set_memory, Snapshot.put_memory]
    rcases Nat.lt_or_ge c (s.regs sp - 4).toNat with hlt | hge
    · exact Memory.byte_put_of_lt w hfits hlt
    · exact Memory.byte_put_of_ge w hfits (by omega)

omit [DecidableEq R] in
theorem append (h : Pushed sp scratch words s t) (h' : Pushed sp scratch words' t s')
    (hroom : Room (s.regs sp) (words'.length + words.length)) :
    Pushed sp scratch (words' ++ words) s s' := by
  obtain ⟨-, hhigh, hlow⟩ := hroom.toNat
  have hpointer : s'.regs sp = s.regs sp - UInt32.ofNat (4 * (words' ++ words).length) := by
    rw [h'.pointer, h.pointer, List.length_append, Nat.mul_add, UInt32.ofNat_add, sub_sub, UInt32.add_comm]
  have ht : (t.regs sp).toNat = (s.regs sp).toNat - 4 * words.length := by
    rw [h.pointer, toNat_sub_ofNat (by omega)]
  have hs' : (s'.regs sp).toNat = (s.regs sp).toNat - 4 * (words'.length + words.length) := by
    rw [hpointer, List.length_append, toNat_sub_ofNat (by omega)]
  refine ⟨hpointer, fun r hr hscratch => ?_, ?_, fun c hc => ?_, ?_⟩
  · rw [h'.regs r hr hscratch, h.regs r hr hscratch]
  · -- the first words lie where they lay, above the ones that were pushed later
    have hplace : (s'.regs sp).toNat + 4 * words'.length = (t.regs sp).toNat := by omega
    have hkept : s'.memory.wordsAt (t.regs sp).toNat words.length =
        t.memory.wordsAt (t.regs sp).toNat words.length := by
      refine Memory.wordsAt_congr fun c hc _ => h'.kept c ?_
      rw [Set.mem_Ico]
      omega
    rw [List.length_append, Memory.wordsAt_add, h'.words, hplace, hkept, h.words]
  · rw [Set.mem_Ico] at hc
    rw [h'.kept c (by rw [Set.mem_Ico]; omega), h.kept c (by rw [Set.mem_Ico]; omega)]
  · rw [h'.heap, h.heap]

omit [DecidableEq R] in
/-- The only word that was pushed is read at the stack pointer. -/
theorem top {w : UInt32} (h : Pushed sp scratch [w] s s') (hroom : Room (s.regs sp) 1) :
    (s'.regs sp).toNat + 4 = (s.regs sp).toNat ∧ s'.memory.read (s'.regs sp) 4 = .ok w := by
  have hmapped : Memory.mapped (s'.regs sp) 4 = true := by
    rw [h.pointer]
    exact hroom
  refine ⟨by rw [h.pointer]; exact hroom.toNat.1, ?_⟩
  rw [Memory.read_eq_ofNat hmapped]
  exact congrArg Except.ok (List.cons.inj h.words).1

omit [DecidableEq R] in
theorem raised {w : UInt32} (h : Pushed sp scratch [w] s t) (hroom : Room (s.regs sp) 1)
    (fault : UInt32 → Fault) (hstore : s'.store = t.store) :
    Raised fault (Set.Ico ((s.regs sp).toNat - 4) (s.regs sp).toNat) s (fault w) s' := by
  have hmemory : s'.memory = t.memory := congrArg Store.memory hstore
  have hplace := (h.top hroom).1
  refine ⟨⟨w, rfl⟩, by rw [hstore, hmemory, h.heap], fun c hc => ?_⟩
  rw [hmemory]
  refine h.kept c ?_
  rwa [show (t.regs sp).toNat = (s.regs sp).toNat - 4 by omega]

end Pushed

/-- A value may be pushed: it is mapped, there is room for its words apart from it, and both may be
touched. -/
structure Pushable (sp : R) (touched : Set Nat) (a : UInt32) (storage : Nat) (s : Snapshot R) : Prop where
  mapped : Memory.mapped a storage = true
  value : Set.Ico a.toNat (a.toNat + storage) ⊆ touched
  room : Room (s.regs sp) ((storage + 3) / 4)
  stack : Set.Ico ((s.regs sp).toNat - 4 * ((storage + 3) / 4)) (s.regs sp).toNat ⊆ touched
  disjoint : Disjoint (Set.Ico a.toNat (a.toNat + storage))
    (Set.Ico ((s.regs sp).toNat - 4 * ((storage + 3) / 4)) (s.regs sp).toNat)

section Loop

variable {I M : Type} [Runner I R M] [Storing M] [TargetInstr I] {p : Program I} {touched : Set Nat}
  {E : Fault → Snapshot R → Prop}

omit [DecidableEq R] in
theorem Runs.pushWords (f : Nat → List I) {signed : Bool} {a storage : Nat}
    (hsigned : signed = true → storage < 4) (hroom : Room (s.regs sp) ((storage + 3) / 4))
    (hdisjoint : Disjoint (Set.Ico a (a + storage))
      (Set.Ico ((s.regs sp).toNat - 4 * ((storage + 3) / 4)) (s.regs sp).toNat))
    (hstep : ∀ k < (storage + 3) / 4, ∀ t : Snapshot R,
      (t.regs sp).toNat + 4 * ((storage + 3) / 4 - (k + 1)) = (s.regs sp).toNat →
      (∀ r, r ≠ sp → r ∉ scratch → t.regs r = s.regs r) →
      Runs p touched (f k) t (Pushed sp scratch [UInt32.ofInt (extended signed (min (storage - 4 * k) 4)
        (t.memory.valueAt (a + 4 * k) (min (storage - 4 * k) 4)))] t) E) :
    Runs p touched ((List.range ((storage + 3) / 4)).reverse.flatMap f) s
      (Pushed sp scratch
        (Meaning.Value.ofInt ((storage + 3) / 4) (extended signed storage (s.memory.valueAt a storage))) s)
      E := by
  obtain ⟨-, -, hdeep⟩ := hroom.toNat
  let words (k : Nat) : List UInt32 := Meaning.Value.ofInt ((storage - 4 * k + 3) / 4)
    (extended signed (storage - 4 * k) (s.memory.valueAt (a + 4 * k) (storage - 4 * k)))
  have hlength : ∀ k, (words k).length = (storage - 4 * k + 3) / 4 := fun k => Meaning.length_ofInt ..
  -- the words from the last one down to word `k` are pushed
  refine Runs.countDown f (fun k => Pushed sp scratch (words k) s) (fun k hk t ht => ?_) ?_
  · have hrest : (words (k + 1)).length = (storage + 3) / 4 - (k + 1) := by
      rw [hlength]
      omega
    have hpointer : (t.regs sp).toNat + 4 * ((storage + 3) / 4 - (k + 1)) = (s.regs sp).toNat := by
      rw [ht.pointer, hrest, toNat_sub_ofNat (by omega)]
      omega
    have hvalue : t.memory.valueAt (a + 4 * k) (min (storage - 4 * k) 4) =
        s.memory.valueAt (a + 4 * k) (min (storage - 4 * k) 4) := by
      refine Memory.valueAt_congr fun c hc hlt => ht.kept c fun hpushed => ?_
      rw [Set.mem_Ico] at hpushed
      have hmem : c ∈ Set.Ico a (a + storage) := ⟨by omega, by omega⟩
      exact Set.disjoint_left.mp hdisjoint hmem ⟨by omega, by omega⟩
    have hword : words k = [UInt32.ofInt (extended signed (min (storage - 4 * k) 4)
        (t.memory.valueAt (a + 4 * k) (min (storage - 4 * k) 4)))] ++ words (k + 1) := by
      have hsplit := loadedWords_step s.memory signed (a + 4 * k) (n := storage - 4 * k) (by omega)
        fun h => by have := hsigned h; omega
      rw [hvalue]
      refine hsplit.trans (congrArg (_ :: ·) ?_)
      show _ = Meaning.Value.ofInt ((storage - 4 * (k + 1) + 3) / 4) (extended signed (storage - 4 * (k + 1))
        (s.memory.valueAt (a + 4 * (k + 1)) (storage - 4 * (k + 1))))
      rw [show storage - 4 * (k + 1) = storage - 4 * k - 4 by omega,
        show a + 4 * (k + 1) = a + 4 * k + 4 by omega]
    refine (hstep k hk t hpointer ht.regs).mono fun s' hs' => ?_
    show Pushed sp scratch (words k) s s'
    rw [hword]
    refine ht.append hs' (hroom.mono ?_)
    rw [List.length_singleton, hrest]
    omega
  · have hnone : words ((storage + 3) / 4) = [] := by
      rw [← List.length_eq_zero_iff, hlength]
      omega
    rw [hnone]
    exact .nil

end Loop

/-! ## Stored bytes -/

/-- So many words were popped, and the bytes were written. Nothing else has changed but the scratch
registers. -/
structure Stored (sp : R) (scratch : List R) (count a n : Nat) (bytes : Nat → UInt8) (s s' : Snapshot R) :
    Prop where
  pointer : s'.regs sp = s.regs sp + UInt32.ofNat (4 * count)
  regs : ∀ r, r ≠ sp → r ∉ scratch → s'.regs r = s.regs r
  memory : s.memory.Wrote a n bytes s'.memory
  heap : s'.store = { s.store with memory := s'.memory }

namespace Stored

variable {count a n k : Nat} {bytes : Nat → UInt8}

omit [DecidableEq R] in
theorem zero : Stored sp scratch 0 a 0 bytes s s :=
  ⟨(UInt32.add_zero _).symm, fun _ _ _ => rfl, .zero .., rfl⟩

omit [DecidableEq R] in
theorem mono {scratch' : List R} (h : Stored sp scratch count a n bytes s s') (hsub : scratch ⊆ scratch') :
    Stored sp scratch' count a n bytes s s' :=
  ⟨h.pointer, fun r hr hscratch => h.regs r hr fun hmem => hscratch (hsub hmem), h.memory, h.heap⟩

omit [DecidableEq R] in
/-- Nothing was popped and there is no scratch register, so all registers are as they were. -/
theorem regs_eq (h : Stored sp [] 0 a n bytes s s') : s'.regs = s.regs := by
  funext r
  by_cases hr : r = sp
  · rw [hr, h.pointer]
    exact UInt32.add_zero _
  · exact h.regs r hr List.not_mem_nil

omit [DecidableEq R] in
/-- Scratch registers may change before the bytes are written. -/
theorem after (h : Scratched scratch s t) (h' : Stored sp scratch count a n bytes t s') (hsp : sp ∉ scratch) :
    Stored sp scratch count a n bytes s s' where
  pointer := by rw [h'.pointer, h.regs sp hsp]
  regs r hr hscratch := by rw [h'.regs r hr hscratch, h.regs r hscratch]
  memory := ⟨h'.memory.wrote, fun c hc => by rw [h'.memory.kept c hc, Snapshot.memory, h.store, Snapshot.memory]⟩
  heap := by rw [h'.heap, h.store]

theorem drop (h : Stored sp scratch count a n bytes s s') (k : Nat) :
    Stored sp scratch (count + k) a n bytes s (s'.set sp (s'.regs sp + UInt32.ofNat (4 * k))) where
  pointer := by rw [Snapshot.set_self, h.pointer, Nat.mul_add, UInt32.ofNat_add, UInt32.add_assoc]
  regs r' hsp hscratch := by rw [Snapshot.set_of_ne _ hsp, h.regs r' hsp hscratch]
  memory := h.memory
  heap := h.heap

theorem setScratch (h : Stored sp scratch count a n bytes s s') (hr : r ∈ scratch) (hne : r ≠ sp) (w : UInt32) :
    Stored sp scratch count a n bytes s (s'.set r w) where
  pointer := by rw [Snapshot.set_of_ne _ hne.symm, h.pointer]
  regs r' hsp hscratch := by
    rw [Snapshot.set_of_ne, h.regs r' hsp hscratch]
    rintro rfl
    exact hscratch hr
  memory := h.memory
  heap := h.heap

theorem pop (h : Stored sp scratch count a n bytes s s') :
    Stored sp scratch (count + 1) a n bytes s (s'.set sp (s'.regs sp + 4)) where
  pointer := by
    rw [Snapshot.set_self, h.pointer, Nat.mul_succ, UInt32.ofNat_add, ← UInt32.add_assoc]
    rfl
  regs r' hsp hscratch := by rw [Snapshot.set_of_ne _ hsp, h.regs r' hsp hscratch]
  memory := h.memory
  heap := h.heap

omit [DecidableEq R] in
theorem put (h : Stored sp scratch count a n bytes s s') {place w : UInt32} {m : Nat}
    (hmemory : s.memory.Wrote a m bytes (s'.memory.put place.toNat w k)) :
    Stored sp scratch count a m bytes s (s'.put place k w) where
  pointer := h.pointer
  regs := h.regs
  memory := hmemory
  heap := congrArg (fun store : Store => { store with memory := (s'.put place k w).memory }) h.heap

omit [DecidableEq R] in
/-- Bytes of the stack are written behind those that are written. -/
theorem put_copy {src : Nat} (h : Stored sp scratch count a n (fun j => s.memory.byte (src + j)) s s')
    {place w : UInt32} (hplace : place.toNat = a + n)
    (hvalue : w.toNat % 256 ^ k = s.memory.valueAt (src + n) k) (hfits : a + n + k ≤ memorySize) :
    Stored sp scratch count a (n + k) (fun j => s.memory.byte (src + j)) s (s'.put place k w) := by
  refine h.put ?_
  rw [hplace]
  exact h.memory.put_copy hvalue hfits

omit [DecidableEq R] in
theorem word {stored total : Nat} (h : Stored sp scratch count a n bytes s s')
    (hmapped : Memory.mapped (s.regs sp) (4 * total) = true) (hcount : count < total) (hn : n ≤ stored)
    (hdisjoint : Disjoint (Set.Ico a (a + stored))
      (Set.Ico (s.regs sp).toNat ((s.regs sp).toNat + 4 * total))) :
    (s'.regs sp).toNat = (s.regs sp).toNat + 4 * count ∧
      s'.memory.read (s'.regs sp) 4 =
        .ok (UInt32.ofNat (s.memory.valueAt ((s.regs sp).toNat + 4 * count) 4)) := by
  obtain ⟨hlow, hhigh⟩ := Memory.mapped_iff.mp hmapped
  have hplace : (s'.regs sp).toNat = (s.regs sp).toNat + 4 * count := by
    rw [h.pointer, toNat_add_ofNat (by omega)]
  refine ⟨hplace, ?_⟩
  rw [Memory.read_eq_ofNat (Memory.mapped_iff.mpr (by omega)), hplace]
  refine congrArg (fun value => Except.ok (UInt32.ofNat value)) (Memory.valueAt_congr fun c hc hlt => ?_)
  refine h.memory.kept c fun hmem => ?_
  rw [Set.mem_Ico] at hmem
  exact Set.disjoint_left.mp hdisjoint ⟨hmem.1, by omega⟩ ⟨by omega, by omega⟩

end Stored

/-- A value may be popped: its place is mapped and apart from its words, which are mapped too, and both may
be touched. -/
structure Poppable (sp : R) (touched : Set Nat) (a : UInt32) (storage : Nat) (s : Snapshot R) : Prop where
  mapped : Memory.mapped a storage = true
  value : Set.Ico a.toNat (a.toNat + storage) ⊆ touched
  words : Memory.mapped (s.regs sp) (4 * ((storage + 3) / 4)) = true
  stack : Set.Ico (s.regs sp).toNat ((s.regs sp).toNat + 4 * ((storage + 3) / 4)) ⊆ touched
  disjoint : Disjoint (Set.Ico a.toNat (a.toNat + storage))
    (Set.Ico (s.regs sp).toNat ((s.regs sp).toNat + 4 * ((storage + 3) / 4)))

section Loop

variable {I M : Type} [Runner I R M] [Storing M] [TargetInstr I] {p : Program I} {touched : Set Nat}
  {E : Fault → Snapshot R → Prop}

omit [DecidableEq R] in
theorem Runs.popWords (f : Nat → List I) {a storage : Nat}
    (hpopped : Memory.mapped (s.regs sp) (4 * ((storage + 3) / 4)) = true)
    (hdisjoint : Disjoint (Set.Ico a (a + storage))
      (Set.Ico (s.regs sp).toNat ((s.regs sp).toNat + 4 * ((storage + 3) / 4))))
    (hstep : ∀ k < (storage + 3) / 4, ∀ (t : Snapshot R) (w : UInt32),
      Stored sp scratch k a (4 * k) (fun j => s.memory.byte ((s.regs sp).toNat + j)) s t →
      (t.regs sp).toNat = (s.regs sp).toNat + 4 * k → t.memory.read (t.regs sp) 4 = .ok w →
      w.toNat = s.memory.valueAt ((s.regs sp).toNat + 4 * k) 4 →
      Runs p touched (f k) t (Stored sp scratch (k + 1) a (4 * k + min (storage - 4 * k) 4)
        (fun j => s.memory.byte ((s.regs sp).toNat + j)) s) E) :
    Runs p touched ((List.range ((storage + 3) / 4)).flatMap f) s
      (Stored sp scratch ((storage + 3) / 4) a storage (fun j => s.memory.byte ((s.regs sp).toNat + j)) s)
      E := by
  have hall : min (4 * ((storage + 3) / 4)) storage = storage := by omega
  -- the first `k` words are popped
  refine (Runs.countUp f (fun k => Stored sp scratch k a (min (4 * k) storage)
    (fun j => s.memory.byte ((s.regs sp).toNat + j)) s) (fun k hk t ht => ?_) ?_).mono fun t ht => ?_
  · obtain ⟨hplace, hread⟩ := ht.word hpopped hk (Nat.min_le_right _ _) hdisjoint
    have hlt := s.memory.valueAt_lt ((s.regs sp).toNat + 4 * k) 4
    have hfull : min (4 * k) storage = 4 * k := by omega
    rw [hfull] at ht
    have hrun := hstep k hk t _ ht hplace hread (UInt32.toNat_ofNat_of_lt' hlt)
    rwa [show 4 * k + min (storage - 4 * k) 4 = min (4 * (k + 1)) storage by omega] at hrun
  · rw [Nat.mul_zero, Nat.zero_min]
    exact .zero
  · rwa [hall] at ht

end Loop

end Stencil
