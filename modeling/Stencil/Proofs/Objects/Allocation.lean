import Stencil.Proofs.Access.Footprint

/-!
# Objects on the heap

What allocation answers does not depend on memory, and it changes memory only up to the end of the heap
and the header of an object there. So words of the stack above that stay as they are.
-/

namespace Stencil

open AddressMap Stateful

namespace Memory

theorem byte_clear_of_ge {m : Memory} {a count c : Nat} (hc : a + count ≤ c) :
    (m.clear a count).byte c = m.byte c := by
  induction count generalizing m a with
  | zero => rfl
  | succ count ih =>
    rw [clear, ih (by omega)]
    by_cases ha : a < memorySize
    · rw [byte_setByte ha, if_neg (by omega)]
    · rw [setByte, dif_neg ha]

theorem byte_clear_of_lt {m : Memory} {a count c : Nat} (hc : c < a) : (m.clear a count).byte c = m.byte c := by
  induction count generalizing m a with
  | zero => rfl
  | succ count ih =>
    rw [clear, ih (by omega)]
    by_cases ha : a < memorySize
    · rw [byte_setByte ha, if_neg (by omega)]
    · rw [setByte, dif_neg ha]

theorem byte_clear {m : Memory} {a count c : Nat} (hfits : a + count ≤ memorySize) (hle : a ≤ c)
    (hlt : c < a + count) : (m.clear a count).byte c = 0 := by
  induction count generalizing m a with
  | zero => omega
  | succ count ih =>
    rw [clear]
    rcases Nat.eq_or_lt_of_le hle with rfl | hlt'
    · rw [byte_clear_of_lt (Nat.lt_succ_self _), byte_setByte (by omega), if_pos rfl]
    · exact ih (by omega) hlt' (by omega)

theorem Holds.congr {m m' : Memory} {words : List UInt32} (h : m.Holds words)
    (hbytes : ∀ c, stackTop.toNat ≤ c + 4 * words.length → m'.byte c = m.byte c) : m'.Holds words := by
  induction words with
  | nil => trivial
  | cons w words ih =>
    obtain ⟨hroom, hvalue, hrest⟩ := h
    rw [List.length_cons] at hbytes
    refine ⟨hroom, ?_, ih hrest fun c hc => hbytes c (by omega)⟩
    rw [← hvalue]
    refine valueAt_congr fun c hc _ => hbytes c ?_
    simp only [wordPlace] at hc
    simp only [stackTop, UInt32.reduceToNat]
    omega

end Memory

/-! ## Programs that do not look at memory -/

def Store.withMemory (s : Store) (memory : Memory) : Store := { s with memory }

/-- From this store the program answers the same whatever is in memory, and leaves the bytes from `limit`
on alone. -/
structure StaysBelow {α : Type} (limit : Nat) (x : StoreM α) (s : Store) : Prop where
  answers : ∀ {a : α} {s' : Store}, x s = .ok a s' → ∀ memory, ∃ memory',
    x (s.withMemory memory) = .ok a (s'.withMemory memory') ∧
      ∀ c, limit ≤ c → memory'.byte c = memory.byte c

namespace StaysBelow

variable {α β : Type} {limit : Nat} {x : StoreM α} {f : α → StoreM β} {s : Store}

theorem pure (a : α) : StaysBelow limit (pure a) s := by
  refine ⟨fun h memory => ?_⟩
  cases h
  exact ⟨memory, rfl, fun _ _ => rfl⟩

theorem bind (hx : StaysBelow limit x s)
    (hf : ∀ {a : α} {s' : Store}, x s = .ok a s' → StaysBelow limit (f a) s') :
    StaysBelow limit (x >>= f) s := by
  refine ⟨fun h memory => ?_⟩
  obtain ⟨a, t, ha, hb⟩ := bind_eq_ok.mp h
  obtain ⟨memory₁, ha₁, hbytes₁⟩ := hx.answers ha memory
  obtain ⟨memory₂, hb₂, hbytes₂⟩ := (hf ha).answers hb memory₁
  exact ⟨memory₂, (bind_of_ok ha₁).trans hb₂, fun c hc => (hbytes₂ c hc).trans (hbytes₁ c hc)⟩

/-- What is done with the store does not depend on its memory. -/
theorem get {f : Store → StoreM β} (h : StaysBelow limit (f s) s)
    (hf : ∀ memory, f (s.withMemory memory) = f s) :
    StaysBelow limit (MonadState.get >>= f) s := by
  refine ⟨fun hb memory => ?_⟩
  obtain ⟨memory', hb', hbytes⟩ := h.answers hb memory
  refine ⟨memory', ?_, hbytes⟩
  show f (s.withMemory memory) (s.withMemory memory) = _
  rw [hf, hb']

theorem clear {a : UInt32} {count : Nat} (h : a.toNat + count ≤ limit) :
    StaysBelow limit (Store.clear a count) s := by
  refine ⟨fun hb memory => ?_⟩
  unfold Store.clear at hb ⊢
  split at hb
  · cases hb
    exact ⟨memory.clear a.toNat count, if_pos ‹_›, fun c hc => Memory.byte_clear_of_ge (by omega)⟩
  · cases hb

theorem write {a w : UInt32} {n : Nat} (h : a.toNat + n ≤ limit) :
    StaysBelow limit (Store.write a n w) s := by
  refine ⟨fun hb memory => ?_⟩
  unfold Store.write at hb ⊢
  split at hb
  · rename_i hmapped
    cases hb
    refine ⟨memory.put a.toNat w n, if_pos hmapped, fun c hc => Memory.byte_put_of_ge w ?_ (by omega)⟩
    rw [Memory.mapped, Bool.and_eq_true, decide_eq_true_eq, decide_eq_true_eq] at hmapped
    exact hmapped.2
  · cases hb

theorem modify {g : Store → Store} (hg : ∀ memory, g (s.withMemory memory) = (g s).withMemory memory) :
    StaysBelow limit (modify g) s := by
  refine ⟨fun hb memory => ?_⟩
  cases hb
  refine ⟨memory, ?_, fun _ _ => rfl⟩
  rw [modify_apply, hg]

theorem allocate {size : UInt32} (h : s.heapEnd.toNat ≤ limit) :
    StaysBelow limit (Store.allocate size) s := by
  unfold Store.allocate
  refine get ?_ fun _ => rfl
  dsimp only
  split
  · exact (clear (by omega)).bind fun _ => (modify fun _ => rfl).bind fun _ => pure _
  · exact pure _

end StaysBelow

/-- An address that allocation gives is the next free one, and the heap has room for what is taken. -/
theorem Store.allocate_ok {size a : UInt32} {s s' : Store} (h : allocate size s = .ok a s') (ha : a ≠ 0) :
    a = s.heapNext ∧ a.toNat + (Link.roundUp (max size 4) 4).toNat ≤ s.heapEnd.toNat ∧
      s'.heapNext = .ofNat (a.toNat + (Link.roundUp (max size 4) 4).toNat) := by
  unfold allocate at h
  obtain ⟨s₁, s₂, hget, h⟩ := bind_eq_ok.mp h
  cases hget
  split at h
  · rename_i hroom
    obtain ⟨_, _, _, h⟩ := bind_eq_ok.mp h
    obtain ⟨_, _, hmodify, h⟩ := bind_eq_ok.mp h
    cases hmodify
    cases h
    exact ⟨rfl, hroom, rfl⟩
  · cases h
    exact absurd rfl ha

theorem Store.allocate_le {size object : UInt32} {s s' : Store} (h : allocate size s = .ok object s') :
    object.toNat ≤ s.heapEnd.toNat := by
  by_cases hnull : object = 0
  · rw [hnull]
    exact Nat.zero_le _
  · have := (allocate_ok h hnull).2.1
    omega

/-! ## What allocation answers -/

section Answers

variable {size : UInt32} {s : Store}

/-- A request that does not fit gives null and changes nothing. -/
theorem Store.allocate_full
    (h : s.heapEnd.toNat < s.heapNext.toNat + (Link.roundUp (max size 4) 4).toNat) :
    allocate size s = .ok 0 s := by
  have hget : (get : StoreM Store) s = .ok s s := rfl
  unfold allocate
  rw [bind_of_ok hget]
  exact congrFun (if_neg (Nat.not_le.mpr h)) s

theorem Store.allocate_fits
    (h : s.heapNext.toNat + (Link.roundUp (max size 4) 4).toNat ≤ s.heapEnd.toNat)
    (hmapped : Memory.mapped s.heapNext (Link.roundUp (max size 4) 4).toNat = true) :
    allocate size s = .ok s.heapNext
      { s with
        memory := s.memory.clear s.heapNext.toNat (Link.roundUp (max size 4) 4).toNat
        heapNext := UInt32.ofNat (s.heapNext.toNat + (Link.roundUp (max size 4) 4).toNat) } := by
  have hget : (get : StoreM Store) s = .ok s s := rfl
  have hclear : Store.clear s.heapNext (Link.roundUp (max size 4) 4).toNat s =
      .ok () (s.withMemory (s.memory.clear s.heapNext.toNat (Link.roundUp (max size 4) 4).toNat)) :=
    if_pos hmapped
  unfold allocate
  rw [bind_of_ok hget, if_pos h, bind_of_ok hclear]
  rfl

variable {I : Type} {p : Program I} {descriptor : UInt32} {info : TypeInfo}
  (hinfo : p.typeInfo[descriptor]? = some info)

include hinfo

theorem Program.newObject_full
    (h : s.heapEnd.toNat < s.heapNext.toNat + (Link.roundUp (max info.instanceSize 4) 4).toNat) :
    p.newObject descriptor s = .ok 0 s := by
  have htype : p.typeInfoAt descriptor s = .ok info s := by
    rw [typeInfoAt, hinfo]
    rfl
  rw [newObject, bind_of_ok htype, bind_of_ok (Store.allocate_full h)]
  rfl

theorem Program.newObject_fits
    (h : s.heapNext.toNat + (Link.roundUp (max info.instanceSize 4) 4).toNat ≤ s.heapEnd.toNat)
    (hmapped : Memory.mapped s.heapNext (Link.roundUp (max info.instanceSize 4) 4).toNat = true)
    (hheader : Memory.mapped (s.heapNext + UInt32.ofNat p.layout.typePointer) 4 = true) :
    ∃ s', p.newObject descriptor s = .ok s.heapNext s' := by
  have htype : p.typeInfoAt descriptor s = .ok info s := by
    rw [typeInfoAt, hinfo]
    rfl
  have hobject := Store.allocate_fits h hmapped
  have hnext : s.heapNext ≠ 0 := by
    intro hzero
    rw [hzero] at hmapped
    simp [Memory.mapped, nullGuard] at hmapped
  rw [newObject, bind_of_ok htype, bind_of_ok hobject, if_pos hnext,
    bind_of_ok (Store.writeWord_of_mapped hheader descriptor _)]
  exact ⟨_, rfl⟩

end Answers

/-! ## Objects -/

namespace Program

variable {I : Type} (p : Program I)

theorem staysBelow_newObject {descriptor : UInt32} {s : Store} {limit : Nat}
    (h : s.heapEnd.toNat + p.layout.typePointer + 4 ≤ limit) :
    StaysBelow limit (p.newObject descriptor) s := by
  unfold newObject
  cases hinfo : p.typeInfo[descriptor]? with
  | none =>
    refine ⟨fun hb => ?_⟩
    rw [typeInfoAt, hinfo] at hb
    cases hb
  | some info =>
  have htype : p.typeInfoAt descriptor = pure info := by rw [typeInfoAt, hinfo]
  rw [htype]
  refine StaysBelow.bind (.pure info) fun {info t} ht => ?_
  cases ht
  refine StaysBelow.bind (.allocate (by omega)) fun {object t} hobject => ?_
  have hle := Store.allocate_le hobject
  have hheader : (object + UInt32.ofNat p.layout.typePointer).toNat + 4 ≤ limit := by
    rw [UInt32.toNat_add, UInt32.toNat_ofNat']
    have hmod := Nat.mod_le (object.toNat + p.layout.typePointer % 2 ^ 32) (2 ^ 32)
    have hmod' := Nat.mod_le p.layout.typePointer (2 ^ 32)
    omega
  split
  · exact StaysBelow.bind (.write hheader) fun _ => .pure _
  · exact StaysBelow.bind (.pure _) fun _ => .pure _

/-- The allocator of objects finds the descriptor above its return slot. -/
theorem runIntrinsic_newObject {sp site descriptor object : UInt32} {s s' : Store}
    (hread : s.memory.read (sp + 4) 4 = .ok descriptor) (h : p.newObject descriptor s = .ok object s')
    (hmapped : Memory.mapped sp 4 = true) :
    p.runIntrinsic .newObject sp site s = .ok none (s'.withWord sp object) := by
  have hword : Store.readWord (sp + UInt32.ofNat Intrinsic.newObject.returnBytes) s = .ok descriptor s := by
    rw [show UInt32.ofNat Intrinsic.newObject.returnBytes = 4 from rfl, Store.readWord, Store.read, hread]
  have hbody : p.runIntrinsic .newObject sp site s = (do
      let descriptor ← Store.readWord (sp + UInt32.ofNat Intrinsic.newObject.returnBytes)
      let object ← p.newObject descriptor
      Store.writeWord sp object
      return none) s := rfl
  rw [hbody, bind_of_ok hword, bind_of_ok h, bind_of_ok (Store.writeWord_of_mapped hmapped object s')]
  rfl

end Program

end Stencil
