import Stencil.Proofs.Machine.Layout
import Stencil.Proofs.Objects.Allocation

/-!
# Requests to the heap

A program asks for objects and arrays through its intrinsics, and the caller of a program asks directly.
A request is granted a block of zeros at the next free address, with a header, or it is refused and
nothing changes (`Heap.serve`). So over any history of requests, whatever else is done to memory in
between, the blocks are aligned, lie apart and stay within the heap.
-/

namespace Stencil

open AddressMap Link Stateful

/-! ## What is asked for -/

/-- A request for an object, or for an array of so many elements, with what is known about its type. -/
inductive Request where
  | object (descriptor : UInt32) (info : TypeInfo)
  | array (descriptor : UInt32) (info : TypeInfo) (length : UInt32)

namespace Request

variable {I : Type} (p : Program I)

/-- Bytes that are asked for, if a word can count them. -/
def size? : Request → Option UInt32
  | object _ info => some info.instanceSize
  | array _ info length => p.arraySize? info.elementSize length

/-- The first words of the block; everything after them is zero. -/
def header : Request → List UInt32
  | object descriptor _ => [descriptor]
  | array descriptor _ length => [0, length, descriptor]

/-- The type is known to the program. -/
def Known : Request → Prop
  | object descriptor info | array descriptor info _ => p.typeInfo[descriptor]? = some info

/-- The size can be rounded up to words. -/
def Rounds (r : Request) : Prop := ∀ size, r.size? p = some size → size.toNat ≤ 0xFFFFFFFC

def serve : Request → StoreM UInt32
  | object descriptor _ => p.newObject descriptor
  | array descriptor _ length => p.newArray descriptor length

end Request

/-- Bytes that are taken from the heap for a block of this size. -/
def blockBytes (size : UInt32) : Nat := (max size.toNat 4 + 3) / 4 * 4

/-- This is what allocation takes, but for the carry out of the word. -/
theorem toNat_roundUp_four (size : UInt32) :
    (roundUp (max size 4) 4).toNat = blockBytes size % 2 ^ 32 := by
  rw [toNat_roundUp (by decide), toNat_max]
  rfl

theorem roundUp_of_le {size : UInt32} (h : size.toNat ≤ 0xFFFFFFFC) :
    (roundUp (max size 4) 4).toNat = blockBytes size := by
  rw [toNat_roundUp_four, blockBytes]
  omega

theorem toNat_of_arraySize? {I : Type} {p : Program I} {elementSize length size : UInt32}
    (h : p.arraySize? elementSize length = some size) :
    length.toNat < 0x80000000 ∧
      size.toNat = length.toNat * elementSize.toNat + p.layout.arrayHeader := by
  simp only [Program.arraySize?] at h
  split at h
  · rename_i hfits
    obtain rfl := Option.some.inj h
    exact ⟨UInt32.lt_iff_toNat_lt.mp hfits.1, UInt32.toNat_ofNat_of_lt' hfits.2⟩
  · cases h

/-! ## Blocks of the heap -/

/-- A block that was handed out. -/
structure Block where
  address : UInt32
  bytes : Nat

/-- The blocks that were handed out, the latest one first, lie apart below the next free address. -/
structure Heap (blocks : List Block) (s : Store) : Prop where
  within : ∀ b ∈ blocks, b.address.toNat % 4 = 0 ∧ heapBase.toNat ≤ b.address.toNat ∧
    b.address.toNat + b.bytes ≤ s.heapNext.toNat
  apart : blocks.Pairwise fun later earlier => earlier.address.toNat + earlier.bytes ≤ later.address.toNat
  aligned : s.heapNext.toNat % 4 = 0
  starts : heapBase.toNat ≤ s.heapNext.toNat
  fits : s.heapNext.toNat ≤ s.heapEnd.toNat
  limit : s.heapEnd.toNat ≤ heapBase.toNat + heapLimit.toNat

/-- Memory where `bytes` bytes from `a` on are zeros after a header, and all else is as before. -/
structure Fresh (words : List UInt32) (bytes : Nat) (a : UInt32) (m m' : Memory) : Prop where
  header : m'.WordsAt a words
  zeros : ∀ c, a.toNat + 4 * words.length ≤ c → c < a.toNat + bytes → m'.byte c = 0
  kept : ∀ c, c < a.toNat ∨ a.toNat + bytes ≤ c → m'.byte c = m.byte c

/-- A request of this size was granted a block at `a`. -/
structure Granted (r : Request) (size : UInt32) (blocks : List Block) (s : Store) (a : UInt32)
    (s' : Store) : Prop extends Fresh r.header (blockBytes size) a s.memory s'.memory where
  room : s.heapNext.toNat + blockBytes size ≤ s.heapEnd.toNat
  nonnull : a ≠ 0
  aligned : a.toNat % 4 = 0
  within : heapBase.toNat ≤ a.toNat ∧ a.toNat + blockBytes size ≤ s.heapEnd.toNat
  apart : ∀ b ∈ blocks, b.address.toNat + b.bytes ≤ a.toNat
  next : s' = { s with memory := s'.memory, heapNext := .ofNat (a.toNat + blockBytes size) }

/-- A request that cannot be granted gives null and changes nothing. -/
structure Denied {I : Type} (p : Program I) (r : Request) (s : Store) (a : UInt32) (s' : Store) : Prop where
  null : a = 0
  unchanged : s' = s
  full : ∀ size, r.size? p = some size → s.heapEnd.toNat < s.heapNext.toNat + blockBytes size

/-! ## Contents of a block -/

section Fresh

variable {m : Memory} {a w length : UInt32} {bytes : Nat}

theorem Memory.valueAt_eq_zero {m : Memory} {a count : Nat}
    (h : ∀ c, a ≤ c → c < a + count → m.byte c = 0) : m.valueAt a count = 0 := by
  induction count generalizing a with
  | zero => rfl
  | succ count ih =>
    rw [valueAt, h a (Nat.le_refl a) (by omega), ih fun c hc hlt => h c (by omega) (by omega)]
    rfl

theorem fresh_object (hmapped : Memory.mapped a bytes = true) (hbytes : 4 ≤ bytes) :
    Fresh [w] bytes a m ((m.clear a.toNat bytes).put a.toNat w 4) := by
  obtain ⟨hlow, hhigh⟩ := Memory.mapped_iff.mp hmapped
  have hword : Memory.mapped a 4 = true := Memory.mapped_iff.mpr ⟨hlow, by omega⟩
  have hfits : a.toNat + 4 ≤ memorySize := by unfold memorySize; omega
  have hroom : a.toNat + bytes ≤ memorySize := hhigh
  refine ⟨⟨Memory.read_put hword w, trivial⟩, fun c hle hlt => ?_, fun c hc => ?_⟩
  · rw [Memory.byte_put_of_ge w hfits hle, Memory.byte_clear hroom (by omega) hlt]
  · rcases hc with hbelow | habove
    · rw [Memory.byte_put_of_lt w hfits hbelow, Memory.byte_clear_of_lt hbelow]
    · rw [Memory.byte_put_of_ge w hfits (by omega), Memory.byte_clear_of_ge habove]

theorem fresh_array (hmapped : Memory.mapped a bytes = true) (hbytes : 12 ≤ bytes) :
    Fresh [0, length, w] bytes a m
      (((m.clear a.toNat bytes).put (a + 4).toNat length 4).put (a + 8).toNat w 4) := by
  obtain ⟨hlow, hhigh⟩ := Memory.mapped_iff.mp hmapped
  have hroom : a.toNat + bytes ≤ memorySize := hhigh
  have hfour : (a + 4).toNat = a.toNat + 4 := toNat_add_small (by omega) (by decide)
  have height : (a + 8).toNat = a.toNat + 8 := toNat_add_small (by omega) (by decide)
  have hword : Memory.mapped a 4 = true := Memory.mapped_iff.mpr ⟨hlow, by omega⟩
  have hword₁ : Memory.mapped (a + 4) 4 = true := Memory.mapped_iff.mpr ⟨by omega, by omega⟩
  have hword₂ : Memory.mapped (a + 8) 4 = true := Memory.mapped_iff.mpr ⟨by omega, by omega⟩
  have hfits₁ : (a + 4).toNat + 4 ≤ memorySize := (Memory.mapped_iff.mp hword₁).2
  have hfits₂ : (a + 8).toNat + 4 ≤ memorySize := (Memory.mapped_iff.mp hword₂).2
  refine ⟨⟨?_, ?_, ?_, trivial⟩, fun c hle hlt => ?_, fun c hc => ?_⟩
  · -- the first word is left as it was cleared
    rw [Memory.read_put_of_apart hword₂ w (.inl (by omega)),
      Memory.read_put_of_apart hword₁ length (.inl (by omega))]
    exact Memory.read_of_valueAt hword (Memory.valueAt_eq_zero fun c hle hlt =>
      Memory.byte_clear hroom hle (by omega))
  · rw [Memory.read_put_of_apart hword₂ w (.inl (by omega)), Memory.read_put hword₁]
  · rw [UInt32.add_assoc]
    exact Memory.read_put hword₂ w
  · simp only [List.length_cons, List.length_nil] at hle
    rw [Memory.byte_put_of_ge w hfits₂ (by omega), Memory.byte_put_of_ge length hfits₁ (by omega),
      Memory.byte_clear hroom (by omega) hlt]
  · rcases hc with hbelow | habove
    · rw [Memory.byte_put_of_lt w hfits₂ (by omega), Memory.byte_put_of_lt length hfits₁ (by omega),
        Memory.byte_clear_of_lt hbelow]
    · rw [Memory.byte_put_of_ge w hfits₂ (by omega), Memory.byte_put_of_ge length hfits₁ (by omega),
        Memory.byte_clear_of_ge habove]

end Fresh

/-! ## Answers -/

section Serve

variable {I : Type} {p : Program I} {r : Request} {blocks : List Block} {s : Store} {size : UInt32}

/-- A block of this size at the next free address keeps the heap in order. -/
theorem Heap.push (h : Heap blocks s) (hroom : s.heapNext.toNat + blockBytes size ≤ s.heapEnd.toNat)
    (memory : Memory) :
    Heap (⟨s.heapNext, blockBytes size⟩ :: blocks)
      { s with memory, heapNext := .ofNat (s.heapNext.toNat + blockBytes size) } := by
  have hlimit := h.limit
  have hnext : (UInt32.ofNat (s.heapNext.toNat + blockBytes size)).toNat =
      s.heapNext.toNat + blockBytes size :=
    UInt32.toNat_ofNat_of_lt' (by simp only [heapBase, heapLimit, UInt32.reduceToNat, UInt32.size] at hlimit ⊢; omega)
  have haligned := h.aligned
  have hstarts := h.starts
  refine ⟨fun b hb => ?_, List.pairwise_cons.mpr ⟨fun b hb => (h.within b hb).2.2, h.apart⟩, ?_, ?_, ?_,
    hlimit⟩
  · rw [hnext]
    rcases List.mem_cons.mp hb with rfl | hmem
    · exact ⟨haligned, hstarts, Nat.le_refl _⟩
    · obtain ⟨halign, hlow, hhigh⟩ := h.within b hmem
      exact ⟨halign, hlow, by omega⟩
  · rw [hnext, blockBytes]
    omega
  · rw [hnext]
    omega
  · rw [hnext]
    exact hroom

theorem Heap.mapped (h : Heap blocks s) (hroom : s.heapNext.toNat + blockBytes size ≤ s.heapEnd.toNat) :
    Memory.mapped s.heapNext (blockBytes size) = true := by
  have hstarts := h.starts
  have hlimit := h.limit
  simp only [heapBase, heapLimit, UInt32.reduceToNat] at hstarts hlimit
  exact Memory.mapped_iff.mpr ⟨by omega, by omega⟩

theorem Heap.next_ne_zero (h : Heap blocks s) : s.heapNext ≠ 0 := by
  have hstarts := h.starts
  rintro hzero
  rw [hzero] at hstarts
  exact absurd hstarts (by decide)

theorem Heap.granted (h : Heap blocks s) (hroom : s.heapNext.toNat + blockBytes size ≤ s.heapEnd.toNat)
    {memory : Memory} (hfresh : Fresh r.header (blockBytes size) s.heapNext s.memory memory) :
    Granted r size blocks s s.heapNext
      { s with memory, heapNext := .ofNat (s.heapNext.toNat + blockBytes size) } where
  toFresh := hfresh
  room := hroom
  nonnull := h.next_ne_zero
  aligned := h.aligned
  within := ⟨h.starts, hroom⟩
  apart b hb := (h.within b hb).2.2
  next := rfl

variable (hknown : r.Known p) (hlayout : p.layout = {})

include hknown

theorem serve_full (hfull : ∀ size, r.size? p = some size → size.toNat ≤ 0xFFFFFFFC ∧
      s.heapEnd.toNat < s.heapNext.toNat + blockBytes size) :
    r.serve p s = .ok 0 s := by
  cases r with
  | object descriptor info =>
    obtain ⟨hrounds, hroom⟩ := hfull _ rfl
    refine Program.newObject_full hknown ?_
    rw [roundUp_of_le hrounds]
    exact hroom
  | array descriptor info length =>
    have htype : p.typeInfoAt descriptor s = .ok info s := by
      rw [Program.typeInfoAt, show p.typeInfo[descriptor]? = some info from hknown]
      rfl
    rw [Request.serve, Program.newArray, bind_of_ok htype]
    cases hsize : p.arraySize? info.elementSize length with
    | none => rfl
    | some size =>
      obtain ⟨hrounds, hroom⟩ := hfull size hsize
      dsimp only
      rw [bind_of_ok (Store.allocate_full (by rw [roundUp_of_le hrounds]; exact hroom))]
      rfl

include hlayout

theorem serve_fits (h : Heap blocks s) (hsize : r.size? p = some size) (hrounds : size.toNat ≤ 0xFFFFFFFC)
    (hroom : s.heapNext.toNat + blockBytes size ≤ s.heapEnd.toNat) :
    ∃ s', r.serve p s = .ok s.heapNext s' ∧ Granted r size blocks s s.heapNext s' := by
  have hmapped := h.mapped hroom
  have hallocate := @Store.allocate_fits size s
    (by rw [roundUp_of_le hrounds]; exact hroom) (by rw [roundUp_of_le hrounds]; exact hmapped)
  rw [roundUp_of_le hrounds] at hallocate
  obtain ⟨hlow, hhigh⟩ := Memory.mapped_iff.mp hmapped
  cases r with
  | object descriptor info =>
    obtain rfl := Option.some.inj hsize
    have htype : p.typeInfoAt descriptor s = .ok info s := by
      rw [Program.typeInfoAt, show p.typeInfo[descriptor]? = some info from hknown]
      rfl
    have hbytes : 4 ≤ blockBytes info.instanceSize := by unfold blockBytes; omega
    have hheader : Memory.mapped (s.heapNext + UInt32.ofNat p.layout.typePointer) 4 = true := by
      rw [hlayout, show s.heapNext + UInt32.ofNat 0 = s.heapNext from UInt32.add_zero _]
      exact Memory.mapped_iff.mpr ⟨hlow, by omega⟩
    refine ⟨_, ?_, h.granted hroom (fresh_object hmapped hbytes)⟩
    rw [Request.serve, Program.newObject, bind_of_ok htype, bind_of_ok hallocate, if_pos h.next_ne_zero,
      bind_of_ok (Store.writeWord_of_mapped hheader descriptor _), hlayout,
      show s.heapNext + UInt32.ofNat 0 = s.heapNext from UInt32.add_zero _]
    rfl
  | array descriptor info length =>
    have htype : p.typeInfoAt descriptor s = .ok info s := by
      rw [Program.typeInfoAt, show p.typeInfo[descriptor]? = some info from hknown]
      rfl
    have harray : p.arraySize? info.elementSize length = some size := hsize
    have hbytes : 12 ≤ blockBytes size := by
      obtain ⟨-, hexact⟩ := toNat_of_arraySize? harray
      rw [hlayout] at hexact
      dsimp only at hexact
      unfold blockBytes
      omega
    have hfour : (s.heapNext + 4).toNat = s.heapNext.toNat + 4 := toNat_add_small (by omega) (by decide)
    have height : (s.heapNext + 8).toNat = s.heapNext.toNat + 8 := toNat_add_small (by omega) (by decide)
    have hlength : Memory.mapped (s.heapNext + 4) 4 = true := Memory.mapped_iff.mpr ⟨by omega, by omega⟩
    have helement : Memory.mapped (s.heapNext + 8) 4 = true := Memory.mapped_iff.mpr ⟨by omega, by omega⟩
    refine ⟨_, ?_, h.granted hroom (fresh_array hmapped hbytes)⟩
    rw [Request.serve, Program.newArray, bind_of_ok htype, harray]
    dsimp only
    rw [bind_of_ok hallocate, if_pos h.next_ne_zero, hlayout]
    simp only [UInt32.reduceOfNat]
    rw [bind_of_ok (Store.writeWord_of_mapped hlength length _),
      bind_of_ok (Store.writeWord_of_mapped helement descriptor _)]
    rfl

end Serve

/-! ## Ways to ask -/

/-- How the heap is asked: by an intrinsic with this stack pointer, or by the caller of a program. -/
inductive Entry where
  | newObject (sp site : UInt32)
  | newArray (sp site : UInt32)
  | allocObject (id : TypeId)
  | allocArray (id : TypeId) (length : UInt32)

namespace Entry

variable {I : Type} (p : Program I)

/-- Ask, and take the answer, which an intrinsic leaves in its return slot. -/
def run : Entry → StoreM UInt32
  | newObject sp site => do
    let _ ← p.runIntrinsic .newObject sp site
    Store.readWord sp
  | newArray sp site => do
    let _ ← p.runIntrinsic .newArray sp site
    Store.readWord sp
  | allocObject id => p.allocObject id
  | allocArray id length => p.allocArray id length

/-- What is asked for. An intrinsic finds its arguments above its return slot. -/
def request : Entry → StoreM Request
  | newObject sp _ => do
    let descriptor ← Store.readWord (sp + 4)
    return .object descriptor (← p.typeInfoAt descriptor)
  | newArray sp _ => do
    let descriptor ← Store.readWord (sp + 4)
    let length ← Store.readWord (sp + 4 + 4)
    return .array descriptor (← p.typeInfoAt descriptor) length
  | allocObject id => do
    let descriptor ← p.typeAddress id
    return .object descriptor (← p.typeInfoAt descriptor)
  | allocArray id length => do
    let descriptor ← p.typeAddress id
    return .array descriptor (← p.typeInfoAt descriptor) length

/-- Pass an answer on. An intrinsic writes it into its return slot; for the caller of a program null is an
end. -/
def answer : Entry → UInt32 → StoreM UInt32
  | newObject sp _, a | newArray sp _, a => do
    Store.writeWord sp a
    return a
  | allocObject _, a | allocArray _ _, a => Program.orHalt a

variable {p}

/-- A word that is passed on through a slot is read from there. -/
theorem writeWord_readWord (sp a : UInt32) :
    (do Store.writeWord sp a; Store.readWord sp : StoreM UInt32) = do Store.writeWord sp a; return a := by
  funext s
  by_cases hmapped : Memory.mapped sp 4 = true
  · rw [bind_of_ok (Store.writeWord_of_mapped hmapped a s), bind_of_ok (Store.writeWord_of_mapped hmapped a s),
      Store.readWord, Store.read, Store.read_withWord hmapped]
    rfl
  · have hfault : Store.writeWord sp a s = .error (.memory sp) s := if_neg hmapped
    rw [bind_of_error hfault, bind_of_error hfault]

/-- The heap looks up a type again that was looked up before. -/
theorem typeInfoAt_newObject (descriptor : UInt32) (f : UInt32 → StoreM UInt32) :
    (p.typeInfoAt descriptor >>= fun _ => p.newObject descriptor >>= f) = p.newObject descriptor >>= f := by
  unfold Program.newObject Program.typeInfoAt
  cases p.typeInfo[descriptor]? <;> rfl

theorem typeInfoAt_newArray (descriptor length : UInt32) (f : UInt32 → StoreM UInt32) :
    (p.typeInfoAt descriptor >>= fun _ => p.newArray descriptor length >>= f) =
      p.newArray descriptor length >>= f := by
  unfold Program.newArray Program.typeInfoAt
  cases p.typeInfo[descriptor]? <;> rfl

/-- To ask is to find out what is asked for, to serve that and to pass the answer on. -/
theorem run_eq (e : Entry) : e.run p = (do e.answer (← (← e.request p).serve p)) := by
  cases e with
  | newObject sp site =>
    simp only [run, request, answer, Program.runIntrinsic, Request.serve, bind_assoc, pure_bind,
      writeWord_readWord, typeInfoAt_newObject]
    rfl
  | newArray sp site =>
    simp only [run, request, answer, Program.runIntrinsic, Request.serve, bind_assoc, pure_bind,
      writeWord_readWord, typeInfoAt_newArray]
    rfl
  | allocObject id =>
    simp only [run, request, answer, Program.allocObject, Request.serve, bind_assoc, pure_bind,
      typeInfoAt_newObject]
  | allocArray id length =>
    simp only [run, request, answer, Program.allocArray, Request.serve, bind_assoc, pure_bind,
      typeInfoAt_newArray]

section Look

variable (s : Store)

theorem readWord_cases (a : UInt32) :
    (∃ w, Store.readWord a s = .ok w s) ∨ ∃ fault, Store.readWord a s = .error fault s := by
  unfold Store.readWord Store.read
  cases s.memory.read a 4 with
  | ok w => exact .inl ⟨w, rfl⟩
  | error fault => exact .inr ⟨fault, rfl⟩

theorem typeAddress_cases (id : TypeId) :
    (∃ a, p.typeAddress id s = .ok a s) ∨ ∃ fault, p.typeAddress id s = .error fault s := by
  unfold Program.typeAddress
  cases p.types[id]? with
  | some a => exact .inl ⟨a, rfl⟩
  | none => exact .inr ⟨_, rfl⟩

theorem typeInfoAt_cases (descriptor : UInt32) :
    (∃ info, p.typeInfoAt descriptor s = .ok info s ∧ p.typeInfo[descriptor]? = some info) ∨
      ∃ fault, p.typeInfoAt descriptor s = .error fault s := by
  unfold Program.typeInfoAt
  cases p.typeInfo[descriptor]? with
  | some info => exact .inl ⟨info, rfl, rfl⟩
  | none => exact .inr ⟨_, rfl⟩

/-- Finding out what is asked for changes nothing, and gives a known type. -/
theorem request_cases (e : Entry) :
    (∃ r, e.request p s = .ok r s ∧ r.Known p) ∨ ∃ fault, e.request p s = .error fault s := by
  cases e with
  | newObject sp site =>
    obtain ⟨descriptor, hread⟩ | ⟨fault, hread⟩ := readWord_cases s (sp + 4)
    · obtain ⟨info, hinfo, hknown⟩ | ⟨fault, hinfo⟩ := typeInfoAt_cases (p := p) s descriptor
      · exact .inl ⟨.object descriptor info, (bind_of_ok hread).trans (bind_of_ok hinfo), hknown⟩
      · exact .inr ⟨fault, (bind_of_ok hread).trans (bind_of_error hinfo)⟩
    · exact .inr ⟨fault, bind_of_error hread⟩
  | newArray sp site =>
    obtain ⟨descriptor, hread⟩ | ⟨fault, hread⟩ := readWord_cases s (sp + 4)
    · obtain ⟨length, hlength⟩ | ⟨fault, hlength⟩ := readWord_cases s (sp + 4 + 4)
      · obtain ⟨info, hinfo, hknown⟩ | ⟨fault, hinfo⟩ := typeInfoAt_cases (p := p) s descriptor
        · exact .inl ⟨.array descriptor info length,
            (bind_of_ok hread).trans ((bind_of_ok hlength).trans (bind_of_ok hinfo)), hknown⟩
        · exact .inr ⟨fault, (bind_of_ok hread).trans ((bind_of_ok hlength).trans (bind_of_error hinfo))⟩
      · exact .inr ⟨fault, (bind_of_ok hread).trans (bind_of_error hlength)⟩
    · exact .inr ⟨fault, bind_of_error hread⟩
  | allocObject id =>
    obtain ⟨descriptor, haddress⟩ | ⟨fault, haddress⟩ := typeAddress_cases (p := p) s id
    · obtain ⟨info, hinfo, hknown⟩ | ⟨fault, hinfo⟩ := typeInfoAt_cases (p := p) s descriptor
      · exact .inl ⟨.object descriptor info, (bind_of_ok haddress).trans (bind_of_ok hinfo), hknown⟩
      · exact .inr ⟨fault, (bind_of_ok haddress).trans (bind_of_error hinfo)⟩
    · exact .inr ⟨fault, bind_of_error haddress⟩
  | allocArray id length =>
    obtain ⟨descriptor, haddress⟩ | ⟨fault, haddress⟩ := typeAddress_cases (p := p) s id
    · obtain ⟨info, hinfo, hknown⟩ | ⟨fault, hinfo⟩ := typeInfoAt_cases (p := p) s descriptor
      · exact .inl ⟨.array descriptor info length, (bind_of_ok haddress).trans (bind_of_ok hinfo), hknown⟩
      · exact .inr ⟨fault, (bind_of_ok haddress).trans (bind_of_error hinfo)⟩
    · exact .inr ⟨fault, bind_of_error haddress⟩

theorem answer_cases (e : Entry) (a : UInt32) :
    ∃ memory, e.answer a s = .ok a { s with memory } ∨ ∃ fault, e.answer a s = .error fault { s with memory } := by
  cases e with
  | newObject sp site | newArray sp site =>
    by_cases hmapped : Memory.mapped sp 4 = true
    · exact ⟨_, .inl (bind_of_ok (Store.writeWord_of_mapped hmapped a s))⟩
    · exact ⟨s.memory, .inr ⟨_, bind_of_error (if_neg hmapped)⟩⟩
  | allocObject id | allocArray id length =>
    by_cases hnull : a = 0
    · exact ⟨s.memory, .inr ⟨_, congrFun (if_pos hnull) s⟩⟩
    · exact ⟨s.memory, .inl (congrFun (if_neg hnull) s)⟩

end Look

end Entry

/-! ## Histories -/

section History

variable {I : Type}

/-- What the heap has been asked for so far: the blocks that were handed out, the latest one first. Between
the requests anything may happen to memory. -/
inductive History (p : Program I) (start : Store) : List Block → Store → Prop
  | start : History p start [] start
  | work {blocks : List Block} {s : Store} (memory : Memory) (released : Array UInt32)
      (h : History p start blocks s) : History p start blocks { s with memory, released }
  | granted {blocks : List Block} {s s' : Store} {e : Entry} {r : Request} {size a : UInt32}
      (h : History p start blocks s) (hasks : e.request p s = .ok r s) (hsize : r.size? p = some size)
      (hrounds : size.toNat ≤ 0xFFFFFFFC) (hruns : e.run p s = .ok a s') (ha : a ≠ 0) :
      History p start (⟨a, blockBytes size⟩ :: blocks) s'
  | refused {blocks : List Block} {s s' : Store} {e : Entry} (h : History p start blocks s)
      (hrounds : ∀ r, e.request p s = .ok r s → r.Rounds p) (hruns : e.run p s = .ok 0 s') :
      History p start blocks s'
  | failed {blocks : List Block} {s s' : Store} {e : Entry} {fault : Fault} (h : History p start blocks s)
      (hrounds : ∀ r, e.request p s = .ok r s → r.Rounds p) (hruns : e.run p s = .error fault s') :
      History p start blocks s'

variable {p : Program I} {blocks : List Block} {start s : Store}

theorem Heap.withMemory (h : Heap blocks s) (memory : Memory) (released : Array UInt32) :
    Heap blocks { s with memory, released } :=
  ⟨h.within, h.apart, h.aligned, h.starts, h.fits, h.limit⟩

theorem Heap.tail {b : Block} (h : Heap (b :: blocks) s) : Heap blocks s :=
  ⟨fun b' hb' => h.within b' (List.mem_cons_of_mem _ hb'), (List.pairwise_cons.mp h.apart).2, h.aligned,
    h.starts, h.fits, h.limit⟩

def Served (p : Program I) (r : Request) (blocks : List Block) (s : Store) (a : UInt32) (s' : Store) : Prop :=
  (∃ size, r.size? p = some size ∧ Granted r size blocks s a s') ∨ Denied p r s a s'

variable (hlayout : p.layout = {})

include hlayout

/-- Requests are served as the room on the heap allows. -/
theorem Heap.serve (h : Heap blocks s) {r : Request} (hknown : r.Known p) (hrounds : r.Rounds p) :
    ∃ a s', r.serve p s = .ok a s' ∧ Served p r blocks s a s' ∧
      ∀ size, r.size? p = some size → a ≠ 0 → Heap (⟨a, blockBytes size⟩ :: blocks) s' := by
  by_cases hroom : ∃ size, r.size? p = some size ∧ s.heapNext.toNat + blockBytes size ≤ s.heapEnd.toNat
  · obtain ⟨size, hsize, hroom⟩ := hroom
    obtain ⟨s', hserve, hgranted⟩ := serve_fits hknown hlayout h hsize (hrounds size hsize) hroom
    refine ⟨_, s', hserve, .inl ⟨size, hsize, hgranted⟩, fun size' hsize' _ => ?_⟩
    obtain rfl := Option.some.inj (hsize.symm.trans hsize')
    rw [hgranted.next]
    exact h.push hroom s'.memory
  · have hfull : ∀ size, r.size? p = some size → s.heapEnd.toNat < s.heapNext.toNat + blockBytes size :=
      fun size hsize => Nat.lt_of_not_le fun hle => hroom ⟨size, hsize, hle⟩
    exact ⟨0, s, serve_full hknown fun size hsize => ⟨hrounds size hsize, hfull size hsize⟩,
      .inr ⟨rfl, rfl, hfull⟩, fun _ _ hne => absurd rfl hne⟩

/-- To ask is to be told that there is no such request, or to be passed what is served. -/
theorem Heap.run (h : Heap blocks s) (e : Entry) :
    (∃ fault, e.request p s = .error fault s ∧ e.run p s = .error fault s) ∨
      ∃ r, e.request p s = .ok r s ∧ (r.Rounds p → ∃ a s', e.run p s = e.answer a s' ∧
        Served p r blocks s a s' ∧
        ∀ size, r.size? p = some size → a ≠ 0 → Heap (⟨a, blockBytes size⟩ :: blocks) s') := by
  rw [Entry.run_eq]
  obtain ⟨r, hrequest, hknown⟩ | ⟨fault, hrequest⟩ := e.request_cases (p := p) s
  · refine .inr ⟨r, hrequest, fun hrounds => ?_⟩
    obtain ⟨a, s', hserve, hserved, hheap⟩ := h.serve hlayout hknown hrounds
    refine ⟨a, s', ?_, hserved, hheap⟩
    rw [bind_of_ok hrequest, bind_of_ok hserve]
  · exact .inl ⟨fault, hrequest, bind_of_error hrequest⟩

/-- Whatever is asked for, the heap stays in order. -/
theorem Heap.of_history (hstart : Heap [] start) (h : History p start blocks s) : Heap blocks s := by
  induction h with
  | start => exact hstart
  | work memory released _ ih => exact ih.withMemory memory released
  | @granted blocks s s' e r size a _ hasks hsize hrounds hruns ha ih =>
    obtain ⟨fault, hnone, -⟩ | ⟨r', hrequest, hserved⟩ := ih.run hlayout e
    · cases hasks.symm.trans hnone
    cases hasks.symm.trans hrequest
    obtain ⟨a', s₁, hrun, -, hheap⟩ := hserved fun size' hsize' => by
      obtain rfl := Option.some.inj (hsize.symm.trans hsize')
      exact hrounds
    obtain ⟨memory, hanswer | ⟨fault, hanswer⟩⟩ := e.answer_cases s₁ a'
    · cases hruns.symm.trans (hrun.trans hanswer)
      exact (hheap size hsize ha).withMemory memory s₁.released
    · cases hruns.symm.trans (hrun.trans hanswer)
  | @refused blocks s s' e _ hrounds hruns ih =>
    obtain ⟨fault, -, hrun⟩ | ⟨r, hrequest, hserved⟩ := ih.run hlayout e
    · cases hruns.symm.trans hrun
    obtain ⟨a, s₁, hrun, hserved, -⟩ := hserved (hrounds r hrequest)
    obtain ⟨memory, hanswer | ⟨fault, hanswer⟩⟩ := e.answer_cases s₁ a
    · cases hruns.symm.trans (hrun.trans hanswer)
      obtain ⟨size, -, hgranted⟩ | hdenied := hserved
      · exact absurd rfl hgranted.nonnull
      · rw [hdenied.unchanged]
        exact ih.withMemory memory s.released
    · cases hruns.symm.trans (hrun.trans hanswer)
  | @failed blocks s s' e fault _ hrounds hruns ih =>
    obtain ⟨fault', -, hrun⟩ | ⟨r, hrequest, hserved⟩ := ih.run hlayout e
    · cases hruns.symm.trans hrun
      exact ih
    obtain ⟨a, s₁, hrun, hserved, hheap⟩ := hserved (hrounds r hrequest)
    have hkeeps : Heap blocks s₁ := by
      obtain ⟨size, hsize, hgranted⟩ | hdenied := hserved
      · exact (hheap size hsize hgranted.nonnull).tail
      · rw [hdenied.unchanged]
        exact ih
    obtain ⟨memory, hanswer | ⟨fault', hanswer⟩⟩ := e.answer_cases s₁ a
    · cases hruns.symm.trans (hrun.trans hanswer)
    · cases hruns.symm.trans (hrun.trans hanswer)
      exact hkeeps.withMemory memory s₁.released

end History

/-! ## Linked programs -/

section Linked

variable {I : Type} [TargetInstr I] {methods : List (CompiledMethod I)} {tables : Table} {options : Options}
  {config : RunConfig} {p : Program I} {start : Store}

/-- What linking says about the heap. -/
structure LinkedHeap (tables : Table) (options : Options) (config : RunConfig) (p : Program I)
    (start : Store) : Prop where
  layout : p.layout = options.layout
  next : start.heapNext = heapBase
  stop : start.heapEnd = heapBase + min config.heapCapacity heapLimit
  types : ∃ places stop, placeTypes (descriptorSize options.layout) dataBase tables.types = .ok (places, stop) ∧
    p.types = Std.HashMap.ofList (places.map fun place => (place.type.id, place.address)) ∧
    p.typeInfo = Std.HashMap.ofList (places.map fun place =>
      (place.address,
        { instanceSize := UInt32.ofNat place.type.heapSize
          elementSize := UInt32.ofNat (place.type.storageSize options.pointerSize) }))

theorem heap_of_link (hlink : link methods tables options config = .ok (p, start)) :
    LinkedHeap tables options config p start := by
  unfold link at hlink
  obtain ⟨⟨places, stop⟩, hplaces, hlink⟩ := answer_bind.mp hlink
  obtain ⟨memory, -, hlink⟩ := answer_bind.mp hlink
  obtain ⟨⟨statics, next'⟩, -, hlink⟩ := answer_bind.mp hlink
  obtain ⟨⟨strings, next''⟩, -, hlink⟩ := answer_bind.mp hlink
  obtain ⟨memory', -, hlink⟩ := answer_bind.mp hlink
  obtain ⟨rfl, rfl⟩ := Prod.mk.inj (Except.ok.inj hlink)
  exact ⟨rfl, rfl, rfl, places, stop, hplaces, rfl, rfl⟩

omit [TargetInstr I] in
theorem LinkedHeap.heap (h : LinkedHeap tables options config p start) : Heap [] start := by
  have hmin : (min config.heapCapacity heapLimit).toNat ≤ heapLimit.toNat := by
    rw [toNat_min]
    exact Nat.min_le_right ..
  have hend : start.heapEnd.toNat = heapBase.toNat + (min config.heapCapacity heapLimit).toNat := by
    simp only [heapBase, heapLimit, UInt32.reduceToNat] at hmin ⊢
    rw [h.stop, UInt32.toNat_add]
    simp only [heapBase, heapLimit, UInt32.reduceToNat]
    omega
  refine ⟨by simp, .nil, ?_, ?_, ?_, ?_⟩
  · rw [h.next]
    decide
  · rw [h.next]
  · rw [h.next, hend]
    exact Nat.le_add_right _ _
  · rw [hend]
    exact Nat.add_le_add_left hmin _

/-- Over any history of requests to a linked program, the blocks that were handed out are aligned and lie
apart within the heap. A further request whose size can be rounded up is granted a block of zeros with its
header, or is refused and changes nothing; a block that was handed out before keeps its bytes. -/
theorem heap_invariant {s : Store} {blocks : List Block}
    (hlink : link methods tables options config = .ok (p, start)) (hlayout : options.layout = {})
    (h : History p start blocks s) :
    Heap blocks s ∧ ∀ e : Entry,
      (∃ fault, e.request p s = .error fault s ∧ e.run p s = .error fault s) ∨
        ∃ r, e.request p s = .ok r s ∧ (r.Rounds p → ∃ a s', e.run p s = e.answer a s' ∧
          Served p r blocks s a s') := by
  have hlinked := heap_of_link hlink
  have hobjects : p.layout = {} := hlinked.layout.trans hlayout
  have hheap := Heap.of_history hobjects hlinked.heap h
  refine ⟨hheap, fun e => (hheap.run hobjects e).imp id ?_⟩
  rintro ⟨r, hrequest, hserved⟩
  refine ⟨r, hrequest, fun hrounds => ?_⟩
  obtain ⟨a, s', hrun, hserved, -⟩ := hserved hrounds
  exact ⟨a, s', hrun, hserved⟩

theorem heap_invariant_gallery :
    ∃ (p : Program X86.Instr) (start s : Store), link [drawCode] galleryTable {} {} = .ok (p, start) ∧
      History p start [⟨heapBase, 12⟩] s ∧ Heap [⟨heapBase, 12⟩] s ∧ ∀ e : Entry,
        (∃ fault, e.request p s = .error fault s ∧ e.run p s = .error fault s) ∨
          ∃ r, e.request p s = .ok r s ∧ (r.Rounds p → ∃ a s', e.run p s = e.answer a s' ∧
            Served p r [⟨heapBase, 12⟩] s a s') := by
  cases hlink : link [drawCode] galleryTable {} {} with
  | error fault =>
    have hok : (link [drawCode] galleryTable {} {}).isOk = true := by decide +kernel
    rw [hlink] at hok
    cases hok
  | ok result =>
    obtain ⟨p, start⟩ := result
    have hlinked := heap_of_link hlink
    obtain ⟨places, stop, hplaces, htypes, hinfos⟩ := hlinked.types
    have hplaced : placeTypes 16 dataBase galleryTable.types =
        .ok ([⟨squareType, 0x1000, 0x1010⟩, ⟨figureType, 0x1018, 0x1028⟩,
          ⟨.composite 3 "Matrix" 20, 0x1038, 0x1048⟩], 0x1050) := rfl
    cases hplaces.symm.trans hplaced
    have haddress : p.types[squareType.id]? = some dataBase := by
      rw [htypes]
      exact Std.HashMap.getElem?_ofList_of_mem (k := squareType.id) (by simp) (by decide) List.mem_cons_self
    have hknown : p.typeInfo[dataBase]? = some ⟨12, 4⟩ := by
      rw [hinfos]
      exact Std.HashMap.getElem?_ofList_of_mem (k := dataBase) (by simp) (by decide) List.mem_cons_self
    -- one square is asked for
    have hasks : (Entry.allocObject squareType.id).request p start = .ok (.object dataBase ⟨12, 4⟩) start := by
      rw [Entry.request, Program.typeAddress, haddress]
      show (do return Request.object dataBase (← p.typeInfoAt dataBase) : StoreM Request) start = _
      rw [Program.typeInfoAt, hknown]
      rfl
    have hroom : start.heapNext.toNat + blockBytes 12 ≤ start.heapEnd.toNat := by
      rw [hlinked.next, hlinked.stop]
      decide
    obtain ⟨s, hserve, hgranted⟩ := serve_fits (r := .object dataBase ⟨12, 4⟩) hknown hlinked.layout
      hlinked.heap rfl (by decide) hroom
    have hruns : (Entry.allocObject squareType.id).run p start = .ok heapBase s := by
      rw [Entry.run_eq, bind_of_ok hasks, bind_of_ok hserve, hlinked.next]
      rfl
    have hhistory : History p start [⟨heapBase, 12⟩] s :=
      .granted .start hasks rfl (by decide) hruns (by decide)
    exact ⟨p, start, s, rfl, hhistory, heap_invariant hlink rfl hhistory⟩

end Linked

/-! ## Sizes of arrays

The size of an array is computed without a carry and then rounded up to words, which carries for the last
three sizes that a word counts. An array of any other size ends within the heap; for one of those sizes
nothing is taken from the heap and the array is handed out all the same. -/

/-! ### What is taken -/

/-- Rounding is exact up to the last multiple of four, and carries to zero from there on. -/
theorem roundUp_exact_iff (size : UInt32) :
    ((roundUp (max size 4) 4).toNat = blockBytes size ↔ size.toNat ≤ 0xFFFFFFFC) ∧
      (0xFFFFFFFC < size.toNat → (roundUp (max size 4) 4).toNat = 0) := by
  have hlt := size.toNat_lt
  rw [toNat_roundUp_four, blockBytes]
  omega

theorem Store.heapNext_writeWord {a w : UInt32} {s s' : Store} (h : writeWord a w s = .ok () s') :
    s'.heapNext = s.heapNext := by
  unfold writeWord write at h
  split at h <;> cases h
  rfl

/-! ### Arrays -/

section Array

variable {I : Type} {p : Program I} {descriptor length array : UInt32} {info : TypeInfo} {s s' : Store}

/-- Exact bytes of an array. -/
def arrayBytes (p : Program I) (info : TypeInfo) (length : UInt32) : Nat :=
  length.toNat * info.elementSize.toNat + p.layout.arrayHeader

/-- An array that is handed out has a size that a word counts. It ends within the heap if that size can be
rounded up; else nothing is taken for it. -/
theorem array_within_heap (hinfo : p.typeInfo[descriptor]? = some info)
    (h : p.newArray descriptor length s = .ok array s') (ha : array ≠ 0) :
    arrayBytes p info length < 2 ^ 32 ∧
      (arrayBytes p info length ≤ 0xFFFFFFFC →
        array.toNat + arrayBytes p info length ≤ s.heapEnd.toNat) ∧
      (0xFFFFFFFC < arrayBytes p info length → s'.heapNext = s.heapNext) := by
  have htype : p.typeInfoAt descriptor s = .ok info s := by
    rw [Program.typeInfoAt, hinfo]
    rfl
  rw [Program.newArray, bind_of_ok htype] at h
  cases hsize : p.arraySize? info.elementSize length with
  | none =>
    rw [hsize] at h
    cases h
    exact absurd rfl ha
  | some size =>
    rw [hsize] at h
    obtain ⟨-, hexact⟩ := toNat_of_arraySize? hsize
    have hbytes : arrayBytes p info length = size.toNat := hexact.symm
    obtain ⟨a, t, hallocate, h⟩ := bind_eq_ok.mp h
    -- the header is written behind the allocation
    obtain ⟨rfl, hnext⟩ : a = array ∧ s'.heapNext = t.heapNext := by
      split at h
      · obtain ⟨_, t₁, hlength, h⟩ := bind_eq_ok.mp h
        obtain ⟨_, t₂, helement, h⟩ := bind_eq_ok.mp h
        cases h
        exact ⟨rfl, (Store.heapNext_writeWord helement).trans (Store.heapNext_writeWord hlength)⟩
      · cases h
        exact ⟨rfl, rfl⟩
    obtain ⟨rfl, hroom, htaken⟩ := Store.allocate_ok hallocate ha
    obtain ⟨hrounds, hcarries⟩ := roundUp_exact_iff size
    rw [hbytes]
    refine ⟨size.toNat_lt, fun hle => ?_, fun hlt => ?_⟩
    · rw [hrounds.mpr hle, blockBytes] at hroom
      omega
    · rw [hnext, htaken, hcarries hlt, Nat.add_zero, UInt32.ofNat_toNat]

/-- A program that knows a type with elements of two bytes. -/
def shortProgram : Program X86.Instr where
  code := #[]
  labels := ∅
  symbols := ∅
  methods := []
  types := ∅
  typeInfo := (∅ : Std.HashMap UInt32 TypeInfo).insert dataBase ⟨2, 2⟩
  layout := {}
  stepLimit := 0

def shortStore : Store := { memory := .empty, heapNext := heapBase, heapEnd := heapBase + 0x100000 }

theorem shortProgram_typeInfo : shortProgram.typeInfo[dataBase]? = some ⟨2, 2⟩ := by simp [shortProgram]

/-- Arrays for which allocation takes this many bytes are handed out. -/
theorem newArray_short (length : UInt32) {size : UInt32}
    (hsize : shortProgram.arraySize? 2 length = some size)
    (hroom : (roundUp (max size 4) 4).toNat ≤ 0x100000) :
    ∃ s, shortProgram.newArray dataBase length shortStore = .ok heapBase s := by
  have htype : shortProgram.typeInfoAt dataBase shortStore = .ok ⟨2, 2⟩ shortStore := by
    rw [Program.typeInfoAt, shortProgram_typeInfo]
    rfl
  have hallocate := @Store.allocate_fits size shortStore
    (show 0x100000 + (roundUp (max size 4) 4).toNat ≤ 0x200000 by omega)
    (Memory.mapped_iff.mpr ⟨by decide, show 0x100000 + (roundUp (max size 4) 4).toNat ≤ 0x400000 by omega⟩)
  rw [Program.newArray, bind_of_ok htype, hsize]
  dsimp only
  rw [bind_of_ok hallocate, if_pos (by decide),
    bind_of_ok (Store.writeWord_of_mapped (by decide) length _),
    bind_of_ok (Store.writeWord_of_mapped (by decide) dataBase _)]
  exact ⟨_, rfl⟩

theorem array_within_heap_short :
    ∃ s, shortProgram.typeInfo[dataBase]? = some ⟨2, 2⟩ ∧
      shortProgram.newArray dataBase 5 shortStore = .ok heapBase s ∧ heapBase ≠ 0 ∧
      heapBase.toNat + arrayBytes shortProgram ⟨2, 2⟩ 5 ≤ shortStore.heapEnd.toNat := by
  obtain ⟨s, harray⟩ := newArray_short 5 rfl (by decide)
  exact ⟨s, shortProgram_typeInfo, harray, by decide,
    (array_within_heap shortProgram_typeInfo harray (by decide)).2.1 (by decide)⟩

/-- An array of nearly all of memory is handed out on a heap of one million bytes. -/
theorem array_beyond_heap :
    ∃ s, shortProgram.newArray dataBase 0x7FFFFFF9 shortStore = .ok heapBase s ∧ heapBase ≠ 0 ∧
      shortStore.heapEnd.toNat < heapBase.toNat + arrayBytes shortProgram ⟨2, 2⟩ 0x7FFFFFF9 ∧
      (roundUp (max (.ofNat (arrayBytes shortProgram ⟨2, 2⟩ 0x7FFFFFF9)) 4) 4).toNat = 0 := by
  obtain ⟨s, harray⟩ := newArray_short 0x7FFFFFF9 rfl (by decide)
  exact ⟨s, harray, by decide, by decide, by decide⟩

end Array

end Stencil
