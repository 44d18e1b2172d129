import Stencil.Machine.Heap
import Mathlib.Data.UInt

/-!
# The stack as a list of words

Between the stack pointer and its top the memory holds a list of words, the one at the stack pointer
first. Pushes, pops and accesses relative to a pointer into the stack are operations on the list. The
rest of memory does not matter.
-/

namespace Stencil

open AddressMap

/-! ## Bytes of memory -/

namespace Memory

theorem byte_setByte {m : Memory} {a : Nat} (ha : a < memorySize) (b : UInt8) (c : Nat) :
    (m.setByte a b).byte c = if c = a then b else m.byte c := by
  unfold setByte byte
  rw [dif_pos ha]
  by_cases hc : c < memorySize
  · rw [dif_pos hc, dif_pos hc, Vector.getElem_set]
    simp only [eq_comm]
  · rw [dif_neg hc, dif_neg hc, if_neg]
    rintro rfl
    exact hc ha

theorem byte_put_of_lt {m : Memory} {a count c : Nat} (value : UInt32)
    (ha : a + count ≤ memorySize) (hc : c < a) : (m.put a value count).byte c = m.byte c := by
  induction count generalizing m a value with
  | zero => rfl
  | succ count ih =>
    rw [put, ih _ (by omega) (by omega), byte_setByte (by omega), if_neg (by omega)]

theorem byte_put_of_ge {m : Memory} {a count c : Nat} (value : UInt32)
    (ha : a + count ≤ memorySize) (hc : a + count ≤ c) :
    (m.put a value count).byte c = m.byte c := by
  induction count generalizing m a value with
  | zero => rfl
  | succ count ih =>
    rw [put, ih _ (by omega) (by omega), byte_setByte (by omega), if_neg (by omega)]

theorem valueAt_congr {m m' : Memory} {a count : Nat}
    (h : ∀ c, a ≤ c → c < a + count → m'.byte c = m.byte c) :
    m'.valueAt a count = m.valueAt a count := by
  induction count generalizing a with
  | zero => rfl
  | succ count ih =>
    rw [valueAt, valueAt, h a (Nat.le_refl a) (by omega), ih fun c hc hlt => h c (by omega) (by omega)]

theorem valueAt_put {m : Memory} {a count : Nat} (value : UInt32) (ha : a + count ≤ memorySize) :
    (m.put a value count).valueAt a count = value.toNat % 256 ^ count := by
  induction count generalizing m a value with
  | zero => simp [valueAt, Nat.mod_one]
  | succ count ih =>
    have hbyte : (m.put a value (count + 1)).byte a = value.toUInt8 := by
      rw [put, byte_put_of_lt _ (by omega) (by omega), byte_setByte (by omega), if_pos rfl]
    have hshift : (value >>> 8).toNat = value.toNat / 256 := by
      simp [Nat.shiftRight_eq_div_pow]
    rw [valueAt, hbyte, put, ih _ (by omega), hshift, Nat.pow_succ, Nat.mul_comm (256 ^ count),
      Nat.mod_mul]
    simp

theorem valueAt_put_of_disjoint {m : Memory} {a b count : Nat} (value : UInt32)
    (ha : a + 4 ≤ memorySize) (hdisjoint : b + count ≤ a ∨ a + 4 ≤ b) :
    (m.put a value 4).valueAt b count = m.valueAt b count := by
  refine valueAt_congr fun c hc hlt => ?_
  rcases hdisjoint with hbelow | habove
  · exact byte_put_of_lt value ha (by omega)
  · exact byte_put_of_ge value ha (by omega)

theorem read_put {m : Memory} {a : UInt32} (h : mapped a 4 = true) (w : UInt32) :
    (m.put a.toNat w 4).read a 4 = .ok w := by
  have hfits : a.toNat + 4 ≤ memorySize := by
    rw [mapped, Bool.and_eq_true, decide_eq_true_eq, decide_eq_true_eq] at h
    exact h.2
  have hword : w.toNat % 256 ^ 4 = w.toNat := Nat.mod_eq_of_lt w.toNat_lt
  rw [read, if_pos h, valueAt_put w hfits, hword]
  simp

theorem valueAt_lt (m : Memory) (a count : Nat) : m.valueAt a count < 256 ^ count := by
  induction count generalizing a with
  | zero => simp [valueAt]
  | succ count ih =>
    have hbyte := (m.byte a).toNat_lt
    have hrest := ih (a + 1)
    rw [valueAt, Nat.pow_succ]
    omega

end Memory

/-! ## Words of the stack -/

/-- Words that fit between the unmapped page and the top of the stack. -/
def stackCapacity : Nat := 0xFFBFC

/-- Where the word lies that has `above` words between it and the top of the stack. -/
def wordPlace (above : Nat) : Nat := 0x3FFFF0 - 4 * (above + 1)

def wordAddress (above : Nat) : UInt32 := stackTop - 4 * UInt32.ofNat (above + 1)

theorem toNat_wordAddress {above : Nat} (h : above < stackCapacity) :
    (wordAddress above).toNat = wordPlace above := by
  have habove : above < 0xFFBFC := h
  have hword : (UInt32.ofNat (above + 1)).toNat = above + 1 :=
    UInt32.toNat_ofNat_of_lt' (by simp [UInt32.size]; omega)
  have hproduct : (4 * UInt32.ofNat (above + 1)).toNat = 4 * (above + 1) := by
    rw [UInt32.toNat_mul, hword]
    simp only [UInt32.reduceToNat]
    omega
  have hle : 4 * UInt32.ofNat (above + 1) ≤ stackTop := by
    rw [UInt32.le_iff_toNat_le, hproduct]
    simp only [stackTop, UInt32.reduceToNat]
    omega
  rw [wordAddress, UInt32.toNat_sub_of_le _ _ hle, hproduct]
  rfl

theorem mapped_wordAddress {above : Nat} (h : above < stackCapacity) :
    Memory.mapped (wordAddress above) 4 = true := by
  have haddress := toNat_wordAddress h
  have habove : above < 0xFFBFC := h
  rw [Memory.mapped, Bool.and_eq_true, decide_eq_true_eq, decide_eq_true_eq, UInt32.le_iff_toNat_le,
    haddress]
  simp only [nullGuard, memorySize, UInt32.reduceToNat, wordPlace]
  omega

theorem wordAddress_mod_four {above : Nat} (h : above < stackCapacity) :
    (wordAddress above).toNat % 4 = 0 := by
  have habove : above < 0xFFBFC := h
  rw [toNat_wordAddress h, wordPlace]
  omega

def stackPointer (words : List UInt32) : UInt32 := stackTop - 4 * UInt32.ofNat words.length

theorem stackPointer_cons (w : UInt32) (words : List UInt32) :
    stackPointer (w :: words) = wordAddress words.length := rfl

theorem stackPointer_mod_four {words : List UInt32} (h : words.length ≤ stackCapacity) :
    (stackPointer words).toNat % 4 = 0 := by
  cases words with
  | nil => rfl
  | cons w words => exact wordAddress_mod_four h

theorem stackPointer_cons_add (w : UInt32) (words : List UInt32) :
    stackPointer (w :: words) + 4 = stackPointer words := by
  simp only [stackPointer, List.length_cons, UInt32.ofNat_add, UInt32.mul_add]
  show stackTop - (4 * UInt32.ofNat words.length + 4) + 4 = stackTop - 4 * UInt32.ofNat words.length
  grind

theorem stackPointer_sub (w : UInt32) (words : List UInt32) :
    stackPointer words - 4 = stackPointer (w :: words) := by
  rw [← stackPointer_cons_add w words]
  grind

theorem stackPointer_append (front words : List UInt32) :
    stackPointer (front ++ words) + 4 * UInt32.ofNat front.length = stackPointer words := by
  simp only [stackPointer, List.length_append, UInt32.ofNat_add, UInt32.mul_add]
  grind

/-- Memory holds the words below the top of the stack. -/
def Memory.Holds (m : Memory) : List UInt32 → Prop
  | [] => True
  | w :: words =>
    words.length < stackCapacity ∧
      m.valueAt (wordPlace words.length) 4 = w.toNat ∧ m.Holds words

namespace Memory.Holds

variable {m : Memory} {words front : List UInt32}

theorem cons_iff {w : UInt32} : m.Holds (w :: words) ↔ words.length < stackCapacity ∧
    m.valueAt (wordPlace words.length) 4 = w.toNat ∧ m.Holds words := Iff.rfl

theorem length_le (h : m.Holds words) : words.length ≤ stackCapacity := by
  cases words with
  | nil => exact Nat.zero_le _
  | cons w words => exact h.1

theorem of_append (h : m.Holds (front ++ words)) : m.Holds words := by
  induction front with
  | nil => exact h
  | cons w front ih => exact ih h.2.2

theorem read {w : UInt32} (h : m.Holds (front ++ w :: words)) :
    m.read (wordAddress words.length) 4 = .ok w := by
  obtain ⟨hlt, hvalue, -⟩ := h.of_append
  rw [Memory.read, if_pos (mapped_wordAddress hlt), toNat_wordAddress hlt, hvalue]
  simp

theorem read_top {w : UInt32} (h : m.Holds (w :: words)) : m.read (wordAddress words.length) 4 = .ok w := by
  have htop : m.Holds ([] ++ w :: words) := h
  exact htop.read

/-- A write below the words that are held leaves them alone. -/
theorem put_below {above : Nat} (h : m.Holds words) (value : UInt32)
    (habove : words.length ≤ above) (hlt : above < stackCapacity) :
    (m.put (wordPlace above) value 4).Holds words := by
  have hcapacity : above < 0xFFBFC := hlt
  induction words with
  | nil => trivial
  | cons w words ih =>
    obtain ⟨hfits, hvalue, hrest⟩ := h
    rw [List.length_cons] at habove
    refine ⟨hfits, ?_, ih hrest (by omega)⟩
    rw [valueAt_put_of_disjoint _ (by simp only [memorySize, wordPlace]; omega)
      (.inr (by simp only [wordPlace]; omega)), hvalue]

theorem put_word {value : UInt32} (hlt : words.length < stackCapacity) (h : m.Holds words) :
    (m.put (wordPlace words.length) value 4).Holds (value :: words) := by
  have hcapacity : words.length < 0xFFBFC := hlt
  refine ⟨hlt, ?_, h.put_below value (Nat.le_refl _) hlt⟩
  rw [valueAt_put _ (by simp only [memorySize, wordPlace]; omega)]
  exact Nat.mod_eq_of_lt value.toNat_lt

theorem put {w value : UInt32} (h : m.Holds (front ++ w :: words)) :
    (m.put (wordPlace words.length) value 4).Holds (front ++ value :: words) := by
  induction front with
  | nil => exact put_word h.1 h.2.2
  | cons u front ih =>
    rw [List.cons_append] at h ⊢
    obtain ⟨hfits, hvalue, hrest⟩ := cons_iff.mp h
    have hlength : (front ++ w :: words).length = (front ++ value :: words).length := by simp
    rw [hlength] at hfits hvalue
    have hcapacity : (front ++ value :: words).length < 0xFFBFC := hfits
    refine cons_iff.mpr ⟨hfits, ?_, ih hrest⟩
    rw [List.length_append, List.length_cons] at hcapacity
    rw [valueAt_put_of_disjoint _ (by simp only [memorySize, wordPlace]; omega) (.inl ?_), hvalue]
    rw [List.length_append, List.length_cons]
    simp only [wordPlace]
    omega

/-- Whatever lies below the words can be counted among them. -/
theorem extend (h : m.Holds words) (count : Nat) (hfits : count + words.length ≤ stackCapacity) :
    ∃ front : List UInt32, front.length = count ∧ m.Holds (front ++ words) := by
  induction count with
  | zero => exact ⟨[], rfl, h⟩
  | succ count ih =>
    obtain ⟨front, hlength, hfront⟩ := ih (by omega)
    let w := UInt32.ofNat (m.valueAt (wordPlace (front ++ words).length) 4)
    refine ⟨w :: front, by simp [hlength], ?_⟩
    rw [List.cons_append]
    refine cons_iff.mpr ⟨?_, ?_, hfront⟩
    · rw [List.length_append]
      omega
    · have hlt := m.valueAt_lt (wordPlace (front ++ words).length) 4
      exact (UInt32.toNat_ofNat_of_lt' hlt).symm

end Memory.Holds

/-! ## Accesses to the store -/

namespace Store

def withWord (s : Store) (a w : UInt32) : Store := { s with memory := s.memory.put a.toNat w 4 }

theorem writeWord_of_mapped {a : UInt32} (h : Memory.mapped a 4 = true) (w : UInt32) (s : Store) :
    writeWord a w s = .ok () (s.withWord a w) := by
  rw [writeWord, write, if_pos h]
  rfl

theorem read_withWord {a : UInt32} (h : Memory.mapped a 4 = true) (w : UInt32) (s : Store) :
    (s.withWord a w).memory.read a 4 = .ok w := Memory.read_put h w

/-- A write that succeeds leaves the word where it was written. -/
theorem read_of_writeWord {a w : UInt32} {s t : Store} (h : writeWord a w s = .ok () t) :
    t.memory.read a 4 = .ok w := by
  by_cases hmapped : Memory.mapped a 4 = true
  · rw [writeWord_of_mapped hmapped] at h
    obtain ⟨-, rfl⟩ := EStateM.Result.ok.inj h
    exact read_withWord hmapped w s
  · have hfault : writeWord a w s = .error (.memory a) s := if_neg hmapped
    cases hfault.symm.trans h

variable {s : Store} {words front : List UInt32} {w : UInt32}

theorem readWord_of_holds (h : s.memory.Holds (front ++ w :: words)) :
    readWord (wordAddress words.length) s = .ok w s := by
  rw [readWord, Store.read, h.read]

theorem readWord_stackPointer (h : s.memory.Holds (w :: words)) :
    readWord (stackPointer (w :: words)) s = .ok w s := by
  rw [stackPointer_cons]
  exact readWord_of_holds (List.nil_append (w :: words) ▸ h)

theorem writeWord_of_holds (value : UInt32) (h : s.memory.Holds (front ++ w :: words)) :
    ∃ s', writeWord (wordAddress words.length) value s = .ok () s' ∧
      s'.memory.Holds (front ++ value :: words) := by
  have hlt := h.of_append.1
  rw [writeWord, Store.write, if_pos (mapped_wordAddress hlt), toNat_wordAddress hlt]
  exact ⟨_, rfl, h.put⟩

theorem writeWord_push (value : UInt32) (hlt : words.length < stackCapacity)
    (h : s.memory.Holds words) :
    ∃ s', writeWord (stackPointer (value :: words)) value s = .ok () s' ∧
      s'.memory.Holds (value :: words) := by
  rw [stackPointer_cons, writeWord, Store.write, if_pos (mapped_wordAddress hlt),
    toNat_wordAddress hlt]
  exact ⟨_, rfl, h.put_word hlt⟩

end Store

end Stencil
