import Stencil.Proofs.Meaning.Words
import Stencil.Proofs.Machine.Data
import Mathlib.Order.Interval.Set.Basic

/-!
# Values in memory

The bytes of a value spell a number, least significant first. Loading the value gives the words of the
number, extended by its sign where that is asked for; storing words writes the first bytes of their
number.
-/

namespace Stencil

open AddressMap Meaning

/-! ## Addresses -/

theorem toNat_add_ofNat {a : UInt32} {n : Nat} (h : a.toNat + n < 0x100000000) :
    (a + UInt32.ofNat n).toNat = a.toNat + n := by
  rw [UInt32.toNat_add, UInt32.toNat_ofNat']
  omega

theorem toNat_sub_ofNat {a : UInt32} {n : Nat} (h : n ≤ a.toNat) :
    (a - UInt32.ofNat n).toNat = a.toNat - n := by
  have ha := a.toNat_lt
  have hn : (UInt32.ofNat n).toNat = n := UInt32.toNat_ofNat_of_lt' (by rw [UInt32.size]; omega)
  rw [UInt32.toNat_sub_of_le _ _ (UInt32.le_iff_toNat_le.mpr (by omega)), hn]

/-! ## Numbers that bytes spell -/

namespace Memory

theorem valueAt_one (m : Memory) (a : Nat) : m.valueAt a 1 = (m.byte a).toNat := by
  rw [valueAt, valueAt, Nat.mul_zero, Nat.add_zero]

theorem valueAt_add (m : Memory) (a j k : Nat) :
    m.valueAt a (j + k) = m.valueAt a j + 256 ^ j * m.valueAt (a + j) k := by
  induction j generalizing a with
  | zero => rw [Nat.zero_add, valueAt, Nat.zero_add, Nat.pow_zero, Nat.one_mul, Nat.add_zero]
  | succ j ih =>
    have hplace : a + 1 + j = a + (j + 1) := by omega
    rw [Nat.add_right_comm, valueAt, valueAt, ih, hplace, Nat.pow_succ, Nat.mul_add, Nat.add_assoc,
      Nat.mul_comm (256 ^ j) 256, Nat.mul_assoc]

theorem valueAt_mod (m : Memory) (a : Nat) {j n : Nat} (h : j ≤ n) :
    m.valueAt a n % 256 ^ j = m.valueAt a j := by
  obtain ⟨k, rfl⟩ := Nat.exists_eq_add_of_le h
  rw [valueAt_add, Nat.add_mul_mod_self_left, Nat.mod_eq_of_lt (valueAt_lt m a j)]

theorem valueAt_div (m : Memory) (a j k : Nat) :
    m.valueAt a (j + k) / 256 ^ j = m.valueAt (a + j) k := by
  rw [valueAt_add, Nat.add_mul_div_left _ _ (Nat.pow_pos (by decide)), Nat.div_eq_of_lt (valueAt_lt m a j),
    Nat.zero_add]

theorem ofNat_valueAt_div (m : Memory) (a : Nat) {j n : Nat} (h : j < n) :
    UInt8.ofNat (m.valueAt a n / 256 ^ j) = m.byte (a + j) := by
  obtain ⟨k, rfl⟩ := Nat.exists_eq_add_of_lt h
  rw [Nat.add_assoc, valueAt_div, valueAt, ← UInt8.toNat_inj, UInt8.toNat_ofNat']
  have := (m.byte (a + j)).toNat_lt
  omega

theorem valueAt_of_bytes {m m' : Memory} {a b n : Nat} (h : ∀ j < n, m'.byte (b + j) = m.byte (a + j)) :
    m'.valueAt b n = m.valueAt a n := by
  induction n generalizing a b with
  | zero => rfl
  | succ n ih =>
    have hrest : ∀ j < n, m'.byte (b + 1 + j) = m.byte (a + 1 + j) := fun j hj => by
      rw [Nat.add_assoc, Nat.add_assoc, Nat.add_comm 1 j]
      exact h (j + 1) (by omega)
    have hfirst : m'.byte b = m.byte a := h 0 (by omega)
    rw [valueAt, valueAt, ih hrest, hfirst]

theorem ofNat_mod_div (value : Nat) {j n : Nat} (h : j < n) :
    UInt8.ofNat (value % 256 ^ n / 256 ^ j) = UInt8.ofNat (value / 256 ^ j) := by
  obtain ⟨k, rfl⟩ := Nat.exists_eq_add_of_lt h
  have hsplit : 256 ^ (j + k + 1) = 256 ^ j * (256 ^ k * 256) := by
    rw [Nat.pow_succ, Nat.pow_add, Nat.mul_assoc]
  rw [hsplit, Nat.mod_mul_right_div_self, ← UInt8.toNat_inj, UInt8.toNat_ofNat', UInt8.toNat_ofNat']
  exact Nat.mod_mul_left_mod ..

theorem byte_put {m : Memory} {a j n : Nat} (value : UInt32) (hj : j < n) (ha : a + n ≤ memorySize) :
    (m.put a value n).byte (a + j) = UInt8.ofNat (value.toNat / 256 ^ j) := by
  rw [← ofNat_valueAt_div _ a hj, valueAt_put value ha, ofNat_mod_div _ hj]

/-- Memory differs in `n` bytes from `a` on, which are the given ones now. -/
structure Wrote (m : Memory) (a n : Nat) (bytes : Nat → UInt8) (m' : Memory) : Prop where
  wrote : ∀ j < n, m'.byte (a + j) = bytes j
  kept : ∀ c ∉ Set.Ico a (a + n), m'.byte c = m.byte c

theorem Wrote.zero (m : Memory) (a : Nat) (bytes : Nat → UInt8) : m.Wrote a 0 bytes m :=
  ⟨fun j hj => absurd hj (Nat.not_lt_zero j), fun _ _ => rfl⟩

theorem Wrote.put {m m' : Memory} {a n k : Nat} {bytes : Nat → UInt8} (h : m.Wrote a n bytes m')
    {value : UInt32} (hvalue : ∀ j < k, UInt8.ofNat (value.toNat / 256 ^ j) = bytes (n + j))
    (hfits : a + n + k ≤ memorySize) : m.Wrote a (n + k) bytes (m'.put (a + n) value k) where
  wrote j hj := by
    by_cases hlt : j < n
    · rw [byte_put_of_lt value hfits (by omega), h.wrote j hlt]
    · obtain ⟨i, rfl⟩ := Nat.exists_eq_add_of_le (Nat.le_of_not_lt hlt)
      rw [← Nat.add_assoc, byte_put value (by omega) hfits, hvalue i (by omega)]
  kept c hc := by
    rw [Set.mem_Ico] at hc
    have hkept : m'.byte c = m.byte c := h.kept c (by rw [Set.mem_Ico]; omega)
    rcases Nat.lt_or_ge c (a + n) with hlt | hge
    · rw [byte_put_of_lt value hfits hlt, hkept]
    · rw [byte_put_of_ge value hfits (by omega), hkept]

theorem Wrote.put_copy {m m' : Memory} {a n k src : Nat} (h : m.Wrote a n (fun j => m.byte (src + j)) m')
    {value : UInt32} (hvalue : value.toNat % 256 ^ k = m.valueAt (src + n) k)
    (hfits : a + n + k ≤ memorySize) :
    m.Wrote a (n + k) (fun j => m.byte (src + j)) (m'.put (a + n) value k) := by
  refine h.put (fun j hj => ?_) hfits
  rw [← Nat.add_assoc, ← ofNat_valueAt_div m (src + n) hj, ← hvalue, ofNat_mod_div _ hj]

/-! ## Words in memory -/

def wordsAt (m : Memory) (a : Nat) : (count : Nat) → List UInt32
  | 0 => []
  | count + 1 => UInt32.ofNat (m.valueAt a 4) :: m.wordsAt (a + 4) count

theorem length_wordsAt (m : Memory) (a count : Nat) : (m.wordsAt a count).length = count := by
  induction count generalizing a with
  | zero => rfl
  | succ count ih => rw [wordsAt, List.length_cons, ih]

theorem wordsAt_congr {m m' : Memory} {a count : Nat}
    (h : ∀ c, a ≤ c → c < a + 4 * count → m'.byte c = m.byte c) :
    m'.wordsAt a count = m.wordsAt a count := by
  induction count generalizing a with
  | zero => rfl
  | succ count ih =>
    rw [wordsAt, wordsAt, valueAt_congr fun c hc hlt => h c hc (by omega),
      ih fun c hc hlt => h c (by omega) (by omega)]

theorem wordsAt_put {m : Memory} {a : Nat} (w : UInt32) (count : Nat) (ha : a + 4 ≤ memorySize) :
    (m.put a w 4).wordsAt a (count + 1) = w :: m.wordsAt (a + 4) count := by
  have hrest : (m.put a w 4).wordsAt (a + 4) count = m.wordsAt (a + 4) count :=
    wordsAt_congr fun c hc _ => byte_put_of_ge w ha hc
  have hword : w.toNat % 256 ^ 4 = w.toNat := Nat.mod_eq_of_lt w.toNat_lt
  rw [wordsAt, valueAt_put w ha, hword, UInt32.ofNat_toNat, hrest]

theorem wordsAt_add (m : Memory) (a j k : Nat) :
    m.wordsAt a (j + k) = m.wordsAt a j ++ m.wordsAt (a + 4 * j) k := by
  induction j generalizing a with
  | zero => rw [Nat.zero_add, wordsAt, List.nil_append, Nat.mul_zero, Nat.add_zero]
  | succ j ih =>
    rw [Nat.add_right_comm, wordsAt, wordsAt, ih, List.cons_append, Nat.mul_succ, Nat.add_assoc a,
      Nat.add_comm 4]

theorem read_eq_ofNat {m : Memory} {a : UInt32} {n : Nat} (hmapped : mapped a n = true) :
    m.read a n = .ok (UInt32.ofNat (m.valueAt a.toNat n)) := by
  rw [read, if_pos hmapped]

/-- A word that is on a list of words in memory is read there. -/
theorem read_of_wordsAt {m : Memory} {a : UInt32} {before rest : List UInt32} {w : UInt32}
    (h : m.wordsAt a.toNat (before.length + (rest.length + 1)) = before ++ w :: rest)
    (hmapped : mapped (a + UInt32.ofNat (4 * before.length)) 4 = true)
    (hfits : a.toNat + 4 * before.length < 0x100000000) :
    m.read (a + UInt32.ofNat (4 * before.length)) 4 = .ok w := by
  rw [wordsAt_add] at h
  obtain ⟨-, hrest⟩ := List.append_inj h (length_wordsAt ..)
  rw [read_eq_ofNat hmapped, toNat_add_ofNat hfits]
  rw [wordsAt] at hrest
  rw [(List.cons.inj hrest).1]

end Memory

/-! ## Loaded values -/

/-- The number that `bytes` bytes stand for, with or without sign. -/
def extended (signed : Bool) (bytes value : Nat) : Int :=
  if signed then Word.signed (8 * bytes) value else value

/-- The words of a value of `storage` bytes once it is loaded: what is narrower than a word is extended
by its sign if it is signed, everything else is filled up with zeros. -/
def loadedWords (signed : Bool) (storage value : Nat) : List UInt32 :=
  Value.ofInt ((storage + 3) / 4) (extended (signed && decide (storage < 4)) storage value)

theorem modulus_bytes (n : Nat) : Word.modulus (8 * n) = 256 ^ n := by
  rw [Word.modulus, Nat.shiftLeft_eq, Nat.one_mul, Nat.pow_mul]

theorem extended_succ (signed : Bool) {n b v : Nat} (hn : 0 < n) (hb : b < 256) :
    extended signed (n + 1) (b + 256 * v) = b + 256 * extended signed n v := by
  cases signed with
  | false => exact Int.natCast_add b (256 * v)
  | true =>
    obtain ⟨k, rfl⟩ := Nat.exists_eq_add_of_lt hn
    have hsmall : Word.modulus (8 * (0 + k + 1)) = 2 * (128 * 256 ^ k) := by
      rw [modulus_bytes, Nat.zero_add, Nat.pow_succ]
      omega
    have hlarge : Word.modulus (8 * (0 + k + 1 + 1)) = 512 * (128 * 256 ^ k) := by
      rw [modulus_bytes, Nat.zero_add, Nat.pow_succ, Nat.pow_succ]
      omega
    simp only [extended, if_true, Word.signed, hsmall, hlarge, Int.bmod_def]
    generalize 128 * 256 ^ k = half
    have hmod : ((b + 256 * v : Nat) : Int) % (512 * half : Nat) = b + 256 * ((v : Int) % (2 * half : Nat)) := by
      have hnat : (b + 256 * v) % (512 * half) = b + 256 * (v % (2 * half)) := by
        rw [show 512 * half = 256 * (2 * half) by omega, Nat.mod_mul, Nat.add_mul_mod_self_left,
          Nat.mod_eq_of_lt hb, Nat.add_mul_div_left _ _ (by omega), Nat.div_eq_of_lt hb, Nat.zero_add]
      exact_mod_cast hnat
    rw [hmod]
    generalize (v : Int) % (2 * half : Nat) = r
    omega

theorem ofNat_eq_extended (n value : Nat) : UInt32.ofNat value = UInt32.ofInt (extended false n value) :=
  (ofInt_natCast value).symm

theorem signExtend_eq_extended {n value : Nat} (hvalue : value < 0x100000000) :
    Word.signExtend (8 * n) (UInt32.ofNat value) = UInt32.ofInt (extended true n value) := by
  rw [Word.signExtend, toUInt32_ofInt, UInt32.toNat_ofNat_of_lt' hvalue]
  rfl

theorem shiftLeft_or_eq {high low : UInt32} {n : Nat} (hn : n < 32) (hlow : low.toNat < 2 ^ n) :
    UInt32.ofNat (high.toNat * 2 ^ n) ||| low = low + UInt32.ofNat (2 ^ n) * high := by
  have hpower : 2 ^ n < 2 ^ 32 := Nat.pow_lt_pow_right (by decide) hn
  have hunit : (UInt32.ofNat (2 ^ n)).toNat = 2 ^ n := UInt32.toNat_ofNat_of_lt' hpower
  have hword := (UInt32.ofNat (high.toNat * 2 ^ n) ||| low).toNat_lt
  rw [← UInt32.toNat_inj, UInt32.toNat_add, UInt32.toNat_mul, hunit, Nat.mul_comm (2 ^ n)]
  rw [toNat_shiftLeft_or hn hlow] at hword ⊢
  omega

/-- Three bytes, the third one shifted above the first two. -/
theorem join_three (m : Memory) (a : Nat) :
    UInt32.ofNat ((UInt32.ofNat (m.valueAt (a + 2) 1)).toNat * 2 ^ 16) ||| UInt32.ofNat (m.valueAt a 2) =
      UInt32.ofNat (m.valueAt a 3) := by
  have hlow : (UInt32.ofNat (m.valueAt a 2)).toNat < 2 ^ 16 :=
    Nat.lt_of_le_of_lt (Nat.mod_le _ _) (m.valueAt_lt a 2)
  rw [shiftLeft_or_eq (by decide) hlow, m.valueAt_add a 2 1, UInt32.ofNat_add, UInt32.ofNat_mul]
  rfl

/-- A value of more than one word is loaded word by word. -/
theorem loadedWords_step (m : Memory) (signed : Bool) (a : Nat) {n : Nat} (hn : 0 < n)
    (hsigned : signed = true → n < 4) :
    Value.ofInt ((n + 3) / 4) (extended signed n (m.valueAt a n)) =
      UInt32.ofInt (extended signed (min n 4) (m.valueAt a (min n 4))) ::
        Value.ofInt ((n - 4 + 3) / 4) (extended signed (n - 4) (m.valueAt (a + 4) (n - 4))) := by
  rcases Nat.lt_or_ge 4 n with hlt | hle
  · have hplain : signed = false := by
      cases signed with
      | false => rfl
      | true => exact absurd (hsigned rfl) (by omega)
    have hcount : (n + 3) / 4 = (n - 4 + 3) / 4 + 1 := by omega
    have hvalue : m.valueAt a n = m.valueAt a 4 + 0x100000000 * m.valueAt (a + 4) (n - 4) := by
      have hsplit := m.valueAt_add a 4 (n - 4)
      rwa [Nat.add_sub_cancel' (Nat.le_of_lt hlt)] at hsplit
    have hlow := m.valueAt_lt a 4
    rw [hcount, Value.ofInt, Nat.min_eq_right (Nat.le_of_lt hlt), hplain]
    simp only [extended, Bool.false_eq_true, if_false, hvalue, Int.natCast_add, Int.natCast_mul]
    generalize (m.valueAt a 4 : Nat) = low at hlow
    generalize (m.valueAt (a + 4) (n - 4) : Nat) = high
    have hlow' : low < 0x100000000 := hlow
    congr 1
    · refine ofInt_eq_of_emod ?_
      omega
    · congr 1
      omega
  · have hone : (n + 3) / 4 = 1 := by omega
    have hnone : (n - 4 + 3) / 4 = 0 := by omega
    rw [hone, hnone, Nat.min_eq_left hle]
    rfl

end Stencil
