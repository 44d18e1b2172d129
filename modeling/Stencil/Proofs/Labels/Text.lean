import Stencil.Label
import Mathlib.Data.List.DropRight

/-!
# Reading the text of a label

A label is written as its scope, a dot, its position and, behind an underscore, its extension. Scopes are any
text, with dots and underscores of their own, but behind the last dot stand only `IL_`, hexadecimal digits and the
extension, so the text of a label whose extension has no dot can be read back (`Label.render_injective`).

The number that ends an extension can be read back too, unless the name before it ends in a digit
(`Text.number_of_append`).
-/

namespace Stencil

/-- What is read from the end as long as `p` holds is the back of a list, if `p` does not hold before it. -/
theorem rtakeWhile_append {α : Type} {p : α → Bool} {front back : List α} (hfront : front.rtakeWhile p = [])
    (hback : ∀ a ∈ back, p a) : (front ++ back).rtakeWhile p = back := by
  have hreverse : ∀ a ∈ back.reverse, p a := fun a ha => hback a (List.mem_reverse.mp ha)
  rw [List.rtakeWhile, List.reverse_eq_nil_iff] at hfront
  rw [List.rtakeWhile, List.reverse_append, List.takeWhile_append_of_pos hreverse, hfront, List.append_nil,
    List.reverse_reverse]

/-- The last separator is the one with no other behind it. -/
theorem append_cons_inj_of_notMem_back {α : Type} [DecidableEq α] {sep : α} {front front' back back' : List α}
    (hback : sep ∉ back) (hback' : sep ∉ back') (h : front ++ sep :: back = front' ++ sep :: back') :
    front = front' ∧ back = back' := by
  have hread : ∀ front {back : List α}, sep ∉ back → (front ++ sep :: back).rtakeWhile (· ≠ sep) = back := by
    intro front back hback
    rw [List.append_cons]
    refine rtakeWhile_append (List.rtakeWhile_concat_neg _ _ _ (by simp)) fun a ha => decide_eq_true ?_
    rintro rfl
    exact hback ha
  obtain rfl : back = back' := by
    rw [← hread front hback, h, hread front' hback']
  exact ⟨List.append_cancel_right h, rfl⟩

namespace Text

/-! ## Hexadecimal positions -/

def hexValue (c : Char) : Nat :=
  if c.isDigit then c.toNat - '0'.toNat else c.toNat - 'A'.toNat + 10

/-- The number that capital hexadecimal digits spell. -/
def readHex (digits : List Char) : Nat := digits.foldl (fun n c => 16 * n + hexValue c) 0

theorem readHex_concat (digits : List Char) (c : Char) :
    readHex (digits ++ [c]) = 16 * readHex digits + hexValue c := by
  rw [readHex, List.foldl_append]
  rfl

theorem hexValue_digit : ∀ d < 16, hexValue (Nat.digitChar d).toUpper = d := by decide

theorem isAlphanum_digit : ∀ d < 16, (Nat.digitChar d).toUpper.isAlphanum = true := by decide

/-- The digits of a number are those of a sixteenth of it and one more. -/
theorem hexDigits_eq (n : Nat) : hexDigits n =
    if n < 16 then [(Nat.digitChar n).toUpper] else hexDigits (n / 16) ++ [(Nat.digitChar (n % 16)).toUpper] := by
  rw [hexDigits, Nat.toDigits_eq_if (by decide)]
  split
  · rfl
  · rw [List.map_append]
    rfl

theorem readHex_hexDigits (n : Nat) : readHex (hexDigits n) = n := by
  induction n using Nat.strongRecOn with
  | ind n ih =>
    rw [hexDigits_eq]
    split
    · rw [← List.nil_append [_], readHex_concat, hexValue_digit n ‹_›, readHex, List.foldl_nil, Nat.mul_zero,
        Nat.zero_add]
    · rw [readHex_concat, ih (n / 16) (by omega), hexValue_digit _ (Nat.mod_lt _ (by decide)), Nat.div_add_mod]

theorem readHex_padZeros (width : Nat) (digits : List Char) : readHex (padZeros width digits) = readHex digits := by
  have hzeros : ∀ k, (List.replicate k '0').foldl (fun n c => 16 * n + hexValue c) 0 = 0 := by
    intro k
    induction k with
    | zero => rfl
    | succ k ih => exact ih
  rw [padZeros, readHex, List.foldl_append, hzeros]
  rfl

theorem isAlphanum_of_mem {n width : Nat} {c : Char} (hc : c ∈ padZeros width (hexDigits n)) :
    c.isAlphanum = true := by
  rcases List.mem_append.mp hc with hzero | hdigit
  · rw [List.eq_of_mem_replicate hzero]
    rfl
  · induction n using Nat.strongRecOn with
    | ind n ih =>
      rw [hexDigits_eq] at hdigit
      split at hdigit
      · rw [List.mem_singleton.mp hdigit]
        exact isAlphanum_digit n ‹_›
      · rcases List.mem_append.mp hdigit with hfront | hlast
        · exact ih (n / 16) (by omega) (List.mem_append_right _ hfront) hfront
        · rw [List.mem_singleton.mp hlast]
          exact isAlphanum_digit _ (Nat.mod_lt _ (by decide))

/-! ## Numbers at the end of a name -/

def endsInDigit (name : String) : Bool := name.toList.getLast?.any Char.isDigit

/-- The number behind a name can be read back, unless the name ends in a digit. -/
theorem number_of_append {name name' : String} {n n' : Nat} (hname : endsInDigit name = false)
    (hname' : endsInDigit name' = false) (h : name ++ toString n = name' ++ toString n') : n = n' := by
  have hread : ∀ {name : String} {n : Nat}, endsInDigit name = false →
      (name ++ toString n).toList.rtakeWhile Char.isDigit = Nat.toDigits 10 n := by
    intro name n hname
    rw [String.toList_append, Nat.toString_eq_ofList_toDigits, String.toList_ofList]
    refine rtakeWhile_append (List.rtakeWhile_eq_nil_iff.mpr fun hne hdigit => ?_) fun c hc =>
      Nat.isDigit_of_mem_toDigits (by decide) (by decide) hc
    rw [endsInDigit, List.getLast?_eq_some_getLast hne, Option.any_some, hdigit] at hname
    cases hname
  have hdigits : Nat.toDigits 10 n = Nat.toDigits 10 n' := by
    rw [← hread hname, h, hread hname']
  rw [← Nat.ofDigitChars_ten_toDigits (n := n), hdigits, Nat.ofDigitChars_ten_toDigits]

end Text

/-! ## Labels -/

namespace Label

/-- The extension, if there is one, has no dot. -/
def DotFree (l : Label) : Prop := ∀ extension ∈ l.extension, '.' ∉ extension.toList

/-- An underscore and the extension, if there is one. -/
def suffix (l : Label) : List Char :=
  match l.extension with
  | some extension => '_' :: extension.toList
  | none => []

/-- What stands behind the dot that follows the scope. -/
def place (l : Label) : List Char :=
  ['I', 'L', '_'] ++ (Text.padZeros 4 (Text.hexDigits l.position) ++ l.suffix)

theorem toList_render (l : Label) : l.render.toList = l.scope.toList ++ '.' :: l.place := by
  obtain ⟨scope, position, extension⟩ := l
  cases extension <;>
    simp [render, place, suffix, Text.position, String.toList_append]

theorem DotFree.place {l : Label} (h : l.DotFree) : '.' ∉ l.place := by
  have hposition : '.' ∉ Text.padZeros 4 (Text.hexDigits l.position) := fun hmem =>
    absurd (Text.isAlphanum_of_mem hmem) (by decide)
  have hsuffix : '.' ∉ l.suffix := by
    unfold suffix
    cases hextension : l.extension with
    | none => exact List.not_mem_nil
    | some extension =>
      rw [List.mem_cons, not_or]
      exact ⟨by decide, h extension hextension⟩
  unfold Label.place
  simp only [List.mem_append, not_or]
  exact ⟨by decide, hposition, hsuffix⟩

/-- The digits of the position end where the suffix begins or the text ends. -/
theorem position_of_place {l l' : Label} (h : l.place = l'.place) : l.position = l'.position ∧ l.suffix = l'.suffix := by
  have hread : ∀ l : Label, (Text.padZeros 4 (Text.hexDigits l.position) ++ l.suffix).takeWhile (· ≠ '_') =
      Text.padZeros 4 (Text.hexDigits l.position) := by
    intro l
    have hdigits : ∀ c ∈ Text.padZeros 4 (Text.hexDigits l.position), decide (c ≠ '_') = true := by
      intro c hc
      refine decide_eq_true ?_
      rintro rfl
      exact absurd (Text.isAlphanum_of_mem hc) (by decide)
    rw [List.takeWhile_append_of_pos hdigits]
    unfold suffix
    cases l.extension <;> simp
  have hrest := List.append_cancel_left h
  have hdigits := (hread l).symm.trans (hrest ▸ hread l')
  refine ⟨?_, List.append_cancel_left (hdigits ▸ hrest)⟩
  rw [← Text.readHex_hexDigits l.position, ← Text.readHex_padZeros 4, hdigits, Text.readHex_padZeros,
    Text.readHex_hexDigits]

theorem extension_of_suffix {l l' : Label} (h : l.suffix = l'.suffix) : l.extension = l'.extension := by
  unfold suffix at h
  cases hextension : l.extension with
  | none =>
    cases hextension' : l'.extension with
    | none => rfl
    | some extension' => simp [hextension, hextension'] at h
  | some extension =>
    cases hextension' : l'.extension with
    | none => simp [hextension, hextension'] at h
    | some extension' =>
      simp only [hextension, hextension', List.cons.injEq, true_and] at h
      rw [String.toList_inj.mp h]

/-- Labels with the same text are the same, whatever their scopes are. -/
theorem render_injective {l l' : Label} (hl : l.DotFree) (hl' : l'.DotFree) (h : l.render = l'.render) : l = l' := by
  have htext := congrArg String.toList h
  rw [toList_render, toList_render] at htext
  obtain ⟨hscope, hplace⟩ := append_cons_inj_of_notMem_back hl.place hl'.place htext
  obtain ⟨hposition, hsuffix⟩ := position_of_place hplace
  have hextension := extension_of_suffix hsuffix
  obtain ⟨scope, position, extension⟩ := l
  obtain ⟨scope', position', extension'⟩ := l'
  obtain rfl := String.toList_inj.mp hscope
  obtain rfl : position = position' := hposition
  obtain rfl : extension = extension' := hextension
  rfl

end Label

end Stencil
