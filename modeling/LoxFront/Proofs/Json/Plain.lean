/-
# Numbers in text

The text of a number is not empty and has no character that ends a value in JSON text
(`Layout.plain_text`, `plain_natural`).
-/

import Mathlib.Data.Bool.AllAny
import LoxFront.Json.Basic

namespace LoxFront

/-- The characters that a number is written with: digits, signs, the point and the exponent. -/
def IsNumeral (c : Char) : Prop := c.isDigit = true ∨ c ∈ ['.', 'e', '+', '-']

/-- The letters of `NaN` and `inf`. -/
def letters : List Char := ['N', 'a', 'i', 'n', 'f']

/-- The characters that the text of a number is made of, beyond all range or none at all. -/
def IsWritten (c : Char) : Prop := IsNumeral c ∨ c ∈ letters

/-- The characters that values begin or end with in JSON text, but for those of words. -/
def delimiters : List Char := [',', ']', '}', '\n', '"', '[', '{', ':']

/-- A text that no delimiter stands in, and that is not empty. -/
def Plain (s : List Char) : Prop := s ≠ [] ∧ ∀ c ∈ s, c ∉ delimiters

/-- What a text has before the first of its stops is settled. -/
theorem unique_before_stop {stops s t x y : List Char} (hs : ∀ c ∈ s, c ∉ stops)
    (ht : ∀ c ∈ t, c ∉ stops) (hx : ∀ c ∈ x.head?, c ∈ stops) (hy : ∀ c ∈ y.head?, c ∈ stops)
    (h : s ++ x = t ++ y) : s = t ∧ x = y := by
  -- a character of one cannot be the stop behind the other
  have hlen {s t x y : List Char} (ht : ∀ c ∈ t, c ∉ stops) (hx : ∀ c ∈ x.head?, c ∈ stops)
      (h : s ++ x = t ++ y) : t.length ≤ s.length := by
    refine Nat.le_of_not_lt fun hlt => ?_
    have hat : (s ++ x)[s.length]? = some t[s.length] := by
      rw [h, List.getElem?_append_left hlt, List.getElem?_eq_getElem hlt]
    rw [List.getElem?_append_right (Nat.le_refl _), Nat.sub_self, ← List.head?_eq_getElem?] at hat
    exact ht _ (List.getElem_mem hlt) (hx _ hat)
  exact List.append_inj h (Nat.le_antisymm (hlen hs hy h.symm) (hlen ht hx h))

/-- The text of a number has none of the stops if they are no numerals and none of the letters. -/
theorem IsWritten.not_mem {stops : List Char} {c : Char} (h : IsWritten c)
    (hstops : stops.all (fun d => !d.isDigit && decide (d ∉ ['.', 'e', '+', '-']) &&
      decide (d ∉ letters)) = true) : c ∉ stops := by
  intro hc
  have hno := List.all_eq_true.1 hstops c hc
  rw [Bool.and_eq_true, Bool.and_eq_true, Bool.not_eq_true', decide_eq_true_iff,
    decide_eq_true_iff] at hno
  rcases h with (h | h) | h
  · exact nomatch hno.1.1.symm.trans h
  · exact hno.1.2 h
  · exact hno.2 h

/-- A row of characters is plain if each of them is checked not to be a delimiter. -/
theorem plain_of_all {s : List Char} (hne : s ≠ [])
    (h : s.all (fun c => decide (c ∉ delimiters)) = true) : Plain s :=
  ⟨hne, List.all_iff_forall_prop.1 h⟩

/-- The decimal digits of a natural number are digits. -/
theorem isDigit_toDigits (n : Nat) : ∀ c ∈ Nat.toDigits 10 n, c.isDigit = true :=
  fun _ hc => Nat.isDigit_of_mem_toDigits (by decide) (by decide) hc

/-- So they are characters of a numeral. -/
theorem isNumeral_of_mem_toDigits {n : Nat} {c : Char} (h : c ∈ Nat.toDigits 10 n) :
    IsNumeral c := .inl (isDigit_toDigits n c h)

namespace Layout

/-- The zeros that fill up a number are characters of a numeral. -/
theorem isNumeral_of_mem_zeros {n : Nat} {c : Char} (h : c ∈ zeros n) : IsNumeral c := by
  obtain rfl := List.eq_of_mem_replicate h
  exact .inl (by decide)

variable {l : Layout} {s : List Char}

/-- A number written in positions has the characters of its digits, zeros and a point. -/
theorem isNumeral_inPositions (hs : ∀ c ∈ s, IsNumeral c) (e : Int) :
    ∀ c ∈ l.inPositions s e, IsNumeral c := by
  have hzero : IsNumeral '0' := .inl (by decide)
  have hpoint : IsNumeral '.' := .inr (by decide)
  cases e with
  | negSucc n =>
    refine List.forall_mem_cons.2 ⟨hzero, List.forall_mem_cons.2 ⟨hpoint, ?_⟩⟩
    exact List.forall_mem_append.2 ⟨fun c hc => isNumeral_of_mem_zeros hc, hs⟩
  | ofNat n =>
    have hfront : ∀ c ∈ s.take (n + 1) ++ zeros (n + 1 - s.length), IsNumeral c :=
      List.forall_mem_append.2 ⟨fun c hc => hs c (List.mem_of_mem_take hc),
        fun c hc => isNumeral_of_mem_zeros hc⟩
    rw [inPositions]
    split
    · split
      · exact List.forall_mem_append.2 ⟨hfront, List.forall_mem_cons.2 ⟨hpoint,
          List.forall_mem_singleton.2 hzero⟩⟩
      · exact hfront
    · next hback =>
      refine List.forall_mem_append.2 ⟨hfront, List.forall_mem_cons.2 ⟨hpoint, fun c hc => ?_⟩⟩
      exact hs c (List.mem_of_mem_drop hc)

/-- A number written with a power of ten has the characters of a numeral. -/
theorem isNumeral_withPower (hs : ∀ c ∈ s, IsNumeral c) (e : Int) :
    ∀ c ∈ l.withPower s e, IsNumeral c := by
  have hpoint : ∀ c ∈ (if s.length ≤ 1 then [] else ['.']), IsNumeral c := by
    split
    · exact List.forall_mem_nil _
    · exact List.forall_mem_singleton.2 (.inr (by decide))
  have hsign : ∀ c ∈ (if e < 0 then ['-'] else if l.plus then ['+'] else []), IsNumeral c := by
    split
    · exact List.forall_mem_singleton.2 (.inr (by decide))
    · split
      · exact List.forall_mem_singleton.2 (.inr (by decide))
      · exact List.forall_mem_nil _
  simp only [withPower, List.forall_mem_append, List.forall_mem_cons]
  exact ⟨⟨⟨⟨fun c hc => hs c (List.mem_of_mem_take hc), hpoint⟩,
    fun c hc => hs c (List.mem_of_mem_drop hc)⟩, .inr (by decide), hsign⟩,
    fun c hc => isNumeral_of_mem_toDigits hc⟩

/-- Written in positions, digits do not vanish. -/
theorem inPositions_ne_nil (hs : s ≠ []) (e : Int) : l.inPositions s e ≠ [] := by
  cases e with
  | negSucc n => exact List.cons_ne_nil _ _
  | ofNat n =>
    obtain ⟨c, s, rfl⟩ := List.exists_cons_of_ne_nil hs
    rw [inPositions]
    split
    · split <;> exact List.cons_ne_nil _ _
    · exact List.cons_ne_nil _ _

/-- Written with a power of ten, no number is empty. -/
theorem withPower_ne_nil (e : Int) : l.withPower s e ≠ [] := by
  simp [withPower]

/-- Whatever the layout, a decimal is spelled in the characters of a numeral. -/
theorem isNumeral_spell (d : Decimal) : ∀ c ∈ l.spell d, IsNumeral c := by
  have hdigits : ∀ c ∈ Nat.toDigits 10 d.digits, IsNumeral c :=
    fun c hc => isNumeral_of_mem_toDigits hc
  rw [spell]
  split
  · exact isNumeral_inPositions hdigits _
  · exact isNumeral_withPower hdigits _

/-- Whatever the layout, a decimal has a spelling. -/
theorem spell_ne_nil (d : Decimal) : l.spell d ≠ [] := by
  rw [spell]
  split
  · exact inPositions_ne_nil Nat.toDigits_ne_nil _
  · exact withPower_ne_nil _

/-- Every number has a text, also one that is not finite. -/
theorem text_ne_nil (x : Binary64) : (l.text x).toList ≠ [] := by
  rw [text]
  split
  · decide
  · rw [String.toList_ofList]
    refine List.append_ne_nil_of_right_ne_nil _ ?_
    split
    · exact spell_ne_nil _
    · exact List.cons_ne_nil _ _

/-- The text of a number is made of numerals and the letters of `NaN` and `inf`. -/
theorem isWritten_of_mem_text (x : Binary64) : ∀ c ∈ (l.text x).toList, IsWritten c := by
  rw [text]
  split
  · exact fun c hc => .inr ((by decide : "NaN".toList ⊆ letters) hc)
  · rw [String.toList_ofList]
    refine List.forall_mem_append.2 ⟨?_, ?_⟩
    · split
      · exact List.forall_mem_singleton.2 (.inl (.inr (by decide)))
      · exact List.forall_mem_nil _
    · split
      · exact fun c hc => .inl (isNumeral_spell _ c hc)
      · exact fun c hc => .inr ((by decide : ['i', 'n', 'f'] ⊆ letters) hc)

/-- **The text of a number is plain**, in every layout. -/
theorem plain_text (x : Binary64) : Plain (l.text x).toList :=
  ⟨text_ne_nil x, fun c hc => (isWritten_of_mem_text x c hc).not_mem (by decide)⟩

end Layout

/-- A natural number is written in its decimal digits. -/
theorem toList_natural (n : Nat) : (toString n).toList = Nat.toDigits 10 n := by
  rw [Nat.toString_eq_repr, Nat.repr_eq_ofList_toDigits, String.toList_ofList]

/-- A natural number is a plain word. -/
theorem plain_natural (n : Nat) : Plain (toString n).toList := by
  rw [toList_natural]
  exact ⟨Nat.toDigits_ne_nil, fun c hc => IsWritten.not_mem (.inl (isNumeral_of_mem_toDigits hc))
    (by decide)⟩

/-- The word for nothing is plain. -/
theorem plain_null : Plain "null".toList := plain_of_all (by decide) (by decide)

end LoxFront
