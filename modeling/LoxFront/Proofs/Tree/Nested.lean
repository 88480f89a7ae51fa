/-
# Text in parentheses is read back in one way

A printed tree shows words, strings in quotes, and lists in parentheses, each with a word for
its head (`Nested`).  Strings are written as they are, blanks, parentheses and line breaks
too, but no quote stands in one, and what stands in a word is none of these
(`Nested.Sound`).  So the text is read back in one way (`Nested.text_unique`), and so are texts
one a line (`Nested.lines_unique`): a line break ends a line unless it stands in quotes.
-/

import LoxFront.Proofs.Json.Text

namespace LoxFront

/-- What a text in parentheses shows. -/
inductive Nested where
  | word (s : List Char)
  | quoted (s : List Char)
  /-- Items in parentheses, behind a head. -/
  | list (head : List Char) (items : List Nested)

namespace Nested

mutual

/-- The text of what is nested. -/
def text : Nested → List Char
  | word s => s
  | quoted s => '"' :: (s ++ ['"'])
  | list head items => '(' :: (head ++ behind items)

/-- What stands behind a head: the items, each behind a blank, and the closing parenthesis. -/
def behind : List Nested → List Char
  | [] => [')']
  | n :: rest => ' ' :: (n.text ++ behind rest)

end

/-- The items, each behind a blank. -/
theorem behind_eq_flatMap (ns : List Nested) :
    behind ns = (ns.map text).flatMap (' ' :: ·) ++ [')'] := by
  induction ns with
  | nil => rfl
  | cons n rest ih =>
    rw [behind, ih, List.map_cons, List.flatMap_cons, List.append_assoc, List.cons_append]

/-- The texts, one a line. -/
def lines (ns : List Nested) : List Char := ['\n'].intercalate (ns.map text)

/-- The characters that no word has. -/
def breaks : List Char := ['(', ')', ' ', '\n', '"']

/-- A word: not empty, and all of one piece. -/
def IsWord (s : List Char) : Prop := s ≠ [] ∧ ∀ c ∈ s, c ∉ breaks

instance (s : List Char) : Decidable (IsWord s) :=
  @instDecidableAnd _ _ inferInstance (List.decidableBAll (fun c => c ∉ breaks) s)

mutual

/-- Words are words, and strings have no quotes in them. -/
def Sound : Nested → Prop
  | word s => IsWord s
  | quoted s => '"' ∉ s
  | list head items => IsWord head ∧ AllSound items

/-- All the items are sound. -/
def AllSound : List Nested → Prop
  | [] => True
  | n :: rest => n.Sound ∧ AllSound rest

end

/-! ### Where an item ends -/

/-- An item has an end before the text. -/
def Ends (s : List Char) : Prop := ∀ c ∈ s.head?, c ∈ [' ', ')', '\n']

/-- A word ends where the text does. -/
theorem ends_nil : Ends [] := fun _ h => nomatch h

/-- A blank, a closing parenthesis or a new line ends a word. -/
theorem ends_cons {c : Char} {s : List Char} (h : c ∈ [' ', ')', '\n']) : Ends (c :: s) :=
  fun _ hc => Option.some.inj hc ▸ h

/-- Behind an item there is a blank, the next one, and the rest. -/
theorem behind_cons_append (n : Nested) (rest : List Nested) (x : List Char) :
    behind (n :: rest) ++ x = ' ' :: (n.text ++ (behind rest ++ x)) := by
  rw [behind, List.cons_append, List.append_assoc]

/-- What stands behind an item in a list ends it. -/
theorem ends_behind (ns : List Nested) (x : List Char) : Ends (behind ns ++ x) := by
  cases ns with
  | nil => exact ends_cons (by decide)
  | cons n rest =>
    rw [behind_cons_append]
    exact ends_cons (by decide)

/-- What ends an item is no character of a word. -/
theorem Ends.mem_breaks {s : List Char} (h : Ends s) : ∀ c ∈ s.head?, c ∈ breaks := by
  have hall : ∀ c ∈ [' ', ')', '\n'], c ∈ breaks := by simp [breaks]
  exact fun c hc => hall c (h c hc)

/-- No word begins with a character that no word has. -/
theorem IsWord.append_ne_cons {s x y : List Char} {c : Char} (hs : IsWord s) (hc : c ∈ breaks) :
    s ++ x ≠ c :: y := by
  obtain ⟨d, s, rfl⟩ := List.exists_cons_of_ne_nil hs.1
  intro h
  exact hs.2 d List.mem_cons_self ((List.cons.inj h).1 ▸ hc)

/-! ### Reading back -/

mutual

/-- **What is nested is read back from its text in one way**, whatever stands behind it. -/
theorem text_unique : ∀ (m : Nested) ⦃n : Nested⦄ ⦃x y : List Char⦄, m.Sound → n.Sound → Ends x →
    Ends y → m.text ++ x = n.text ++ y → m = n ∧ x = y
  | word s => by
    intro n x y hm hn hx hy h
    rw [Sound] at hm
    cases n with
    | word t =>
      rw [Sound] at hn
      rw [text, text] at h
      obtain ⟨rfl, hxy⟩ := unique_before_stop hm.2 hn.2 hx.mem_breaks hy.mem_breaks h
      exact ⟨rfl, hxy⟩
    | quoted t =>
      rw [text, text] at h
      exact absurd h (hm.append_ne_cons (by decide))
    | list head items =>
      rw [text, text] at h
      exact absurd h (hm.append_ne_cons (by decide))
  | quoted s => by
    intro n x y hm hn hx hy h
    rw [Sound] at hm
    cases n with
    | word t =>
      rw [Sound] at hn
      rw [text, text] at h
      exact absurd h.symm (hn.append_ne_cons (by decide))
    | quoted t =>
      rw [Sound] at hn
      rw [text, text, List.cons_append, List.cons_append, List.append_assoc,
        List.append_assoc] at h
      have hno {s : List Char} (h : '"' ∉ s) : ∀ c ∈ s, c ∉ ['"'] := fun c hc hquote =>
        h (List.mem_singleton.1 hquote ▸ hc)
      have hquote (z : List Char) : ∀ c ∈ (['"'] ++ z).head?, c ∈ ['"'] := by simp
      obtain ⟨rfl, hxy⟩ :=
        unique_before_stop (hno hm) (hno hn) (hquote x) (hquote y) (List.cons.inj h).2
      exact ⟨rfl, (List.cons.inj hxy).2⟩
    | list head items =>
      rw [text, text] at h
      exact absurd (List.cons.inj h).1 (by decide)
  | list head items => by
    intro n x y hm hn hx hy h
    rw [Sound] at hm
    cases n with
    | word t =>
      rw [Sound] at hn
      rw [text, text] at h
      exact absurd h.symm (hn.append_ne_cons (by decide))
    | quoted t =>
      rw [text, text] at h
      exact absurd (List.cons.inj h).1 (by decide)
    | list head' items' =>
      rw [Sound] at hn
      rw [text, text, List.cons_append, List.cons_append, List.append_assoc,
        List.append_assoc] at h
      obtain ⟨rfl, hbehind⟩ := unique_before_stop hm.1.2 hn.1.2 (ends_behind items x).mem_breaks
        (ends_behind items' y).mem_breaks (List.cons.inj h).2
      obtain ⟨rfl, hxy⟩ := behind_unique items hm.2 hn.2 hbehind
      exact ⟨rfl, hxy⟩

/-- The items behind a head are read back. -/
theorem behind_unique : ∀ (ms : List Nested) ⦃ns : List Nested⦄ ⦃x y : List Char⦄, AllSound ms →
    AllSound ns → behind ms ++ x = behind ns ++ y → ms = ns ∧ x = y
  | [] => by
    intro ns x y _ _ h
    cases ns with
    | nil => exact ⟨rfl, List.append_cancel_left h⟩
    | cons n ns =>
      rw [behind_cons_append, behind] at h
      exact absurd (List.cons.inj h).1 (by decide)
  | m :: ms => by
    intro ns x y hms hns h
    cases ns with
    | nil =>
      rw [behind_cons_append, behind] at h
      exact absurd (List.cons.inj h).1 (by decide)
    | cons n ns =>
      rw [AllSound] at hms hns
      rw [behind_cons_append, behind_cons_append] at h
      obtain ⟨rfl, hrest⟩ := text_unique m hms.1 hns.1 (ends_behind ms x) (ends_behind ns y)
        (List.cons.inj h).2
      obtain ⟨rfl, hxy⟩ := behind_unique ms hms.2 hns.2 hrest
      exact ⟨rfl, hxy⟩

end

/-! ### One a line -/

/-- No item is printed as nothing. -/
theorem Sound.text_ne_nil {n : Nested} (h : n.Sound) : n.text ≠ [] := by
  cases n with
  | word s =>
    rw [Sound] at h
    rw [text]
    exact h.1
  | quoted s =>
    rw [text]
    exact List.cons_ne_nil _ _
  | list head items =>
    rw [text]
    exact List.cons_ne_nil _ _

/-- Before each text stands a line break, but for the first. -/
theorem cons_lines (n : Nested) (rest : List Nested) :
    '\n' :: lines (n :: rest) = (n :: rest).flatMap fun m => '\n' :: m.text := by
  rw [lines, List.map_cons, Json.intercalate_cons, List.flatMap_map, List.flatMap_cons]
  rfl

/-- Lines for one item or more are not empty. -/
theorem lines_ne_nil {n : Nested} (h : n.Sound) (rest : List Nested) : lines (n :: rest) ≠ [] := by
  rw [lines, List.map_cons, Json.intercalate_cons]
  exact List.append_ne_nil_of_left_ne_nil h.text_ne_nil _

/-- A line ends where the next one begins. -/
theorem ends_flatMap (ns : List Nested) : Ends (ns.flatMap fun n => '\n' :: n.text) := by
  cases ns with
  | nil => exact ends_nil
  | cons n ns => exact ends_cons (by decide)

/-- Texts are read back, each from behind its line break. -/
theorem flatMap_unique {ms ns : List Nested} (hms : ∀ m ∈ ms, m.Sound) (hns : ∀ n ∈ ns, n.Sound)
    (h : (ms.flatMap fun m => '\n' :: m.text) = ns.flatMap fun n => '\n' :: n.text) :
    ms = ns := by
  induction ms generalizing ns with
  | nil =>
    cases ns with
    | nil => rfl
    | cons n ns => exact nomatch h
  | cons m ms ih =>
    cases ns with
    | nil => exact nomatch h
    | cons n ns =>
      rw [List.forall_mem_cons] at hms hns
      rw [List.flatMap_cons, List.flatMap_cons] at h
      obtain ⟨rfl, hrest⟩ :=
        text_unique m hms.1 hns.1 (ends_flatMap ms) (ends_flatMap ns) (List.cons.inj h).2
      rw [ih hms.2 hns.2 hrest]

/-- **Texts one a line are read back in one way.** -/
theorem lines_unique {ms ns : List Nested} (hms : ∀ m ∈ ms, m.Sound) (hns : ∀ n ∈ ns, n.Sound)
    (h : lines ms = lines ns) : ms = ns := by
  cases ms with
  | nil =>
    cases ns with
    | nil => rfl
    | cons n ns => exact absurd h.symm (lines_ne_nil (hns n List.mem_cons_self) ns)
  | cons m ms =>
    cases ns with
    | nil => exact absurd h (lines_ne_nil (hms m List.mem_cons_self) ms)
    | cons n ns =>
      refine flatMap_unique hms hns ?_
      rw [← cons_lines, ← cons_lines, h]

end Nested
end LoxFront
