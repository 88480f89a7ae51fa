/-
# JSON text is read back in one way

What a text shows of a value is its form: its strings, its brackets, its fields, and its
words, which are the texts of numbers and `null`.  A form has its text with blanks and line
breaks set in one way or another (`Json.Spacing`).  It is read back from that text in one way
(`Json.Form.text_unique`): an element ends where a comma, a closing bracket or a line break
stands, and none of these begins one.
-/

import LoxFront.Proofs.Json.Escape
import LoxFront.Proofs.Json.Plain

namespace LoxFront
namespace Json

/-- What a text shows of a value, or of a field of an object. -/
inductive Form where
  | word (text : {s : List Char // Plain s})
  | quoted (s : String)
  | field (key : String) (value : Form)
  /-- Elements in brackets, or in braces. -/
  | group (braces : Bool) (items : List Form)

/-- Where blanks and line breaks stand. -/
structure Spacing where
  /-- The blanks behind a colon. -/
  colon : List Char
  /-- What stands before an element at a level of nesting, or before a closing bracket. -/
  lead : Nat → List Char
  /-- Before an element the line breaks, if anything stands there. -/
  breaks : ∀ level, lead level = [] ∨ ∃ s, lead level = '\n' :: s

namespace Spacing

/-- No blanks at all. -/
def compact : Spacing := ⟨[], fun _ => [], fun _ => .inl rfl⟩

/-- One element a line. -/
def pretty : Spacing := ⟨[' '], fun level => '\n' :: (margin level).toList, fun _ => .inr ⟨_, rfl⟩⟩

end Spacing

/-- The bracket before the elements of a group. -/
def opening (braces : Bool) : Char := if braces then '\x7b' else '['

/-- The bracket behind the elements of a group. -/
def closing (braces : Bool) : Char := if braces then '\x7d' else ']'

/-- What stands behind an element: the elements that follow, and the closing bracket. -/
def behind (spacing : Spacing) (level : Nat) (braces : Bool) : List (List Char) → List Char
  | [] => spacing.lead level ++ [closing braces]
  | t :: ts => ',' :: (spacing.lead (level + 1) ++ (t ++ behind spacing level braces ts))

/-- The elements of a group in brackets. -/
def enclosed (spacing : Spacing) (level : Nat) (braces : Bool) : List (List Char) → List Char
  | [] => [opening braces, closing braces]
  | t :: ts =>
    opening braces :: (spacing.lead (level + 1) ++ (t ++ behind spacing level braces ts))

namespace Form

mutual

/-- The text of a form at a level of nesting. -/
def text (spacing : Spacing) (level : Nat) : Form → List Char
  | word s => s.1
  | quoted s => (Json.quoted s).toList
  | field key v => (Json.quoted key).toList ++ ':' :: (spacing.colon ++ v.text spacing level)
  | group braces items => enclosed spacing level braces (texts spacing (level + 1) items)

/-- The texts of forms at a level of nesting. -/
def texts (spacing : Spacing) (level : Nat) : List Form → List (List Char)
  | [] => []
  | v :: rest => v.text spacing level :: texts spacing level rest

end

end Form

/-! ### Where an element ends -/

/-- The characters that stand behind an element. -/
def enders : List Char := [',', ']', '\x7d', '\n']

/-- An element has an end before the text. -/
def Ends (s : List Char) : Prop := ∀ c ∈ s.head?, c ∈ enders

/-- An element ends where the text does. -/
theorem ends_nil : Ends [] := fun _ h => nomatch h

/-- What ends an element shows in the first character behind it. -/
theorem ends_cons {c : Char} {s : List Char} (h : c ∈ enders) : Ends (c :: s) :=
  fun _ hc => Option.some.inj hc ▸ h

/-- A closing bracket ends the element before it. -/
theorem closing_mem_enders (braces : Bool) : closing braces ∈ enders := by
  cases braces <;> decide

variable {spacing : Spacing} {level : Nat} {braces : Bool}

/-- Behind an element there is a comma, what leads in the next one, that one, and the rest. -/
theorem behind_cons_append (t : List Char) (ts : List (List Char)) (x : List Char) :
    behind spacing level braces (t :: ts) ++ x =
      ',' :: (spacing.lead (level + 1) ++ (t ++ (behind spacing level braces ts ++ x))) := by
  simp only [behind, List.cons_append, List.append_assoc]

/-- A list that is not empty is its opening bracket, what leads in the first element, that one,
and the rest. -/
theorem enclosed_cons_append (t : List Char) (ts : List (List Char)) (x : List Char) :
    enclosed spacing level braces (t :: ts) ++ x = opening braces ::
      (spacing.lead (level + 1) ++ (t ++ (behind spacing level braces ts ++ x))) := by
  simp only [enclosed, List.cons_append, List.append_assoc]

/-- What stands behind an element in a list ends it. -/
theorem ends_behind (ts : List (List Char)) (x : List Char) :
    Ends (behind spacing level braces ts ++ x) := by
  cases ts with
  | nil =>
    rw [behind]
    rcases spacing.breaks level with hlead | ⟨s, hlead⟩
    · rw [hlead]
      exact ends_cons (closing_mem_enders braces)
    · rw [hlead]
      exact ends_cons (by decide)
  | cons t ts => exact ends_cons (by decide)

/-- Words end where their characters do. -/
theorem plain_unique {s t x y : List Char} (hs : Plain s) (ht : Plain t) (hx : Ends x)
    (hy : Ends y) (h : s ++ x = t ++ y) : s = t ∧ x = y := by
  have hends : ∀ c ∈ enders, c ∈ delimiters := by simp [enders, delimiters]
  exact unique_before_stop hs.2 ht.2 (fun c hc => hends c (hx c hc))
    (fun c hc => hends c (hy c hc)) h

/-! ### How an element begins -/

/-- The characters that strings and groups begin with. -/
def openers : List Char := ['"', '[', '\x7b']

/-- The opener that a text begins with. -/
def opener? (s : List Char) : Option Char := s.head?.filter (fun c => decide (c ∈ openers))

namespace Form

/-- The opener that a form begins with: words have none. -/
def opener : Form → Option Char
  | word _ => none
  | quoted _ | field _ _ => some '"'
  | group braces _ => some (opening braces)

/-- A form begins with its opener, and words with a character that is none. -/
theorem exists_text (spacing : Spacing) (level : Nat) (f : Form) :
    ∃ c s, f.text spacing level = c :: s ∧ opener? (c :: s) = f.opener ∧ c ∉ enders := by
  have hquoted (s : String) (x : List Char) : ∃ c t, (Json.quoted s).toList ++ x = c :: t ∧
      opener? (c :: t) = some '"' ∧ c ∉ enders :=
    ⟨'"', _, by rw [toList_quoted]; rfl, rfl, by decide⟩
  cases f with
  | word s =>
    obtain ⟨s, hne, hplain⟩ := s
    obtain ⟨c, s, rfl⟩ := List.exists_cons_of_ne_nil hne
    have hc := hplain c List.mem_cons_self
    have hopeners : ∀ d ∈ openers, d ∈ delimiters := by simp [openers, delimiters]
    have henders : ∀ d ∈ enders, d ∈ delimiters := by simp [enders, delimiters]
    refine ⟨c, s, by rw [text], ?_, fun h => hc (henders c h)⟩
    exact Option.filter_eq_none_iff.2 fun d hd => by
      rw [← Option.some.inj hd, decide_eq_true_iff]
      exact fun h => hc (hopeners c h)
  | quoted s =>
    rw [text, ← List.append_nil (Json.quoted s).toList]
    exact hquoted s []
  | field key v =>
    rw [text]
    exact hquoted key _
  | group braces items =>
    have hopening : ∀ b, opening b ∈ openers ∧ opening b ∉ enders := by decide
    obtain ⟨hmem, hnot⟩ := hopening braces
    rw [text]
    cases texts spacing (level + 1) items <;>
      exact ⟨_, _, rfl, Option.filter_some_pos (decide_eq_true hmem), hnot⟩

/-- The first character of a form tells its opener, whatever stands behind the form. -/
theorem opener_eq {f g : Form} {x y : List Char}
    (h : f.text spacing level ++ x = g.text spacing level ++ y) : f.opener = g.opener := by
  obtain ⟨c, s, hf, hc, -⟩ := f.exists_text spacing level
  obtain ⟨d, t, hg, hd, -⟩ := g.exists_text spacing level
  rw [hf, hg] at h
  obtain rfl : c = d := (List.cons.inj h).1
  exact hc.symm.trans hd

/-- Before a closing bracket stands no element. -/
theorem lead_closing_ne (f : Form) (x y : List Char) {leading : List Char}
    (hlead : leading = [] ∨ ∃ s, leading = '\n' :: s) :
    closing braces :: x ≠ leading ++ (f.text spacing level ++ y) := by
  intro h
  rcases hlead with rfl | ⟨s, rfl⟩
  · obtain ⟨c, s, hf, -, hc⟩ := f.exists_text spacing level
    rw [hf] at h
    exact hc ((List.cons.inj h).1 ▸ closing_mem_enders braces)
  · have hne : ∀ b, closing b ≠ '\n' := by decide
    exact hne braces (List.cons.inj h).1

/-- Behind the last element stands no comma. -/
theorem lead_ne_comma (x y : List Char) :
    spacing.lead level ++ [closing braces] ++ x ≠ ',' :: y := by
  intro h
  rcases spacing.breaks level with hlead | ⟨s, hlead⟩
  · have hne : ∀ b, closing b ≠ ',' := by decide
    rw [hlead] at h
    exact hne braces (List.cons.inj h).1
  · rw [hlead] at h
    exact absurd (List.cons.inj h).1 (by decide)

/-! ### Reading a form back -/

/-- Only words have no opener. -/
theorem eq_word {f : Form} (h : f.opener = none) : ∃ s, f = word s := by
  cases f with
  | word s => exact ⟨s, rfl⟩
  | quoted | field | group => exact nomatch h

/-- What opens with a quote is a text or a field. -/
theorem eq_quoted_or_field {f : Form} (h : f.opener = some '"') :
    (∃ s, f = quoted s) ∨ ∃ key v, f = field key v := by
  cases f with
  | word => exact nomatch h
  | quoted s => exact .inl ⟨s, rfl⟩
  | field key v => exact .inr ⟨key, v, rfl⟩
  | group braces items =>
    have hne : ∀ b, opening b ≠ '"' := by decide
    exact absurd (Option.some.inj h) (hne braces)

/-- What opens with a bracket is a list in brackets of that sort. -/
theorem eq_group {f : Form} (h : f.opener = some (opening braces)) :
    ∃ items, f = group braces items := by
  have hne : ∀ b, '"' ≠ opening b := by decide
  have hinj : ∀ b c, opening b = opening c → b = c := by decide
  cases f with
  | word => exact nomatch h
  | quoted | field => exact absurd (Option.some.inj h) (hne braces)
  | group braces' items =>
    obtain rfl := hinj _ _ (Option.some.inj h)
    exact ⟨items, rfl⟩

mutual

/-- **A form is read back from its text in one way**, whatever stands behind it. -/
theorem text_unique : ∀ (f : Form) ⦃g : Form⦄ ⦃level : Nat⦄ ⦃x y : List Char⦄, Ends x → Ends y →
    f.text spacing level ++ x = g.text spacing level ++ y → f = g ∧ x = y
  | word s => by
    intro g level x y hx hy h
    obtain ⟨t, rfl⟩ := eq_word (opener_eq h).symm
    rw [text, text] at h
    obtain ⟨hst, hxy⟩ := plain_unique s.2 t.2 hx hy h
    exact ⟨congrArg word (Subtype.ext hst), hxy⟩
  | quoted s => by
    intro g level x y hx hy h
    rcases eq_quoted_or_field (opener_eq h).symm with ⟨t, rfl⟩ | ⟨key, v, rfl⟩
    · rw [text, text] at h
      obtain ⟨rfl, hxy⟩ := quoted_unique h
      exact ⟨rfl, hxy⟩
    · rw [text, text, List.append_assoc] at h
      obtain ⟨-, rfl⟩ := quoted_unique h
      exact absurd (hx ':' rfl) (by decide)
  | field key v => by
    intro g level x y hx hy h
    rcases eq_quoted_or_field (opener_eq h).symm with ⟨s, rfl⟩ | ⟨key', w, rfl⟩
    · rw [text, text, List.append_assoc] at h
      obtain ⟨-, rfl⟩ := quoted_unique h
      exact absurd (hy ':' rfl) (by decide)
    · rw [text, text, List.append_assoc, List.append_assoc] at h
      obtain ⟨rfl, hrest⟩ := quoted_unique h
      have hvalue : spacing.colon ++ v.text spacing level ++ x =
          spacing.colon ++ w.text spacing level ++ y := (List.cons.inj hrest).2
      rw [List.append_assoc, List.append_assoc] at hvalue
      obtain ⟨rfl, hxy⟩ := text_unique v hx hy (List.append_cancel_left hvalue)
      exact ⟨rfl, hxy⟩
  | group braces items => by
    intro g level x y hx hy h
    obtain ⟨items', rfl⟩ := eq_group (opener_eq h).symm
    rw [text, text] at h
    obtain ⟨rfl, hxy⟩ := enclosed_unique items h
    exact ⟨rfl, hxy⟩

/-- The elements of a group are read back. -/
theorem enclosed_unique : ∀ (fs : List Form) ⦃gs : List Form⦄ ⦃level : Nat⦄ ⦃braces : Bool⦄
    ⦃x y : List Char⦄, enclosed spacing level braces (texts spacing (level + 1) fs) ++ x =
      enclosed spacing level braces (texts spacing (level + 1) gs) ++ y → fs = gs ∧ x = y
  | [] => by
    intro gs level braces x y h
    cases gs with
    | nil => exact ⟨rfl, List.append_cancel_left h⟩
    | cons g gs =>
      rw [texts, texts, enclosed_cons_append] at h
      exact absurd (List.cons.inj h).2 (lead_closing_ne g x _ (spacing.breaks (level + 1)))
  | f :: fs => by
    intro gs level braces x y h
    cases gs with
    | nil =>
      rw [texts, texts, enclosed_cons_append] at h
      exact absurd (List.cons.inj h).2.symm (lead_closing_ne f y _ (spacing.breaks (level + 1)))
    | cons g gs =>
      rw [texts, texts, enclosed_cons_append, enclosed_cons_append] at h
      have hitem := List.append_cancel_left (List.cons.inj h).2
      obtain ⟨rfl, hrest⟩ := text_unique f (ends_behind _ x) (ends_behind _ y) hitem
      obtain ⟨rfl, hxy⟩ := behind_unique fs hrest
      exact ⟨rfl, hxy⟩

/-- The elements behind the first of a group are read back. -/
theorem behind_unique : ∀ (fs : List Form) ⦃gs : List Form⦄ ⦃level : Nat⦄ ⦃braces : Bool⦄
    ⦃x y : List Char⦄, behind spacing level braces (texts spacing (level + 1) fs) ++ x =
      behind spacing level braces (texts spacing (level + 1) gs) ++ y → fs = gs ∧ x = y
  | [] => by
    intro gs level braces x y h
    cases gs with
    | nil => exact ⟨rfl, List.append_cancel_left h⟩
    | cons g gs =>
      rw [texts, texts, behind_cons_append] at h
      exact absurd h (lead_ne_comma x _)
  | f :: fs => by
    intro gs level braces x y h
    cases gs with
    | nil =>
      rw [texts, texts, behind_cons_append] at h
      exact absurd h.symm (lead_ne_comma y _)
    | cons g gs =>
      rw [texts, texts, behind_cons_append, behind_cons_append] at h
      have hitem := List.append_cancel_left (List.cons.inj h).2
      obtain ⟨rfl, hrest⟩ := text_unique f (ends_behind _ x) (ends_behind _ y) hitem
      obtain ⟨rfl, hxy⟩ := behind_unique fs hrest
      exact ⟨rfl, hxy⟩

end

end Form
end Json
end LoxFront
