/-
# The languages of lexemes

Which texts are lexemes of which kind, without regard to how they are found
(`Scan.Belongs`): the marks and operators, rows of digits with or without a
fraction, strings in quotes, and words, of which thirteen are reserved.  The first
character of a text settles which language it can belong to.
-/

import LoxFront.Scan.Piece
import Mathlib.Data.Bool.AllAny

namespace LoxFront
namespace Scan

/-- Marks and operators, which are always written alike. -/
def fixed : List (List Char × Kind) :=
  [(['('], .leftParen), ([')'], .rightParen), (['{'], .leftBrace), (['}'], .rightBrace),
   (['-'], .minus), (['+'], .plus), ([';'], .semicolon), (['/'], .slash), (['*'], .star),
   (['!'], .bang), (['!', '='], .bangEqual), (['='], .equal), (['=', '='], .equalEqual),
   (['>'], .greater), (['>', '='], .greaterEqual), (['<'], .less), (['<', '='], .lessEqual)]

/-- The text is a lexeme of this kind with this value. -/
inductive Belongs : Kind → Payload → List Char → Prop where
  | fixed {k : Kind} {text : List Char} : (text, k) ∈ fixed → Belongs k .none text
  | whole {digits : List Char} : digits ≠ [] → (∀ d ∈ digits, d.isDigit = true) →
    Belongs .number (.number (.ofDecimal (digitsValue digits) 0)) digits
  | fraction {whole frac : List Char} : whole ≠ [] → (∀ d ∈ whole, d.isDigit = true) →
    frac ≠ [] → (∀ d ∈ frac, d.isDigit = true) →
    Belongs .number (.number (.ofDecimal (digitsValue (whole ++ frac)) frac.length))
      (whole ++ '.' :: frac)
  | string {body : List Char} : '"' ∉ body →
    Belongs .string (.text (String.ofList body)) ('"' :: body ++ ['"'])
  | reserved {word : String} {k : Kind} : (word, k) ∈ Kind.reserved →
    Belongs k .none word.toList
  | name {c : Char} {rest : List Char} : isWordStart c = true → (∀ d ∈ rest, isWordRest d = true) →
    String.ofList (c :: rest) ∉ Kind.reserved.map Prod.fst → Belongs .identifier .none (c :: rest)

/-- The text is a lexeme. -/
def IsLexeme (text : List Char) : Prop := ∃ kind payload, Belongs kind payload text

/-- A comment begins the text. -/
def StartsComment (text : List Char) : Prop := ['/', '/'] <+: text

/-! ### What a first character allows -/

/-- The characters that marks and operators begin with. -/
def marks : List Char :=
  ['(', ')', '{', '}', '-', '+', ';', '/', '*', '!', '=', '>', '<']

/-- A lexeme of fixed spelling begins with a mark. -/
theorem head_mem_marks {c : Char} {u : List Char} {k : Kind} (h : (c :: u, k) ∈ fixed) :
    c ∈ marks := by
  have hall : ∀ e ∈ fixed, e.1.head?.all (fun d => decide (d ∈ marks)) = true := by decide
  exact of_decide_eq_true (hall _ h)

/-- Behind its first character it has nothing, or the equals sign of an operator. -/
theorem eq_nil_or_wide {c : Char} {u : List Char} {k : Kind} (h : (c :: u, k) ∈ fixed) :
    u = [] ∨ u = ['='] ∧ (operator? c).isSome = true := by
  have hall : ∀ e ∈ fixed, e.1.tail = [] ∨
      e.1.tail = ['='] ∧ (e.1.head?.bind operator?).isSome = true := by decide
  exact hall _ h

/-- Marks, digits, quotes and the first characters of words are all different. -/
theorem not_of_mem_marks {c : Char} (h : c ∈ marks) :
    c.isDigit = false ∧ c ≠ '"' ∧ isWordStart c = false := by
  have hall : ∀ d ∈ marks, d.isDigit = false ∧ d ≠ '"' ∧ isWordStart d = false :=
    List.all_iff_forall_prop.1 (by decide)
  exact hall c h

/-- No digit begins a word. -/
theorem not_isWordStart_of_isDigit {c : Char} (h : c.isDigit = true) : isWordStart c = false := by
  have hne : c ≠ '_' := by rintro rfl; revert h; decide
  unfold Char.isDigit at h
  unfold isWordStart Char.isAlpha Char.isUpper Char.isLower
  grind

/-- What begins a word goes on with one. -/
theorem isWordRest_of_isWordStart {c : Char} (h : isWordStart c = true) : isWordRest c = true := by
  rw [isWordStart, Bool.or_eq_true] at h
  rw [isWordRest, Char.isAlphanum]
  rcases h with h | h <;> simp [h]

/-- Reserved words are words. -/
theorem word_of_mem_reserved {word : String} {k : Kind} (h : (word, k) ∈ Kind.reserved) :
    ∃ c u, word.toList = c :: u ∧ isWordStart c = true ∧ ∀ d ∈ u, isWordRest d = true := by
  have hall : ∀ e ∈ Kind.reserved, (e.1.toList.head?.any isWordStart &&
      e.1.toList.tail.all isWordRest) = true := by decide
  have hword := hall _ h
  cases hlist : word.toList with
  | nil => rw [hlist] at hword; exact nomatch hword
  | cons c u =>
    rw [hlist, Bool.and_eq_true] at hword
    exact ⟨c, u, rfl, hword.1, List.all_eq_true.1 hword.2⟩

/-- Digits, or digits and a fraction. -/
def IsNumber (text : List Char) : Prop :=
  (∀ d ∈ text, d.isDigit = true) ∨
    ∃ whole frac, text = whole ++ '.' :: frac ∧ (∀ d ∈ whole, d.isDigit = true) ∧ frac ≠ [] ∧
      ∀ d ∈ frac, d.isDigit = true

/-- **The first character of a lexeme settles what the others can be.** -/
theorem IsLexeme.cases {c : Char} {u : List Char} (h : IsLexeme (c :: u)) :
    (∃ k, (c :: u, k) ∈ fixed) ∨ (c.isDigit = true ∧ IsNumber (c :: u)) ∨
      (c = '"' ∧ ∃ body, '"' ∉ body ∧ u = body ++ ['"']) ∨
        (isWordStart c = true ∧ ∀ d ∈ u, isWordRest d = true) := by
  obtain ⟨k, payload, h⟩ := h
  generalize htext : c :: u = text at h
  cases h with
  | fixed h => exact .inl ⟨k, h⟩
  | whole hne hall =>
    subst htext
    exact .inr (.inl ⟨hall c List.mem_cons_self, .inl hall⟩)
  | @fraction whole frac hne hwhole hfrac hall =>
    refine .inr (.inl ⟨?_, .inr ⟨whole, frac, rfl, hwhole, hfrac, hall⟩⟩)
    cases whole with
    | nil => exact absurd rfl hne
    | cons d whole =>
      obtain ⟨rfl, -⟩ := List.cons.inj htext
      exact hwhole c List.mem_cons_self
  | @string body hbody =>
    obtain ⟨rfl, rfl⟩ := List.cons.inj htext
    exact .inr (.inr (.inl ⟨rfl, body, hbody, rfl⟩))
  | @reserved word k h =>
    obtain ⟨d, v, hd, hstart, hrest⟩ := word_of_mem_reserved h
    obtain ⟨rfl, rfl⟩ := List.cons.inj (htext.trans hd)
    exact .inr (.inr (.inr ⟨hstart, hrest⟩))
  | name hstart hrest _ =>
    obtain ⟨rfl, rfl⟩ := List.cons.inj htext
    exact .inr (.inr (.inr ⟨hstart, hrest⟩))

/-! ### Lexemes by their first character -/

variable {c : Char} {u : List Char}

/-- No lexeme is empty. -/
theorem not_isLexeme_nil : ¬IsLexeme [] := by
  rintro ⟨k, payload, h⟩
  generalize htext : ([] : List Char) = text at h
  cases h with
  | fixed h =>
    have hall : ∀ e ∈ fixed, e.1 ≠ [] := by decide
    exact hall _ h htext.symm
  | whole hne => exact hne htext.symm
  | fraction hne => exact hne (List.append_eq_nil_iff.1 htext.symm).1
  | string => exact nomatch htext
  | reserved h =>
    obtain ⟨c, u, hword, -⟩ := word_of_mem_reserved h
    exact nomatch htext.trans hword
  | name => exact nomatch htext

/-- Behind a mark or an operator only an equals sign belongs to the lexeme. -/
theorem IsLexeme.of_mark (h : IsLexeme (c :: u)) (hc : c ∈ marks) :
    u = [] ∨ u = ['='] ∧ (operator? c).isSome = true := by
  obtain ⟨hdigit, hquote, hword⟩ := not_of_mem_marks hc
  rcases h.cases with ⟨k, h⟩ | ⟨h, -⟩ | ⟨h, -⟩ | ⟨h, -⟩
  · exact eq_nil_or_wide h
  · exact nomatch hdigit.symm.trans h
  · exact absurd h hquote
  · exact nomatch hword.symm.trans h

/-- A lexeme that begins with a digit is a number. -/
theorem IsLexeme.of_digit (h : IsLexeme (c :: u)) (hc : c.isDigit = true) : IsNumber (c :: u) := by
  rcases h.cases with ⟨k, h⟩ | ⟨-, h⟩ | ⟨rfl, -⟩ | ⟨h, -⟩
  · exact nomatch hc.symm.trans (not_of_mem_marks (head_mem_marks h)).1
  · exact h
  · exact absurd hc (by decide)
  · exact nomatch h.symm.trans (not_isWordStart_of_isDigit hc)

/-- A lexeme that begins with a quote is a string: it ends with the next quote. -/
theorem IsLexeme.of_quote (h : IsLexeme ('"' :: u)) : ∃ body, '"' ∉ body ∧ u = body ++ ['"'] := by
  rcases h.cases with ⟨k, h⟩ | ⟨h, -⟩ | ⟨-, h⟩ | ⟨h, -⟩
  · exact absurd rfl (not_of_mem_marks (head_mem_marks h)).2.1
  · exact absurd h (by decide)
  · exact h
  · exact absurd h (by decide)

/-- A lexeme that begins with a letter is a word throughout. -/
theorem IsLexeme.of_word (h : IsLexeme (c :: u)) (hc : isWordStart c = true) :
    ∀ d ∈ u, isWordRest d = true := by
  rcases h.cases with ⟨k, h⟩ | ⟨h, -⟩ | ⟨rfl, -⟩ | ⟨-, h⟩
  · exact nomatch hc.symm.trans (not_of_mem_marks (head_mem_marks h)).2.2
  · exact nomatch hc.symm.trans (not_isWordStart_of_isDigit h)
  · exact absurd hc (by decide)
  · exact h

/-- No lexeme begins with any other character. -/
theorem not_isLexeme (hmark : c ∉ marks) (hdigit : c.isDigit = false) (hquote : c ≠ '"')
    (hword : isWordStart c = false) : ¬IsLexeme (c :: u) := by
  intro h
  rcases h.cases with ⟨k, h⟩ | ⟨h, -⟩ | ⟨h, -⟩ | ⟨h, -⟩
  · exact hmark (head_mem_marks h)
  · exact nomatch hdigit.symm.trans h
  · exact hquote h
  · exact nomatch hword.symm.trans h

end Scan
end LoxFront
