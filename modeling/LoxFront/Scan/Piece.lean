/-
# Pieces of a source text

What `scan_token` reads at one place of a source text, with `parse_string`, `parse_number`
and `parse_identifier` behind it and the comments that it skips (section 10 of
SPEC_FULL.md).

A source text is cut into pieces from left to right, each as long as it can be: blanks,
comments, lexemes, stray characters and a string that is not closed (`Scan.pieces`).  No
character is lost: the texts of the pieces make up the source (`Scan.flatMap_pieces`).
-/

import LoxFront.Token

namespace LoxFront
namespace Scan

/-- What a piece of source text is. -/
inductive Shape where
  | blank
  | comment
  | lexeme (kind : Kind) (payload : Payload)
  | stray (c : Char)
  | openString
  deriving DecidableEq, Repr

/-- A piece of source text. -/
structure Piece where
  shape : Shape
  text : List Char
  deriving DecidableEq, Repr

/-- Space, tab, carriage return and newline. -/
def isBlank (c : Char) : Bool := c == ' ' || c == '\t' || c == '\r' || c == '\n'

/-- A character that a word begins with: an unaccented letter or a low line. -/
def isWordStart (c : Char) : Bool := c.isAlpha || c == '_'

/-- A character that a word goes on with. -/
def isWordRest (c : Char) : Bool := c.isAlphanum || c == '_'

/-- The mark that a character is by itself. -/
def mark? : Char → Option Kind
  | '(' => some .leftParen
  | ')' => some .rightParen
  | '{' => some .leftBrace
  | '}' => some .rightBrace
  | '-' => some .minus
  | '+' => some .plus
  | ';' => some .semicolon
  | '*' => some .star
  | _ => none

/-- The operators that a character is alone and before an equals sign. -/
def operator? : Char → Option (Kind × Kind)
  | '!' => some (.bang, .bangEqual)
  | '=' => some (.equal, .equalEqual)
  | '<' => some (.less, .lessEqual)
  | '>' => some (.greater, .greaterEqual)
  | _ => none

/-- An operator, with the equals sign if one follows. -/
def operator (c : Char) (alone wide : Kind) (cs : List Char) : Piece × List Char :=
  match cs with
  | '=' :: rest => (⟨.lexeme wide .none, [c, '=']⟩, rest)
  | _ => (⟨.lexeme alone .none, [c]⟩, cs)

/-- What begins with a slash: a second one makes a comment up to the end of the
line. -/
def slash (cs : List Char) : Piece × List Char :=
  match cs with
  | '/' :: rest =>
    (⟨.comment, '/' :: '/' :: rest.takeWhile (· != '\n')⟩, rest.dropWhile (· != '\n'))
  | _ => (⟨.lexeme .slash .none, ['/']⟩, cs)

/-- A string, up to the next quote. -/
def quote (cs : List Char) : Piece × List Char :=
  let body := cs.takeWhile (· != '"')
  match cs.dropWhile (· != '"') with
  | q :: rest => (⟨.lexeme .string (.text (String.ofList body)), '"' :: body ++ [q]⟩, rest)
  | [] => (⟨.openString, '"' :: body⟩, [])

/-- The value of a row of digits. -/
def digitsValue (s : List Char) : Nat := s.foldl (fun n c => 10 * n + (c.toNat - '0'.toNat)) 0

/-- The number token of `whole` and `frac` digits. -/
def numeral (whole frac : List Char) : Shape :=
  .lexeme .number (.number (.ofDecimal (digitsValue (whole ++ frac)) frac.length))

/-- A number: digits, and if a point and a digit follow, these and the digits
after them. -/
def number (c : Char) (cs : List Char) : Piece × List Char :=
  let whole := c :: cs.takeWhile Char.isDigit
  match cs.dropWhile Char.isDigit with
  | '.' :: d :: rest =>
    if d.isDigit then
      let frac := d :: rest.takeWhile Char.isDigit
      (⟨numeral whole frac, whole ++ '.' :: frac⟩, rest.dropWhile Char.isDigit)
    else (⟨numeral whole [], whole⟩, '.' :: d :: rest)
  | rest => (⟨numeral whole [], whole⟩, rest)

/-- A word. -/
def word (c : Char) (cs : List Char) : Piece × List Char :=
  let text := c :: cs.takeWhile isWordRest
  (⟨.lexeme (.ofWord (String.ofList text)) .none, text⟩, cs.dropWhile isWordRest)

/-- The first piece of a text that begins with `c`, and the text after it. -/
def first (c : Char) (cs : List Char) : Piece × List Char :=
  if isBlank c then (⟨.blank, [c]⟩, cs)
  else
    match mark? c, operator? c with
    | some kind, _ => (⟨.lexeme kind .none, [c]⟩, cs)
    | none, some (alone, wide) => operator c alone wide cs
    | none, none =>
      if c = '/' then slash cs
      else if c = '"' then quote cs
      else if c.isDigit then number c cs
      else if isWordStart c then word c cs
      else (⟨.stray c, [c]⟩, cs)

/-! ### The first piece and the rest make up the text -/

/-- The piece of an operator and what is left of the text are the text. -/
theorem operator_append (c : Char) (alone wide : Kind) (cs : List Char) :
    (operator c alone wide cs).1.text ++ (operator c alone wide cs).2 = c :: cs := by
  unfold operator; split <;> simp

/-- The piece of a slash or comment and what is left of the text are the text. -/
theorem slash_append (cs : List Char) : (slash cs).1.text ++ (slash cs).2 = '/' :: cs := by
  unfold slash; split <;> simp [List.takeWhile_append_dropWhile]

/-- The piece of a string and what is left of the text are the text. -/
theorem quote_append (cs : List Char) : (quote cs).1.text ++ (quote cs).2 = '"' :: cs := by
  have h := List.takeWhile_append_dropWhile (p := (· != '"')) (l := cs)
  unfold quote
  split <;> rename_i hd <;> rw [hd] at h <;> simpa using h

/-- The piece of a number and what is left of the text are the text. -/
theorem number_append (c : Char) (cs : List Char) :
    (number c cs).1.text ++ (number c cs).2 = c :: cs := by
  have h := List.takeWhile_append_dropWhile (p := Char.isDigit) (l := cs)
  unfold number
  split
  · rename_i d rest hd
    rw [hd] at h
    split
    · simpa using h
    · simpa using h
  · simp

/-- The piece of a word and what is left of the text are the text. -/
theorem word_append (c : Char) (cs : List Char) :
    (word c cs).1.text ++ (word c cs).2 = c :: cs := by
  simp [word, List.takeWhile_append_dropWhile]

/-- The first piece of a text and what is left of it are the text. -/
theorem first_append (c : Char) (cs : List Char) :
    (first c cs).1.text ++ (first c cs).2 = c :: cs := by
  unfold first
  split
  · simp
  · split
    · simp
    · exact operator_append ..
    · split
      · rename_i h; subst h; exact slash_append cs
      · split
        · rename_i h; subst h; exact quote_append cs
        · split
          · exact number_append ..
          · split
            · exact word_append ..
            · simp

/-! ### No piece is empty -/

/-- The piece of an operator is not empty. -/
theorem operator_ne_nil (c : Char) (alone wide : Kind) (cs : List Char) :
    (operator c alone wide cs).1.text ≠ [] := by
  unfold operator; split <;> simp

/-- The piece of a slash or comment is not empty. -/
theorem slash_ne_nil (cs : List Char) : (slash cs).1.text ≠ [] := by
  unfold slash; split <;> simp

/-- The piece of a string is not empty. -/
theorem quote_ne_nil (cs : List Char) : (quote cs).1.text ≠ [] := by
  unfold quote; split <;> simp

/-- The piece of a number is not empty. -/
theorem number_ne_nil (c : Char) (cs : List Char) : (number c cs).1.text ≠ [] := by
  unfold number; split
  · split <;> simp
  · simp

/-- The first piece of a text is not empty, so that the text gets shorter with each. -/
theorem first_ne_nil (c : Char) (cs : List Char) : (first c cs).1.text ≠ [] := by
  unfold first
  split
  · simp
  · split
    · simp
    · exact operator_ne_nil _ _ _ _
    · split
      · exact slash_ne_nil cs
      · split
        · exact quote_ne_nil cs
        · split
          · exact number_ne_nil _ _
          · split <;> simp [word]

/-- What is left is shorter. -/
theorem length_first (c : Char) (cs : List Char) : (first c cs).2.length < (c :: cs).length := by
  have h := congrArg List.length (first_append c cs)
  have := List.length_pos_iff.2 (first_ne_nil c cs)
  simp only [List.length_append] at h
  omega

/-- The pieces of a text. -/
def pieces : List Char → List Piece
  | [] => []
  | c :: cs => (first c cs).1 :: pieces (first c cs).2
termination_by s => s.length
decreasing_by exact length_first c cs

/-- **Nothing is lost:** the texts of the pieces make up the source. -/
theorem flatMap_pieces (s : List Char) : (pieces s).flatMap Piece.text = s := by
  fun_induction pieces s with
  | case1 => rfl
  | case2 c cs ih => rw [List.flatMap_cons, ih, first_append]

end Scan
end LoxFront
