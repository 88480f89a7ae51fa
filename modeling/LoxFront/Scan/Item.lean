/-
# What a scan finds

The items that `Scanner` gives one by one through `next`, and the list of them that
`scan_tokens` makes or its errors.

Each lexeme becomes a token and each piece that is none becomes an error, both on the line
on which the piece ends; blanks and comments leave nothing (`Scan.items`).  One token marks
the end of the input.
-/

import LoxFront.Diagnostic
import LoxFront.Scan.Piece

namespace LoxFront
namespace Scan

/-- Why a piece is no token. -/
inductive Trouble where
  | stray (c : Char)
  | openString
  deriving DecidableEq, Repr

/-- The message of a lexical error. -/
def Trouble.message : Trouble → String
  | .stray c => "Unexpected character: " ++ String.singleton c
  | .openString => "Unterminated string."

/-- One find of a scan. -/
inductive Item where
  | token (t : Token)
  | trouble (line : Nat) (cause : Trouble)
  deriving DecidableEq, Repr

namespace Item

/-- The token of an item. -/
def token? : Item → Option Token
  | token t => some t
  | trouble _ _ => none

/-- The diagnostic of an item that is no token. -/
def diagnostic? : Item → Option Diagnostic
  | token _ => none
  | trouble line cause => some (.lexical line cause.message)

end Item

/-- What a piece that ends on `line` leaves. -/
def Piece.item? (p : Piece) (line : Nat) : Option Item :=
  match p.shape with
  | .blank | .comment => none
  | .lexeme kind payload => some (.token ⟨kind, String.ofList p.text, line, payload⟩)
  | .stray c => some (.trouble line (.stray c))
  | .openString => some (.trouble line .openString)

/-- The newlines in a text. -/
def newlines (s : List Char) : Nat := s.count '\n'

/-- The finds among the pieces of a text that begins on `line`. -/
def itemsFrom (line : Nat) : List Piece → List Item
  | [] => [.token (.atEnd line)]
  | p :: ps =>
    let line := line + newlines p.text
    (p.item? line).toList ++ itemsFrom line ps

/-- All finds in a source text, in order. -/
def items (source : String) : List Item := itemsFrom 1 (pieces source.toList)

/-- The lexical errors of a source text. -/
def troubles (source : String) : List Diagnostic := (items source).filterMap Item.diagnostic?

/-- The tokens of a source text, or all its lexical errors. -/
def tokens (source : String) : Except (List Diagnostic) (List Token) :=
  if (troubles source).isEmpty then .ok ((items source).filterMap Item.token?)
  else .error (troubles source)

end Scan
end LoxFront
