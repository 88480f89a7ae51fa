/-
# Tokens

`Token` and `Literal` of section 10 of SPEC_FULL.md, with `eof`, `literal` and the texts of
both.

A token is a kind with the text it was read from and the line on which it ends; strings and
numbers hold a value besides.  Two tokens are the same (`Token.same`) if kind, text and line
are, whatever they hold.
-/

import LoxFront.Decimal.Layout
import LoxFront.Text.Quoted
import LoxFront.Kind

namespace LoxFront

/-- The value that a token holds. -/
inductive Payload where
  | none
  | text (value : String)
  | number (value : Binary64)
  deriving DecidableEq, Repr

/-- A word of the source, or the end of it. -/
structure Token where
  kind : Kind
  lexeme : String
  line : Nat
  payload : Payload
  deriving DecidableEq, Repr

/-- The value that a token stands for. -/
inductive Literal where
  | number (value : Binary64)
  | text (value : String)
  | bool (value : Bool)
  | nil
  deriving DecidableEq, Repr

/-- The layout of numbers that never uses a power of ten. -/
def Layout.plain : Layout := ⟨.up, fun _ => true, false, false⟩

/-- The layout of numbers in diagnostics: in positions from 0.0001 to below
`10 ^ 16`. -/
def Layout.debug : Layout := ⟨.up, fun e => decide (-4 ≤ e ∧ e < 16), true, false⟩

/-- The text of a number in listings: a whole number below `2 ^ 63` in full with
`.0` behind it, without a sign if it is zero, and all others in positions. -/
def Binary64.listing (x : Binary64) : String :=
  match x.whole? with
  | some n =>
    if n < Nat.pow 2 63 then (if x.isNegative && n != 0 then "-" else "") ++ toString n ++ ".0"
    else Layout.plain.text x
  | none => Layout.plain.text x

namespace Literal

/-- The text of a literal in listings. -/
def listing : Literal → String
  | number x => x.listing
  | text s => s
  | bool b => if b then "true" else "false"
  | nil => "nil"

/-- The same value; numbers are compared as numbers. -/
def agrees : Literal → Literal → Bool
  | number x, number y => x.agrees y
  | text s, text t => s == t
  | bool a, bool b => a == b
  | nil, nil => true
  | _, _ => false

end Literal

namespace Token

/-- The end of the input, on the last line. -/
def atEnd (line : Nat) : Token := ⟨.eof, "", line, .none⟩

/-- The text that a string holds. -/
def heldText (t : Token) : String :=
  match t.payload with
  | .text s => s
  | _ => ""

/-- The number that a number token holds. -/
def heldNumber (t : Token) : Binary64 :=
  match t.payload with
  | .number x => x
  | _ => .ofNat 0

/-- The value that a token stands for, if its kind has one. -/
def literal? (t : Token) : Option Literal :=
  match t.kind with
  | .number => some (.number t.heldNumber)
  | .string => some (.text t.heldText)
  | .trueWord => some (.bool true)
  | .falseWord => some (.bool false)
  | .nilWord => some .nil
  | _ => none

/-- A line of a listing: kind, text and value.  Only numbers and strings show
their value. -/
def listing (t : Token) : String :=
  let value :=
    match t.kind with
    | .number => t.heldNumber.listing
    | .string => t.heldText
    | _ => "null"
  t.kind.name ++ " " ++ t.lexeme ++ " " ++ value

/-- The kind of a token and its value in diagnostics. -/
def debug (t : Token) : String :=
  match t.kind with
  | .number => "NUMBER(" ++ Layout.debug.text t.heldNumber ++ ")"
  | .string => "STRING(" ++ Text.quoted t.heldText ++ ")"
  | k => k.name

/-- Same kind, text and line. -/
def same (s t : Token) : Bool := s.kind == t.kind && s.lexeme == t.lexeme && s.line == t.line

/-- The same value, or none on either side. -/
def agrees (s t : Token) : Bool :=
  match s.literal?, t.literal? with
  | some l, some m => l.agrees m
  | none, none => true
  | _, _ => false

end Token
end LoxFront
