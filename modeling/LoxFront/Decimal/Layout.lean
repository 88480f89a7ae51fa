/-
# How a number is laid out

The texts of a `NUMBER`: as a token lists it, as its kind is shown for diagnostics, and in
JSON.

A layout says for which exponents a number is written in positions and for which with a
power of ten, and how each is spelled (`Layout`).  The digits are always the fewest that
read back.
-/

import LoxFront.Decimal.Shortest

namespace LoxFront

/-- The decisions of a number format.  `positional e` holds if a number
`d.ddd * 10 ^ e` is written without a power of ten; `pointed` puts `.0` behind
a whole number written so; `plus` writes the sign of a positive exponent. -/
structure Layout where
  tie : Tie
  positional : Int → Bool
  pointed : Bool
  plus : Bool

namespace Layout

/-- So many zeros. -/
def zeros (n : Nat) : List Char := List.replicate n '0'

/-- The digits `s` of `d.ddd * 10 ^ e` in positions. -/
def inPositions (l : Layout) (s : List Char) : Int → List Char
  | .negSucc n => '0' :: '.' :: (zeros n ++ s)
  | .ofNat n =>
    let front := s.take (n + 1) ++ zeros (n + 1 - s.length)
    match s.drop (n + 1) with
    | [] => if l.pointed then front ++ ['.', '0'] else front
    | back => front ++ '.' :: back

/-- The digits `s` of `d.ddd * 10 ^ e` with a power of ten. -/
def withPower (l : Layout) (s : List Char) (e : Int) : List Char :=
  let sign := if e < 0 then ['-'] else if l.plus then ['+'] else []
  let point := if s.length ≤ 1 then [] else ['.']
  s.take 1 ++ point ++ s.drop 1 ++ 'e' :: sign ++ Nat.toDigits 10 e.natAbs

/-- A decimal, laid out. -/
def spell (l : Layout) (d : Decimal) : List Char :=
  let s := Nat.toDigits 10 d.digits
  let e := d.exponent + (s.length - 1 : Nat)
  if l.positional e then l.inPositions s e else l.withPower s e

/-- The text of a number: its sign, then its shortest decimal. -/
def text (l : Layout) (x : Binary64) : String :=
  if x.isNaN then "NaN"
  else
    let sign := if x.isNegative then ['-'] else []
    let body := if x.isFinite then l.spell (x.shortest l.tie) else ['i', 'n', 'f']
    String.ofList (sign ++ body)

end Layout
end LoxFront
