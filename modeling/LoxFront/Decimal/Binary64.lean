/-
# Binary64 numbers as words

The payload of a `NUMBER`, as `parse_number` reads it from its digits.

A number is its 64-bit word: a sign, eleven bits of exponent and 52 bits of fraction.  A
finite number is `significand * 2 ^ scale` up to its sign (`Binary64.significand`,
`Binary64.scale`), and all that is done with it is exact arithmetic of natural numbers on
these two.  `Binary64.ofDecimal` is the number nearest to a decimal fraction.
-/

namespace LoxFront

/-- A number in the 64-bit binary interchange format, kept as its word. -/
structure Binary64 where
  word : UInt64
  deriving DecidableEq, Repr

namespace Binary64

/-- The word of a natural number below `2 ^ 64`. -/
def ofNat (n : Nat) : Binary64 := ⟨UInt64.ofNat n⟩

/-- The eleven bits of the exponent. -/
def exponentField (x : Binary64) : Nat := x.word.toNat / Nat.pow 2 52 % Nat.pow 2 11

/-- The 52 bits of the fraction. -/
def fractionField (x : Binary64) : Nat := x.word.toNat % Nat.pow 2 52

/-- The sign bit is set. -/
def isNegative (x : Binary64) : Bool := decide (Nat.pow 2 63 ≤ x.word.toNat)

/-- Neither an infinity nor a NaN. -/
def isFinite (x : Binary64) : Bool := decide (x.exponentField < 2047)

/-- An exponent of all ones over a fraction that is not zero. -/
def isNaN (x : Binary64) : Bool := x.exponentField == 2047 && x.fractionField != 0

/-- One of the two zeros. -/
def isZero (x : Binary64) : Bool := x.word.toNat % Nat.pow 2 63 == 0

/-- The integer that a finite number is a power of two away from. -/
def significand (x : Binary64) : Nat :=
  if x.exponentField = 0 then x.fractionField else Nat.pow 2 52 + x.fractionField

/-- The exponent of that power of two. -/
def scale (x : Binary64) : Int :=
  if x.exponentField = 0 then -1074 else x.exponentField - 1075

/-- The magnitude of a finite number that is a whole number. -/
def whole? (x : Binary64) : Option Nat :=
  if x.isFinite then
    if 0 ≤ x.scale then some (x.significand * Nat.pow 2 x.scale.toNat)
    else if x.significand % Nat.pow 2 (-x.scale).toNat = 0 then
      some (x.significand / Nat.pow 2 (-x.scale).toNat)
    else none
  else none

/-- Equality of the numbers meant: a NaN differs from all numbers and from
itself, and the two zeros are one number. -/
def agrees (x y : Binary64) : Bool :=
  !x.isNaN && !y.isNaN && (x == y || (x.isZero && y.isZero))

/-- `num / den` to the nearest natural number, a half to the even one. -/
def roundEven (num den : Nat) : Nat :=
  let q := num / den
  let r := 2 * (num % den)
  if r < den then q else if den < r then q + 1 else q + q % 2

/-- The largest `e` with `2 ^ e ≤ num / den`, for `num` and `den` not zero. -/
def floorLog (num den : Nat) : Int :=
  let e : Int := (num.log2 : Int) - den.log2
  if den * Nat.pow 2 e.toNat ≤ num * Nat.pow 2 (-e).toNat then e else e - 1

/-- The word of positive infinity. -/
def infinityWord : Nat := 2047 * Nat.pow 2 52

/-- The number nearest to `digits / 10 ^ places`, a tie to the even word.  The
quotient is taken at 53 bits, or at the lowest scale where it has fewer, and
the word then carries a quotient rounded up to `2 ^ 53` by itself. -/
def ofDecimal (digits places : Nat) : Binary64 :=
  if digits = 0 then ofNat 0
  else
    let den := Nat.pow 10 places
    let scale := max (floorLog digits den - 52) (-1074)
    let q := roundEven (digits * Nat.pow 2 (-scale).toNat) (den * Nat.pow 2 scale.toNat)
    ofNat (min infinityWord ((scale + 1074).toNat * Nat.pow 2 52 + q))

end Binary64
end LoxFront
