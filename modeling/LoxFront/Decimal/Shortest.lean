/-
# The shortest decimal of a binary number

Every real of an interval around a finite number reads back as that number
(`Binary64.span`).  `Span.shortest` walks the decimal grids from coarse to fine
and stops at the first that has a point in the interval; of two such points it
takes the one nearer to the number.  If a point of a grid is in the interval,
so is one of the two neighbours of the number on that grid, so only these two
are tried.
-/

import LoxFront.Decimal.Binary64

namespace LoxFront

/-- The decimal `digits * 10 ^ exponent`. -/
structure Decimal where
  digits : Nat
  exponent : Int
  deriving DecidableEq, Repr

/-- What becomes of a number halfway between two decimals. -/
inductive Tie where
  | up
  | toEven
  deriving DecidableEq, Repr

/-- The reals that read back as one number: from `low` to `high` around `mid`,
all counted in `2 ^ unit`, with both ends or with neither. -/
structure Span where
  low : Nat
  mid : Nat
  high : Nat
  unit : Int
  closed : Bool
  deriving Repr

namespace Span

/-- `x * 2 ^ unit` is to `d * 10 ^ k` as `x * (factors unit k).1` is to
`d * (factors unit k).2`. -/
def factors (unit k : Int) : Nat × Nat :=
  (Nat.pow 2 unit.toNat * Nat.pow 10 (-k).toNat, Nat.pow 2 (-unit).toNat * Nat.pow 10 k.toNat)

/-- `d * 10 ^ k` is in the span. -/
def holds (s : Span) (k : Int) (d : Nat) : Bool :=
  let (a, b) := factors s.unit k
  if s.closed then decide (s.low * a ≤ d * b ∧ d * b ≤ s.high * a)
  else decide (s.low * a < d * b ∧ d * b < s.high * a)

/-- The greatest `d` with `d * 10 ^ k` at most the number. -/
def floor (s : Span) (k : Int) : Nat :=
  let (a, b) := factors s.unit k
  s.mid * a / b

/-- The one of `d * 10 ^ k` and `(d + 1) * 10 ^ k` that is nearer to the number
between them. -/
def nearer (s : Span) (tie : Tie) (k : Int) (d : Nat) : Nat :=
  let (a, b) := factors s.unit k
  match compare (2 * s.mid * a) ((2 * d + 1) * b), tie with
  | .lt, _ => d
  | .gt, _ => d + 1
  | .eq, .up => d + 1
  | .eq, .toEven => d + d % 2

/-- The point of the grid `10 ^ k` that stands for the number, if one reads
back as it. -/
def onGrid? (s : Span) (tie : Tie) (k : Int) : Option Nat :=
  let d := s.floor k
  match s.holds k d, s.holds k (d + 1) with
  | true, true => some (s.nearer tie k d)
  | true, false => some d
  | false, true => some (d + 1)
  | false, false => none

/-- The first hit on the grids `10 ^ k`, `10 ^ (k - 1)`, … -/
def search (s : Span) (tie : Tie) : Nat → Int → Decimal
  | 0, k => ⟨s.floor k, k⟩
  | n + 1, k =>
    match s.onGrid? tie k with
    | some d => ⟨d, k⟩
    | none => search s tie n (k - 1)

/-- The shortest decimal of the span.  `1233 / 4096` is a little less than the
decimal logarithm of two, so the first grid is coarser than the number, and
twenty finer ones reach seventeen digits. -/
def shortest (s : Span) (tie : Tie) : Decimal :=
  s.search tie 20 ((s.mid.log2 + s.unit + 1) * 1233 / 4096 + 1)

end Span

/-- The span of a finite number that is not zero.  Below a power of two the
neighbour is half as far as above it; the ends read back as the number when its
significand is even. -/
def Binary64.span (x : Binary64) : Span where
  low := 4 * x.significand - (if x.fractionField = 0 ∧ 1 < x.exponentField then 1 else 2)
  mid := 4 * x.significand
  high := 4 * x.significand + 2
  unit := x.scale - 2
  closed := x.significand % 2 == 0

/-- The shortest decimal that reads back as a finite number up to its sign. -/
def Binary64.shortest (x : Binary64) (tie : Tie) : Decimal :=
  if x.isZero then ⟨0, 0⟩ else x.span.shortest tie

end LoxFront
