/-
# Characters that do not show

Controls, format characters, separators other than the space, characters for
private use, fillers, marks that extend the character before them, and code
points without a character.
-/

import LoxFront.Text.Extending
import LoxFront.Text.Unassigned

namespace LoxFront
namespace Text

/-- Controls, format characters, separators other than the space, and characters
for private use. -/
def controlRanges : List (Nat × Nat) :=
  [(0x0, 0x1F), (0x7F, 0xA0), (0xAD, 0xAD), (0x600, 0x605), (0x61C, 0x61C), (0x6DD, 0x6DD),
   (0x70F, 0x70F), (0x890, 0x891), (0x8E2, 0x8E2), (0x1680, 0x1680), (0x180E, 0x180E),
   (0x2000, 0x200F), (0x2028, 0x202F), (0x205F, 0x2064), (0x2066, 0x206F), (0x3000, 0x3000),
   (0xE000, 0xF8FF), (0xFEFF, 0xFEFF), (0xFFF9, 0xFFFB), (0x110BD, 0x110BD), (0x110CD, 0x110CD),
   (0x13430, 0x1343F), (0x1BCA0, 0x1BCA3), (0x1D173, 0x1D17A), (0xE0001, 0xE0001),
   (0xE0020, 0xE007F), (0xF0000, 0xFFFFD), (0x100000, 0x10FFFD)]

/-- The fillers, which hold the place of a letter and are drawn as nothing. -/
def fillerRanges : List (Nat × Nat) :=
  [(0x115F, 0x1160), (0x3164, 0x3164), (0xFFA0, 0xFFA0)]

/-- A code point lies in one of the ranges, the ends included. -/
def covers (ranges : List (Nat × Nat)) (n : Nat) : Bool :=
  ranges.any fun r => decide (r.1 ≤ n) && decide (n ≤ r.2)

/-- A code point has no picture of its own. -/
def isHidden (n : Nat) : Bool :=
  covers controlRanges n || covers fillerRanges n
    || if n < 0x10000 then covers extendingBasic n || covers unassignedBasic n
      else covers extendingBeyond n || covers unassignedBeyond n

/-- A character has no picture of its own.  Of the first 127 these are the first
32, so that a look into the ranges is saved. -/
def isInvisible (c : Char) : Bool :=
  if c.toNat < 0x7F then decide (c.toNat < 0x20) else isHidden c.toNat

end Text
end LoxFront
