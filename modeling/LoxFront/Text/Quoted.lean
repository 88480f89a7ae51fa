/-
# Texts in quotes

For diagnostics, as those of `read_file` about the name of a file, a text stands between
double quotes, with a backslash before what would end it and before what does not show.
-/

import LoxFront.Text.Invisible

namespace LoxFront
namespace Text

/-- The spelling of a character between quotes. -/
def spell (c : Char) : List Char :=
  if c = '"' then ['\\', '"']
  else if c = '\\' then ['\\', '\\']
  else if c = '\n' then ['\\', 'n']
  else if c = '\r' then ['\\', 'r']
  else if c = '\t' then ['\\', 't']
  else if c = Char.ofNat 0 then ['\\', '0']
  else if isInvisible c then ['\\', 'u', '{'] ++ Nat.toDigits 16 c.toNat ++ ['}']
  else [c]

/-- A text in quotes. -/
def quoted (s : String) : String := String.ofList ('"' :: s.toList.flatMap spell ++ ['"'])

end Text
end LoxFront
