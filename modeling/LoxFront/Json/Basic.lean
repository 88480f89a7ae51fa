/-
# JSON values and their text

The two forms in which the program writes JSON: compact, and pretty for `--json` (section 13
of SPEC_FULL.md).

A value is written without blanks (`Json.compact`) or with one element a line and two blanks
for each level of nesting (`Json.pretty`).  Objects keep the order of their fields.
-/

import LoxFront.Decimal.Layout

namespace LoxFront

/-- A JSON value. -/
inductive Json where
  | null
  | natural (n : Nat)
  | number (x : Binary64)
  | string (s : String)
  | array (items : List Json)
  | object (fields : List (String × Json))
  deriving Repr

namespace Json

/-- The layout of numbers in JSON text: in positions from 0.00001 to below
`10 ^ 16`, with a point, and else with a signed power of ten. -/
def layout : Layout := ⟨.toEven, fun e => decide (-5 ≤ e ∧ e < 16), true, true⟩

/-- A number as a value: JSON has neither infinities nor NaN. -/
def ofBinary64 (x : Binary64) : Json := if x.isFinite then number x else null

/-- The spelling of a character in a string. -/
def escape (c : Char) : List Char :=
  if c = '"' then ['\\', '"']
  else if c = '\\' then ['\\', '\\']
  else if c = '\n' then ['\\', 'n']
  else if c = '\r' then ['\\', 'r']
  else if c = '\t' then ['\\', 't']
  else if c = '\x08' then ['\\', 'b']
  else if c = '\x0c' then ['\\', 'f']
  else if c.toNat < 0x10 then ['\\', 'u', '0', '0', '0'] ++ Nat.toDigits 16 c.toNat
  else if c.toNat < 0x20 then ['\\', 'u', '0', '0'] ++ Nat.toDigits 16 c.toNat
  else [c]

/-- A string in quotes. -/
def quoted (s : String) : String := String.ofList ('"' :: s.toList.flatMap escape ++ ['"'])

mutual

/-- The text of a value, without blanks. -/
def compact : Json → String
  | null => "null"
  | natural n => toString n
  | number x => layout.text x
  | string s => quoted s
  | array items => "[" ++ ",".intercalate (compactItems items) ++ "]"
  | object fields => "\x7b" ++ ",".intercalate (compactFields fields) ++ "\x7d"

/-- The texts of the elements of an array. -/
def compactItems : List Json → List String
  | [] => []
  | v :: rest => v.compact :: compactItems rest

/-- The texts of the fields of an object. -/
def compactFields : List (String × Json) → List String
  | [] => []
  | (k, v) :: rest => (quoted k ++ ":" ++ v.compact) :: compactFields rest

end

/-- The blanks before a line at a level of nesting. -/
def margin (level : Nat) : String := String.ofList (List.replicate (2 * level) ' ')

/-- Lines between brackets, one level deeper than these; brackets alone if there
is no line. -/
def bracketed (level : Nat) (opening closing : String) (lines : List String) : String :=
  if lines.isEmpty then opening ++ closing
  else
    opening ++ "\n" ++ ",\n".intercalate (lines.map (margin (level + 1) ++ ·)) ++ "\n"
      ++ margin level ++ closing

mutual

/-- The text of a value at a level of nesting, one element a line. -/
def prettyAt (level : Nat) : Json → String
  | null => "null"
  | natural n => toString n
  | number x => layout.text x
  | string s => quoted s
  | array items => bracketed level "[" "]" (prettyItems (level + 1) items)
  | object fields => bracketed level "\x7b" "\x7d" (prettyFields (level + 1) fields)

/-- The texts of the elements of an array. -/
def prettyItems (level : Nat) : List Json → List String
  | [] => []
  | v :: rest => v.prettyAt level :: prettyItems level rest

/-- The texts of the fields of an object. -/
def prettyFields (level : Nat) : List (String × Json) → List String
  | [] => []
  | (k, v) :: rest => (quoted k ++ ": " ++ v.prettyAt level) :: prettyFields level rest

end

/-- The text of a value, one element a line. -/
def pretty (v : Json) : String := v.prettyAt 0

end Json
end LoxFront
