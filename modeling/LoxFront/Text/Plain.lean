/-
# Texts without control sequences

What the log of `init_logger` keeps of a text meant for a terminal: neither control
characters, white space aside, nor the sequences that begin with an escape character.
White space shows inside a sequence too, except in those that carry a string, and text
shows behind it until a control character takes the sequence up again or a character beyond
ASCII ends it.
-/

namespace LoxFront
namespace Text

/-- A place in a control sequence. -/
inductive Stage where
  /-- Outside of all sequences. -/
  | outside
  /-- Behind the escape character. -/
  | escape
  /-- Behind an escape character and a mark. -/
  | marked
  /-- In a sequence that a letter ends. -/
  | command
  /-- At the start of a string for a device. -/
  | device
  /-- In the numbers before a string for a device. -/
  | deviceNumbers
  /-- In the marks before a string for a device. -/
  | deviceMarked
  /-- In a string that its terminator ends. -/
  | string
  /-- In a string that a bell ends. -/
  | title
  deriving DecidableEq, Repr

/-- Tab, line feed, form feed and return, which show in most sequences too. -/
def isLayout (c : Char) : Bool := c = '\t' || c = '\n' || c = '\x0c' || c = '\r'

/-- One of the octets of a character is the terminator of strings. -/
def holdsTerminator (c : Char) : Bool := (String.utf8EncodeChar c).contains 0x9C

namespace Stage

/-- A character shows at a stage. -/
def shows (s : Stage) (c : Char) : Bool :=
  match s with
  | outside => isLayout c || (decide (0x20 ≤ c.toNat) && c.toNat != 0x7F)
  | escape | marked | command => isLayout c
  | _ => false

/-- The stage behind a character that comes before the string for a device: marks
are read, then numbers up to the character `numbers`, and all else begins the
string. -/
def nextOfDevice (numbers : Nat) (s : Stage) (c : Char) : Stage :=
  if c.toNat < 0x20 || 0x7F ≤ c.toNat then s
  else if c.toNat ≤ 0x2F then deviceMarked
  else if c.toNat ≤ numbers then deviceNumbers
  else string

/-- The stage behind a character that does not show. -/
def next (s : Stage) (c : Char) : Stage :=
  if c = '\x18' || c = '\x1a' then outside
  else if c = '\x1b' then escape
  else
    match s with
    | outside => outside
    | escape =>
      if c = '[' then command
      else if c = ']' then title
      else if c = 'P' then device
      else if c = 'X' || c = '^' || c = '_' then string
      else if 0x20 ≤ c.toNat && c.toNat ≤ 0x2F then marked
      else if 0x30 ≤ c.toNat && c.toNat ≤ 0x7E then outside
      else escape
    | marked => if 0x30 ≤ c.toNat && c.toNat ≤ 0x7E then outside else marked
    | command => if 0x40 ≤ c.toNat && c.toNat ≤ 0x7E then outside else command
    | device => nextOfDevice 0x3F device c
    | deviceNumbers => nextOfDevice 0x3B deviceNumbers c
    | deviceMarked => nextOfDevice 0x2F deviceMarked c
    | string => if holdsTerminator c then outside else string
    | title => if c = '\x07' then outside else title

end Stage

/-- What shows of a text from a stage on; `showing` says whether the character
before showed. -/
def plainFrom (s : Stage) (showing : Bool) : List Char → List Char
  | [] => []
  | c :: rest =>
    if (if showing then Stage.outside else s).shows c then
      c :: plainFrom (if c.toNat < 0x80 then s else .outside) true rest
    else plainFrom (s.next c) false rest

/-- What shows of a text. -/
def plain (s : String) : String := String.ofList (plainFrom .outside false s.toList)

end Text
end LoxFront
