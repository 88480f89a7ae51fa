/-
# Reading bytes as UTF-8

The last step of `read_file`: the bytes of a file are a text, or there is a report.

`Text.decode` reads a byte string as text or says where it first goes wrong: a character
that the end of the bytes cuts short, or bytes that begin no character (`Flaw`).
-/

namespace LoxFront
namespace Text

/-- The first place where bytes are no UTF-8. -/
inductive Flaw where
  /-- The character that begins at `start` lacks its last bytes. -/
  | cutShort (start : Nat)
  /-- The `length` bytes from `start` begin no character. -/
  | malformed (start length : Nat)
  deriving DecidableEq, Repr

/-- The message of a flaw. -/
def Flaw.message : Flaw → String
  | .cutShort start => s!"incomplete utf-8 byte sequence from index {start}"
  | .malformed start length => s!"invalid utf-8 sequence of {length} bytes from index {start}"

/-- The bounds of the bytes that follow the first byte of a character, if a
character can begin with it. -/
def tails (b : Nat) : Option (List (Nat × Nat)) :=
  if b ≤ 0x7F then some []
  else if 0xC2 ≤ b ∧ b ≤ 0xDF then some [(0x80, 0xBF)]
  else if b = 0xE0 then some [(0xA0, 0xBF), (0x80, 0xBF)]
  else if b = 0xED then some [(0x80, 0x9F), (0x80, 0xBF)]
  else if 0xE1 ≤ b ∧ b ≤ 0xEF then some [(0x80, 0xBF), (0x80, 0xBF)]
  else if b = 0xF0 then some [(0x90, 0xBF), (0x80, 0xBF), (0x80, 0xBF)]
  else if 0xF1 ≤ b ∧ b ≤ 0xF3 then some [(0x80, 0xBF), (0x80, 0xBF), (0x80, 0xBF)]
  else if b = 0xF4 then some [(0x80, 0x8F), (0x80, 0xBF), (0x80, 0xBF)]
  else none

/-- The first flaw, inside a character that began at `start`, of which `seen`
bytes are read and `owed` bounds those to come. -/
def flaw? (start seen : Nat) (owed : List (Nat × Nat)) : List UInt8 → Option Flaw
  | [] => if owed.isEmpty then none else some (.cutShort start)
  | b :: bs =>
    match owed with
    | (low, high) :: more =>
      if low ≤ b.toNat ∧ b.toNat ≤ high then flaw? start (seen + 1) more bs
      else some (.malformed start seen)
    | [] =>
      match tails b.toNat with
      | none => some (.malformed (start + seen) 1)
      | some more => flaw? (start + seen) 1 more bs

/-- Bytes as text.  A flaw is looked for only in bytes that are no UTF-8. -/
def decode (bytes : ByteArray) : Except Flaw String :=
  match String.fromUTF8? bytes with
  | some s => .ok s
  | none => .error ((flaw? 0 0 [] bytes.data.toList).getD (.cutShort bytes.size))

end Text
end LoxFront
