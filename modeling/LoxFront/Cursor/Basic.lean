/-
# Cursors

The `Cursor` of section 4.1 of SPEC_FULL.md: `Cursor::new` with its four refusals, `peek`,
`advance`, `check`, `matches`, `eat`, `descend` and `ascend`; and `synchronize` of section
4.4, which goes on to behind the next semicolon (`Cursor.resume`).

A cursor is a place in a list of tokens that ends in an end marker and has no other, with
the number of regions that are open there.  It never passes the marker (`Cursor.advance`),
and no more than 32 regions stand in one another (`Cursor.descend?`).
-/

import LoxFront.Diagnostic
import LoxFront.Token

namespace LoxFront

/-- How many regions can stand in one another: groupings, operands of prefix
operators, assigned values, blocks, branches and bodies of loops. -/
def maxNesting : Nat := 32

/-- A place in a list of tokens. -/
structure Cursor where
  /-- The tokens from here to before the end marker. -/
  rest : List Token
  /-- The end marker. -/
  marker : Token
  /-- How many tokens are behind. -/
  position : Nat
  /-- How many regions are open. -/
  depth : Nat
  deriving DecidableEq, Repr

namespace Cursor

/-- The beginning of a list of tokens, or the first thing wrong with the list. -/
def ofTokens (tokens : List Token) : Except Fault Cursor :=
  match tokens.getLast? with
  | none => .error .noTokens
  | some last =>
    if last.kind = .eof then
      match tokens.dropLast with
      | [] => .error .onlyEnd
      | body =>
        match body.findIdx? (fun t => t.kind == .eof) with
        | some i => .error (.strayEnd i)
        | none => .ok ⟨body, last, 0, 0⟩
    else .error (.noEnd last.lexeme last.line)

/-- The token at the cursor. -/
def peek (c : Cursor) : Token := c.rest.headD c.marker

/-- Only the end marker is left. -/
def isAtEnd (c : Cursor) : Bool := c.rest.isEmpty

/-- How many tokens are left before the end marker. -/
def remaining (c : Cursor) : Nat := c.rest.length

/-- One token further; the end marker is not passed. -/
def next (c : Cursor) : Cursor :=
  match c.rest with
  | [] => c
  | _ :: rest => { c with rest := rest, position := c.position + 1 }

/-- The token at the cursor and the cursor behind it. -/
def advance (c : Cursor) : Except Fault (Token × Cursor) :=
  if c.isAtEnd then .error (.pastEnd c.marker.line) else .ok (c.peek, c.next)

/-- The token at the cursor is of this kind.  The end marker is of none. -/
def check (c : Cursor) (kind : Kind) : Bool := !c.isAtEnd && c.peek.kind == kind

/-- The token at the cursor, if it is of one of these kinds, and the cursor
behind it. -/
def eatIf? (c : Cursor) (accepts : Kind → Bool) : Option (Token × Cursor) :=
  if !c.isAtEnd && accepts c.peek.kind then some (c.peek, c.next) else none

/-- The token at the cursor, if it is of this kind, and the cursor behind it. -/
def eat? (c : Cursor) (kind : Kind) : Option (Token × Cursor) := c.eatIf? (· == kind)

/-- The same place with one more region open, unless that is too many. -/
def descend? (c : Cursor) : Option Cursor :=
  if c.depth < maxNesting then some { c with depth := c.depth + 1 } else none

/-- The same place with one region less. -/
def ascend (c : Cursor) : Cursor := { c with depth := c.depth - 1 }

/-- How many tokens there are up to the first semicolon and with it, or in all. -/
def toSemicolon : List Token → Nat
  | [] => 0
  | t :: rest => if t.kind = .semicolon then 1 else toSemicolon rest + 1

/-- Behind the next semicolon, or at the end if there is none. -/
def resume (c : Cursor) : Cursor :=
  let n := toSemicolon c.rest
  { c with rest := c.rest.drop n, position := c.position + n }

end Cursor
end LoxFront
