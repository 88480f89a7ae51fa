/-
# Parsing a program

`Parser::parse` with its loop, `parse_recovering` (section 4.5 of SPEC_FULL.md).

Declarations are read until only the end marker is left, each to its end whatever goes
wrong in it (`pass`).  The tokens are a program if no error stands in the tree; else all
errors are reported (`parse`).
-/

import LoxFront.Rule.Stmt

namespace LoxFront

/-- What a pass over the tokens gives: the statements, unless a declaration took
no token, and the events. -/
structure Pass where
  statements : Except Fault (List Stmt)
  trace : List Event
  deriving Repr

/-- A declaration in no region. -/
def topDeclaration : Cursor → Parsed Stmt := Rule.declaration (.upTo maxNesting)

/-- Declarations up to the end marker, no more than there are tokens in the
list. -/
def passFrom : List Token → Cursor → Pass
  | [], _ => ⟨.ok [], []⟩
  | _ :: more, c =>
    if c.isAtEnd then ⟨.ok [], []⟩
    else
      let p := topDeclaration c
      if p.cursor.position ≤ c.position then
        ⟨.error (.stalled c.position c.peek.line), p.trace⟩
      else
        let q := passFrom more p.cursor
        ⟨q.statements.map (p.value :: ·), p.trace ++ q.trace⟩

/-- The pass from a cursor on.  A declaration takes a token at least, so the
tokens that are left are enough. -/
def pass (c : Cursor) : Pass := passFrom c.rest c

/-- The program that tokens make up, or why they make up none. -/
def parse (tokens : List Token) : Except Failure Program :=
  match (Cursor.ofTokens tokens).bind fun c => (pass c).statements with
  | .error f => .error (.fatal f.diagnostic)
  | .ok statements =>
    let program : Program := ⟨statements⟩
    if program.errors.isEmpty then .ok program else .error (.rejected ⟨program.errors⟩)

end LoxFront
