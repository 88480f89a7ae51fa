/-
# Rules

What the functions of the grammar have in common: they take a cursor and give a node and a
cursor (`Parsed`), leave early with an error (`bail!`), ask for a token (`expect!`) and open
a region (`nested`).

A rule of the grammar goes from a cursor to a value or an error, the cursor where it
stopped, and a trace of what happened on the way (`Rule`).  An error ends the rules around
it; the cursor stays at the token of the error.
-/

import LoxFront.Cursor.Basic
import LoxFront.ParseError

namespace LoxFront

/-- What happens in a pass. -/
inductive Event where
  /-- A declaration begins. -/
  | entered (position : Nat)
  /-- A rule fails at a token. -/
  | failed (position : Nat) (complaint : Complaint) (token : Token)
  /-- A failed declaration is left at a token on this line. -/
  | panicked (position line : Nat)
  /-- So many tokens were dropped. -/
  | resumed (dropped : Nat)
  /-- The word `return` stands for a value. -/
  | returned (line : Nat)
  deriving DecidableEq, Repr

/-- The error of an event. -/
def Event.error? : Event → Option ParseError
  | failed _ complaint token => some (complaint.about token)
  | _ => none

/-- What is read from a place on: a value, the place behind it and the events. -/
structure Parsed (α : Type) where
  value : α
  cursor : Cursor
  trace : List Event
  deriving Repr

/-- A rule of the grammar. -/
def Rule (α : Type) : Type := Cursor → Parsed (Except ParseError α)

namespace Rule

/-- The rule that reads nothing. -/
def give {α : Type} (a : α) : Rule α := fun c => ⟨.ok a, c, []⟩

/-- One rule after another; an error of the first is an error of both. -/
def andThen {α β : Type} (r : Rule α) (f : α → Rule β) : Rule β := fun c =>
  match r c with
  | ⟨.error e, d, trace⟩ => ⟨.error e, d, trace⟩
  | ⟨.ok a, d, trace⟩ =>
    let p := f a d
    { p with trace := trace ++ p.trace }

instance : Monad Rule where
  pure := give
  bind := andThen

/-- A reading that cannot fail, as a rule. -/
def always {α : Type} (f : Cursor → Parsed α) : Rule α := fun c =>
  let p := f c
  ⟨.ok p.value, p.cursor, p.trace⟩

/-- The kind of the token at the cursor. -/
def kind : Rule Kind := fun c => ⟨.ok c.peek.kind, c, []⟩

/-- The token at the cursor is of this kind. -/
def nextIs (k : Kind) : Rule Bool := fun c => ⟨.ok (c.check k), c, []⟩

/-- The token at the cursor, passed. -/
def take : Rule Token := fun c => ⟨.ok c.peek, c.next, []⟩

/-- The token at the cursor, passed if it is of one of these kinds. -/
def takeIf? (accepts : Kind → Bool) : Rule (Option Token) := fun c =>
  match c.eatIf? accepts with
  | some (t, d) => ⟨.ok (some t), d, []⟩
  | none => ⟨.ok none, c, []⟩

/-- An event. -/
def note (e : Event) : Rule Unit := fun c => ⟨.ok (), c, [e]⟩

/-- A complaint about the token at the cursor. -/
def complain (complaint : Complaint) : Rule ParseError := fun c =>
  ⟨.ok (complaint.about c.peek), c, [.failed c.position complaint c.peek]⟩

/-- An error that was noted before. -/
def raise {α : Type} (e : ParseError) : Rule α := fun c => ⟨.error e, c, []⟩

/-- The error of a complaint about the token at the cursor. -/
def fail {α : Type} (complaint : Complaint) : Rule α := do
  let e ← complain complaint
  raise e

/-- The token at the cursor, which has to be of this kind. -/
def expect (k : Kind) (complaint : Complaint) : Rule Token := do
  if ← nextIs k then take else fail complaint

/-- A rule in a region of its own, unless too many are open. -/
def nested {α : Type} (r : Rule α) : Rule α := fun c =>
  match c.descend? with
  | none => fail .tooDeep c
  | some inner =>
    let p := r inner
    { p with cursor := p.cursor.ascend }

end Rule
end LoxFront
