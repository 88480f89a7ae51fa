/-
# Walks over tokens

The operations of a `Cursor` one after another, in any order.

A walk moves one cursor and keeps copies of it to come back to.  A copy keeps its place and
its open regions, whatever the cursor does later.
-/

import LoxFront.Cursor.Basic

namespace LoxFront

/-- One step of a walk. -/
inductive Move where
  | peek
  | advance
  | check (kind : Kind)
  | eat (kinds : List Kind)
  | descend
  | ascend
  | save
  | load (index : Nat)
  deriving DecidableEq, Repr

/-- What a step answers. -/
inductive Reply where
  | token (t : Token)
  | truth (b : Bool)
  | refused (f : Fault)
  | index (n : Nat)
  | nothing
  deriving DecidableEq, Repr

/-- The cursor of a walk and its copies. -/
structure Walk where
  cursor : Cursor
  saved : List Cursor
  deriving DecidableEq, Repr

namespace Walk

/-- The beginning of a walk. -/
def start (c : Cursor) : Walk := ⟨c, []⟩

/-- A step and its answer. -/
def step (w : Walk) : Move → Reply × Walk
  | .peek => (.token w.cursor.peek, w)
  | .advance =>
    match w.cursor.advance with
    | .ok (t, c) => (.token t, { w with cursor := c })
    | .error f => (.refused f, w)
  | .check kind => (.truth (w.cursor.check kind), w)
  | .eat kinds =>
    match w.cursor.eatIf? kinds.contains with
    | some (t, c) => (.token t, { w with cursor := c })
    | none => (.nothing, w)
  | .descend =>
    match w.cursor.descend? with
    | some c => (.truth true, { w with cursor := c })
    | none => (.truth false, w)
  | .ascend => (.nothing, { w with cursor := w.cursor.ascend })
  | .save => (.index w.saved.length, { w with saved := w.saved ++ [w.cursor] })
  | .load index => (.nothing, { w with cursor := w.saved[index]?.getD w.cursor })

/-- The answers of a walk, each with the cursor after the step. -/
def run (w : Walk) : List Move → List (Reply × Cursor)
  | [] => []
  | m :: rest =>
    let (reply, after) := w.step m
    (reply, after.cursor) :: after.run rest

end Walk
end LoxFront
