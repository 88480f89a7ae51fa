/-
# Tokens, trees and reports as JSON

The form in which tokens, errors, reports and nodes are written by what is derived for them
(section 10 of SPEC_FULL.md: all nodes derive `Serialize`).

A node is an object whose one field is named for the node and holds its parts; nodes without
parts are the name alone.
-/

import LoxFront.Json.Basic
import LoxFront.Tree.Basic

namespace LoxFront

/-- The kind of a token, with its value if it is a number or a string. -/
def Token.kindJson (t : Token) : Json :=
  match t.kind with
  | .number => .object [("NUMBER", .ofBinary64 t.heldNumber)]
  | .string => .object [("STRING", .string t.heldText)]
  | k => .string k.name

/-- A token as JSON. -/
def Token.json (t : Token) : Json :=
  .object [("token_type", t.kindJson), ("lexeme", .string t.lexeme), ("line", .natural t.line)]

/-- A syntax error as JSON. -/
def ParseError.json (e : ParseError) : Json :=
  .object [("message", .string e.message), ("token", e.token.json)]

/-- A report as JSON. -/
def Report.json (r : Report) : Json :=
  .object [("errors", .array (r.errors.map ParseError.json))]

/-- A node with one part. -/
def Json.node (name : String) (part : Json) : Json := .object [(name, part)]

/-- An expression as JSON. -/
def Expr.json : Expr → Json
  | .literal t => .node "Literal" t.json
  | .grouping e => .node "Grouping" e.json
  | .unary op e => .node "Unary" (.array [op.json, e.json])
  | .binary l op r => .node "Binary" (.array [l.json, op.json, r.json])
  | .assign name e => .node "Assign" (.array [name.json, e.json])
  | .empty => .string "Empty"
  | .error e => .node "Error" e.json

/-- The kind of a declaration as JSON. -/
def Binding.json : Binding → Json
  | .var => .string "Var"
  | .const => .string "Const"

namespace Stmt

mutual

/-- A statement as JSON. -/
def json : Stmt → Json
  | expression e => .node "Expression" e.json
  | print e => .node "Print" e.json
  | declare b name e => .node "VarDecl" (.array [b.json, name.json, e.json])
  | block body => .node "Block" (.array (jsons body))
  | ifThen c yes => .node "If" (.array [c.json, yes.json, .null])
  | ifElse c yes no => .node "If" (.array [c.json, yes.json, no.json])
  | whileLoop c body => .node "While" (.array [c.json, body.json])
  | error e => .node "Error" e.json

/-- Statements as JSON. -/
def jsons : List Stmt → List Json
  | [] => []
  | s :: rest => s.json :: jsons rest

end

end Stmt

/-- A program as JSON. -/
def Program.json (p : Program) : Json := .array (p.statements.map Stmt.json)

end LoxFront
