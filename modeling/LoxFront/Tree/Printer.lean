/-
# Trees as parenthesised text

`print`, `print_stmt` and `print_tree` of the printer of trees (section 10 of SPEC_FULL.md).

Each node is a list in parentheses, its head first: the operator, or a word for the kind of
node.  Constants are written by value and names as they stand.
-/

import LoxFront.Tree.Basic

namespace LoxFront

/-- The items of a list in parentheses. -/
def parenthesised (items : List String) : String := "(" ++ " ".intercalate items ++ ")"

/-- The text of a leaf: a string in quotes as it is, another value as in
listings, and what has no value as it stands in the source. -/
def Token.leaf (t : Token) : String :=
  match t.literal? with
  | some (.text s) => "\"" ++ s ++ "\""
  | some l => l.listing
  | none => t.lexeme

/-- The text of an error node. -/
def ParseError.leaf (e : ParseError) : String := parenthesised ["error", Text.quoted e.message]

/-- The text of an expression. -/
def Expr.text : Expr → String
  | .literal t => t.leaf
  | .grouping e => parenthesised ["group", e.text]
  | .unary op e => parenthesised [op.lexeme, e.text]
  | .binary l op r => parenthesised [op.lexeme, l.text, r.text]
  | .assign name e => parenthesised ["=", name.lexeme, e.text]
  | .empty => "<empty>"
  | .error e => e.leaf

namespace Stmt

mutual

/-- The text of a statement. -/
def text : Stmt → String
  | expression e => parenthesised ["expr", e.text]
  | print e => parenthesised ["print", e.text]
  | declare b name .empty => parenthesised [b.keyword, name.lexeme]
  | declare b name e => parenthesised [b.keyword, name.lexeme, e.text]
  | block body => parenthesised ("block" :: texts body)
  | ifThen c yes => parenthesised ["if", c.text, yes.text]
  | ifElse c yes no => parenthesised ["if", c.text, yes.text, no.text]
  | whileLoop c body => parenthesised ["while", c.text, body.text]
  | error e => e.leaf

/-- The texts of statements. -/
def texts : List Stmt → List String
  | [] => []
  | s :: rest => s.text :: texts rest

end

end Stmt

/-- The text of a program, one statement a line. -/
def Program.text (p : Program) : String := "\n".intercalate (p.statements.map Stmt.text)

end LoxFront
