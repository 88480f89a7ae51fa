/-
# Syntax trees

`Expr`, `Stmt` and `SyntaxTree` of section 3 of SPEC_FULL.md with their functions:
`is_error`, `into_result`, `as_identifier`, `has_errors`, `collect_errors`, `errors`,
`is_well_formed`, and the equality that is derived for them.

Expressions and statements of a program, with a node for a place where no rule fits.  There
is no loop but `while`.  The errors of a tree are collected in the order of the source
(`Stmt.collectErrors`), and two trees are the same if they have the same nodes with the same
tokens (`Program.same`).
-/

import LoxFront.ParseError

namespace LoxFront

/-- An expression. -/
inductive Expr where
  /-- A constant, a name or `return`. -/
  | literal (token : Token)
  | grouping (inner : Expr)
  | unary (op : Token) (operand : Expr)
  | binary (left : Expr) (op : Token) (right : Expr)
  | assign (name : Token) (value : Expr)
  /-- A value that is left out. -/
  | empty
  | error (e : ParseError)
  deriving DecidableEq, Repr

namespace Expr

/-- The node of an error. -/
def isError : Expr → Bool
  | error _ => true
  | _ => false

/-- An expression, or the error it is the node of. -/
def result : Expr → Except ParseError Expr
  | error e => .error e
  | e => .ok e

/-- The token of a bare variable. -/
def identifier? : Expr → Option Token
  | literal t => if t.kind = .identifier then some t else none
  | _ => none

/-- An error stands in the expression. -/
def hasErrors : Expr → Bool
  | error _ => true
  | grouping e | unary _ e | assign _ e => e.hasErrors
  | binary l _ r => l.hasErrors || r.hasErrors
  | literal _ | empty => false

/-- The errors that stand in the expression, behind those found before. -/
def collectErrors (found : List ParseError) : Expr → List ParseError
  | error e => found ++ [e]
  | grouping e | unary _ e | assign _ e => e.collectErrors found
  | binary l _ r => r.collectErrors (l.collectErrors found)
  | literal _ | empty => found

/-- Same nodes with the same tokens. -/
def same : Expr → Expr → Bool
  | literal s, literal t => s.same t
  | grouping d, grouping e => d.same e
  | unary s d, unary t e => s.same t && d.same e
  | binary c s d, binary e t f => c.same e && s.same t && d.same f
  | assign s d, assign t e => s.same t && d.same e
  | empty, empty => true
  | error d, error e => d.same e
  | _, _ => false

end Expr

/-- The two kinds of declaration. -/
inductive Binding where
  | var
  | const
  deriving DecidableEq, Repr

/-- The keyword of a declaration. -/
def Binding.keyword : Binding → String
  | .var => "var"
  | .const => "const"

/-- A statement. -/
inductive Stmt where
  | expression (value : Expr)
  | print (value : Expr)
  /-- A declaration; its value is `Expr.empty` if it has none. -/
  | declare (binding : Binding) (name : Token) (value : Expr)
  | block (body : List Stmt)
  | ifThen (condition : Expr) (yes : Stmt)
  | ifElse (condition : Expr) (yes no : Stmt)
  | whileLoop (condition : Expr) (body : Stmt)
  | error (e : ParseError)
  deriving Repr

namespace Stmt

/-- The node of an error. -/
def isError : Stmt → Bool
  | error _ => true
  | _ => false

/-- A statement, or the error it is the node of. -/
def result : Stmt → Except ParseError Stmt
  | error e => .error e
  | s => .ok s

mutual

/-- An error stands in the statement. -/
def hasErrors : Stmt → Bool
  | error _ => true
  | expression e | print e | declare _ _ e => e.hasErrors
  | block body => anyErrors body
  | ifThen c yes => c.hasErrors || yes.hasErrors
  | ifElse c yes no => c.hasErrors || yes.hasErrors || no.hasErrors
  | whileLoop c body => c.hasErrors || body.hasErrors

/-- An error stands in one of the statements. -/
def anyErrors : List Stmt → Bool
  | [] => false
  | s :: rest => s.hasErrors || anyErrors rest

end

mutual

/-- The errors that stand in the statement, behind those found before. -/
def collectErrors (found : List ParseError) : Stmt → List ParseError
  | error e => found ++ [e]
  | expression e | print e | declare _ _ e => e.collectErrors found
  | block body => collectAll found body
  | ifThen c yes => yes.collectErrors (c.collectErrors found)
  | ifElse c yes no => no.collectErrors (yes.collectErrors (c.collectErrors found))
  | whileLoop c body => body.collectErrors (c.collectErrors found)

/-- The errors that stand in the statements, behind those found before. -/
def collectAll (found : List ParseError) : List Stmt → List ParseError
  | [] => found
  | s :: rest => collectAll (s.collectErrors found) rest

end

mutual

/-- Same nodes with the same tokens. -/
def same : Stmt → Stmt → Bool
  | expression d, expression e => d.same e
  | print d, print e => d.same e
  | declare b s d, declare c t e => b == c && s.same t && d.same e
  | block a, block b => allSame a b
  | ifThen c a, ifThen d b => c.same d && a.same b
  | ifElse c a a', ifElse d b b' => c.same d && a.same b && a'.same b'
  | whileLoop c a, whileLoop d b => c.same d && a.same b
  | error d, error e => d.same e
  | _, _ => false

/-- The same statements, one for one. -/
def allSame : List Stmt → List Stmt → Bool
  | [], [] => true
  | a :: as, b :: bs => a.same b && allSame as bs
  | _, _ => false

end

end Stmt

/-- A program: its statements in order. -/
structure Program where
  statements : List Stmt
  deriving Repr

namespace Program

/-- Every error that stands in the program. -/
def errors (p : Program) : List ParseError := Stmt.collectAll [] p.statements

/-- No error stands in the program. -/
def isWellFormed (p : Program) : Bool := !p.statements.any Stmt.hasErrors

/-- The same statements, one for one. -/
def same (p q : Program) : Bool := Stmt.allSame p.statements q.statements

end Program
end LoxFront
