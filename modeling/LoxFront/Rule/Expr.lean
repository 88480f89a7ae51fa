/-
# Rules for expressions

The ladder of section 4.2 of SPEC_FULL.md, from the loosest binding to the tightest, with
the functions `expression`, `assignment`, `logical_or`, `logical_and`, `equality`,
`comparison`, `term`, `factor`, `unary` and `primary`; the six levels between `assignment`
and `unary` are one function, `left_fold`, with the operators of the level:

    expression   = assignment
    assignment   = name "=" assignment | disjunction
    disjunction  = conjunction ("or" conjunction)*
    conjunction  = equality ("and" equality)*
    equality     = comparison (("!=" | "==") comparison)*
    comparison   = sum ((">" | ">=" | "<" | "<=") sum)*
    sum          = product (("-" | "+") product)*
    product      = unary (("/" | "*") unary)*
    unary        = ("!" | "-") unary | primary
    primary      = constant | name | "return" | "(" expression ")"

A rule that stands in a region of its own comes from `Region`, where the rules with one
region less to open are kept.
-/

import LoxFront.Rule.Basic
import LoxFront.Tree.Basic

namespace LoxFront

/-- The rules that can stand in a region. -/
structure Region where
  expression : Rule Expr
  unary : Rule Expr
  block : Rule Stmt
  statement : Rule Stmt

namespace Rule

/-- A token that is an expression by itself. -/
def isConstant : Kind → Bool
  | .number | .string | .trueWord | .falseWord | .nilWord | .identifier => true
  | _ => false

/-- A constant, a name, `return` or a grouping. -/
def primary (inner : Region) : Rule Expr := do
  match ← kind with
  | .leftParen =>
    let _ ← take
    let e ← nested inner.expression
    let _ ← expect .rightParen .openGrouping
    return .grouping e
  | .returnWord =>
    let t ← take
    note (.returned t.line)
    return .literal t
  | k => if isConstant k then return .literal (← take) else fail .noExpression

/-- Prefix operators. -/
def isPrefixOp : Kind → Bool
  | .bang | .minus => true
  | _ => false

/-- A primary expression behind any number of prefix operators. -/
def unary (inner : Region) : Rule Expr := do
  match ← takeIf? isPrefixOp with
  | some op => return .unary op (← nested inner.unary)
  | none => primary inner

/-- Operators, each with its right operand, behind `left`: no more of them than
there are tokens in the list. -/
def links (accepts : Kind → Bool) (operand : Rule Expr) : List Token → Expr → Rule Expr
  | [], left => return left
  | _ :: more, left => do
    match ← takeIf? accepts with
    | some op => links accepts operand more (.binary left op (← operand))
    | none => return left

/-- Operands with operators between them, grouped to the left. -/
def chain (accepts : Kind → Bool) (operand : Rule Expr) : Rule Expr := do
  let left ← operand
  fun c => links accepts operand c.rest left c

/-- Operators of products. -/
def isProductOp : Kind → Bool
  | .slash | .star => true
  | _ => false

/-- Operators of sums. -/
def isSumOp : Kind → Bool
  | .minus | .plus => true
  | _ => false

/-- Operators of comparisons. -/
def isComparisonOp : Kind → Bool
  | .greater | .greaterEqual | .less | .lessEqual => true
  | _ => false

/-- Operators of equalities. -/
def isEqualityOp : Kind → Bool
  | .bangEqual | .equalEqual => true
  | _ => false

/-- A product. -/
def product (inner : Region) : Rule Expr := chain isProductOp (unary inner)

/-- A sum. -/
def sum (inner : Region) : Rule Expr := chain isSumOp (product inner)

/-- A comparison. -/
def comparison (inner : Region) : Rule Expr := chain isComparisonOp (sum inner)

/-- An equality. -/
def equality (inner : Region) : Rule Expr := chain isEqualityOp (comparison inner)

/-- A conjunction. -/
def conjunction (inner : Region) : Rule Expr := chain (· == .andWord) (equality inner)

/-- A disjunction. -/
def disjunction (inner : Region) : Rule Expr := chain (· == .orWord) (conjunction inner)

/-- An assignment, grouped to the right.  What stands before the equals sign is
read as an expression first and has to be a bare variable. -/
def assignment (inner : Region) : Rule Expr := do
  let target ← disjunction inner
  if ← nextIs .equal then
    match target.identifier? with
    | some name =>
      let _ ← take
      return .assign name (← nested inner.expression)
    | none => fail .noTarget
  else return target

/-- An expression. -/
def expression (inner : Region) : Rule Expr := assignment inner

end Rule
end LoxFront
