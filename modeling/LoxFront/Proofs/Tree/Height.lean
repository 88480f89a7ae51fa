/-
# The height of a tree

A walk over a tree that calls itself for each node goes as deep as the tree is high
(`Stmt.height`).  A row of operators that group to the left is as high as it is long,
so no tree is lower than the longest row of operators in it
(`Stmt.longestSpine_lt_height`).
-/

import LoxFront.Rule.Stmt

namespace LoxFront

namespace Expr

/-- How many nodes stand in one another, on the longest way down. -/
def height : Expr → Nat
  | literal _ | empty | error _ => 1
  | grouping e | unary _ e | assign _ e => e.height + 1
  | binary l _ r => max l.height r.height + 1

/-- How many operators stand in a row down the left side. -/
def spine : Expr → Nat
  | binary l _ _ => l.spine + 1
  | _ => 0

/-- The longest row of operators down the left side of an expression in this one. -/
def longestSpine : Expr → Nat
  | literal _ | empty | error _ => 0
  | grouping e | unary _ e | assign _ e => e.longestSpine
  | binary l _ r => max (l.spine + 1) (max l.longestSpine r.longestSpine)

/-- The spine at the root is one of the spines. -/
theorem spine_le_longestSpine (e : Expr) : e.spine ≤ e.longestSpine := by
  cases e with
  | binary l op r => exact Nat.le_max_left _ _
  | literal | grouping | unary | assign | empty | error => exact Nat.zero_le _

/-- An expression is higher than its spine at the root. -/
theorem spine_lt_height (e : Expr) : e.spine < e.height := by
  induction e with
  | literal | grouping | unary | assign | empty | error => exact Nat.succ_pos _
  | binary l op r ihl =>
    rw [spine, height]
    omega

/-- An expression is higher than each of its spines. -/
theorem longestSpine_lt_height (e : Expr) : e.longestSpine < e.height := by
  induction e with
  | literal | empty | error => exact Nat.one_pos
  | grouping e ih | unary op e ih | assign name e ih => exact Nat.lt_succ_of_lt ih
  | binary l op r ihl ihr =>
    have := l.spine_lt_height
    rw [longestSpine, height]
    omega

end Expr

namespace Stmt

mutual

/-- How many nodes stand in one another, on the longest way down. -/
def height : Stmt → Nat
  | error _ => 1
  | expression e | print e | declare _ _ e => e.height + 1
  | block body => heightOf body + 1
  | ifThen c yes => max c.height yes.height + 1
  | ifElse c yes no => max c.height (max yes.height no.height) + 1
  | whileLoop c body => max c.height body.height + 1

/-- The height of the highest of the statements. -/
def heightOf : List Stmt → Nat
  | [] => 0
  | s :: rest => max s.height (heightOf rest)

end

mutual

/-- The longest row of operators down the left side of an expression in the statement. -/
def longestSpine : Stmt → Nat
  | error _ => 0
  | expression e | print e | declare _ _ e => e.longestSpine
  | block body => longestSpineOf body
  | ifThen c yes => max c.longestSpine yes.longestSpine
  | ifElse c yes no => max c.longestSpine (max yes.longestSpine no.longestSpine)
  | whileLoop c body => max c.longestSpine body.longestSpine

/-- The longest row of operators in one of the statements. -/
def longestSpineOf : List Stmt → Nat
  | [] => 0
  | s :: rest => max s.longestSpine (longestSpineOf rest)

end

mutual

/-- A tree is higher than each row of operators in it is long. -/
theorem longestSpine_lt_height : ∀ s : Stmt, s.longestSpine < s.height
  | .error _ => by rw [longestSpine, height]; exact Nat.one_pos
  | .expression e | .print e | .declare _ _ e => by
    rw [longestSpine, height]
    exact Nat.lt_succ_of_lt e.longestSpine_lt_height
  | .block body => by
    rw [longestSpine, height]
    exact Nat.lt_succ_of_le (longestSpineOf_le_heightOf body)
  | .ifThen c yes => by
    have hc := c.longestSpine_lt_height
    have hyes := longestSpine_lt_height yes
    rw [longestSpine, height]
    omega
  | .ifElse c yes no => by
    have hc := c.longestSpine_lt_height
    have hyes := longestSpine_lt_height yes
    have hno := longestSpine_lt_height no
    rw [longestSpine, height]
    omega
  | .whileLoop c body => by
    have hc := c.longestSpine_lt_height
    have hbody := longestSpine_lt_height body
    rw [longestSpine, height]
    omega

/-- The same of several statements, or none. -/
theorem longestSpineOf_le_heightOf : ∀ body : List Stmt, longestSpineOf body ≤ heightOf body
  | [] => Nat.le_of_eq (by rw [longestSpineOf, heightOf])
  | s :: rest => by
    have hs := longestSpine_lt_height s
    have hrest := longestSpineOf_le_heightOf rest
    rw [longestSpineOf, heightOf]
    omega

end

/-! ### Loops with `for` -/

section ForLoop

variable (line : Nat) (initial : Option Stmt) (condition step : Option Expr) (body : Stmt)

/-- A `for` loop is written with three more nodes around its parts at most. -/
theorem height_forLoop_le :
    (forLoop line initial condition step body).height ≤
      max (initial.elim 0 height) (max (condition.elim 1 Expr.height)
        (max body.height (step.elim 1 Expr.height + 1))) + 3 := by
  cases initial <;> cases condition <;> cases step <;>
    simp [forLoop, height, heightOf, Expr.height] <;> omega

/-- A loop has no spine of its own: the longest one is in a part of it. -/
theorem longestSpine_forLoop :
    (forLoop line initial condition step body).longestSpine =
      max (initial.elim 0 longestSpine) (max (condition.elim 0 Expr.longestSpine)
        (max body.longestSpine (step.elim 0 Expr.longestSpine))) := by
  cases initial <;> cases condition <;> cases step <;>
    simp [forLoop, longestSpine, longestSpineOf, Expr.longestSpine]

end ForLoop

end Stmt
end LoxFront
