/-
# How large the trees of written text are

Every node of a tree has a token of its own in the text, but for those that a `for` loop
adds when it is written with `while` (`Source.Stmt.added`); and every token has a node,
but for the marks (`Source.Stmt.marks`).  So nodes and marks are as many as tokens and
added nodes (`Source.Stmt.size_tree_add_marks`).  A loop has marks for all that it adds
unless it begins with an expression, has no condition and has a step; then one is missing
(`Source.Stmt.added_le`).
-/

import LoxFront.Proofs.Source.Stmt

namespace LoxFront

/-! ### Nodes of a tree -/

/-- How many nodes an expression has.  A value that is left out is none. -/
def Expr.size : Expr → Nat
  | literal _ | error _ => 1
  | grouping e | unary _ e | assign _ e => e.size + 1
  | binary l _ r => l.size + r.size + 1
  | empty => 0

mutual

/-- How many nodes a statement has. -/
def Stmt.size : Stmt → Nat
  | error _ => 1
  | expression e | print e | declare _ _ e => e.size + 1
  | block body => sizeAll body + 1
  | ifThen c yes => c.size + yes.size + 1
  | ifElse c yes no => c.size + yes.size + no.size + 1
  | whileLoop c body => c.size + body.size + 1

/-- How many nodes statements have. -/
def Stmt.sizeAll : List Stmt → Nat
  | [] => 0
  | s :: rest => s.size + sizeAll rest

end

/-- How many nodes a program has. -/
def Program.size (p : Program) : Nat := Stmt.sizeAll p.statements

/-- How many nodes a `for` loop adds: one around its first clause, a condition if it has none,
and two for its step. -/
def Stmt.addedBy (initial : Option Stmt) (condition step : Option Expr) : Nat :=
  initial.elim 0 (fun _ => 1) + condition.elim 1 (fun _ => 0) + step.elim 0 (fun _ => 2)

/-- A loop adds four nodes at most to those of its parts and its own. -/
theorem Stmt.addedBy_le_four (initial : Option Stmt) (condition step : Option Expr) :
    addedBy initial condition step ≤ 4 := by
  cases initial <;> cases condition <;> cases step <;> simp [addedBy]

/-- The nodes of a loop are those of its parts, one for itself and those that it adds. -/
theorem Stmt.size_forLoop (line : Nat) (initial : Option Stmt) (condition step : Option Expr)
    (body : Stmt) :
    (forLoop line initial condition step body).size =
      initial.elim 0 size + condition.elim 0 Expr.size + step.elim 0 Expr.size + body.size + 1 +
        addedBy initial condition step := by
  cases initial <;> cases condition <;> cases step <;>
    simp [forLoop, size, sizeAll, Expr.size, addedBy] <;> omega

namespace Source

/-! ### Expressions -/

/-- How many tokens have no node: a closing parenthesis and an equals sign. -/
def Expr.marks : Expr → Nat
  | atom _ => 0
  | unary _ e => e.marks
  | grouping _ e _ | assign _ _ e => e.marks + 1
  | binary l _ r => l.marks + r.marks

/-- In an expression the nodes and the tokens without one are as many as the tokens. -/
theorem Expr.size_tree_add_marks (e : Expr) : e.tree.size + e.marks = e.tokens.length := by
  induction e with
  | atom => rfl
  | grouping l e r ih =>
    rw [tree, LoxFront.Expr.size, marks, tokens, List.length_cons, List.length_append,
      List.length_singleton]
    omega
  | unary op e ih =>
    rw [tree, LoxFront.Expr.size, marks, tokens, List.length_cons]
    omega
  | binary l op r ihl ihr =>
    rw [tree, LoxFront.Expr.size, marks, tokens, List.length_append, List.length_cons]
    omega
  | assign name equals e ih =>
    rw [tree, LoxFront.Expr.size, marks, tokens, List.length_cons, List.length_cons]
    omega

/-- No expression is without a token. -/
theorem Expr.tokens_length_pos (e : Expr) : 0 < e.tokens.length := by
  obtain ⟨t, ts, ht, -⟩ := e.exists_tokens_eq_cons
  rw [ht]
  exact Nat.succ_pos _

/-! ### Parts of statements -/

/-- How many tokens of an expression that may be left out have no node. -/
def clauseMarks (e : Option Expr) : Nat := e.elim 0 Expr.marks

/-- The same of a clause, where a missing one has neither nodes nor tokens. -/
theorem clause_size_add_marks (e : Option Expr) :
    (e.map Expr.tree).elim 0 LoxFront.Expr.size + clauseMarks e = (clauseTokens e).length := by
  cases e with
  | none => rfl
  | some e => exact e.size_tree_add_marks

/-- How many tokens of a declaration have no node: the keyword has the one of the
declaration. -/
def Declaration.marks (d : Declaration) : Nat := d.initial.elim 2 fun i => clauseMarks i.2 + 3

/-- The same of a declaration. -/
theorem Declaration.size_tree_add_marks (d : Declaration) :
    d.tree.size + d.marks = d.tokens.length := by
  have hvalue : ((d.value?.map Expr.tree).getD .empty).size + d.marks =
      (d.initial.elim [] fun i => i.1.1 :: clauseTokens i.2).length + 2 := by
    rw [value?, marks]
    rcases d.initial with _ | ⟨equals, _ | e⟩
    · rfl
    · rfl
    · exact congrArg (· + 3) e.size_tree_add_marks
  rw [tree, LoxFront.Stmt.size, tokens, List.length_cons, List.length_cons, List.length_append,
    List.length_singleton]
  omega

/-- How many tokens of a first clause have no node. -/
def Initial.marks : Initial → Nat
  | omitted _ => 1
  | declaration d => d.marks
  | expression e _ => e.marks

/-- The same of an initial clause. -/
theorem Initial.size_tree_add_marks (i : Initial) :
    i.tree?.elim 0 LoxFront.Stmt.size + i.marks = i.tokens.length := by
  cases i with
  | omitted => rfl
  | declaration d => exact d.size_tree_add_marks
  | expression e semicolon =>
    have he := e.size_tree_add_marks
    rw [tree?, Option.elim_some, LoxFront.Stmt.size, marks, tokens, List.length_append,
      List.length_singleton]
    omega

/-- A loop that begins with an expression, has no condition and has a step adds a node more
than it has marks. -/
def surplus : Initial → Option Expr → Option Expr → Nat
  | .expression _ _, none, some _ => 1
  | _, _, _ => 0

namespace Stmt

mutual

/-- How many tokens of a statement have no node. -/
def marks : Stmt → Nat
  | declaration d => d.marks
  | expression e _ => e.marks
  | print _ e _ => e.marks + 1
  | block _ body _ => marksOf body + 1
  | ifThen _ _ e _ yes => e.marks + yes.marks + 2
  | ifElse _ _ e _ yes _ no => e.marks + yes.marks + no.marks + 3
  | whileLoop _ _ e _ body => e.marks + body.marks + 2
  | forLoop _ _ i e _ step _ body =>
    i.marks + clauseMarks e + clauseMarks step + body.marks + 3

/-- How many tokens of statements have no node. -/
def marksOf : List Stmt → Nat
  | [] => 0
  | s :: rest => s.marks + marksOf rest

end

mutual

/-- How many nodes of the tree of a statement have no token: those that a `for` loop adds for
a first clause, a condition that is left out and a step. -/
def added : Stmt → Nat
  | declaration _ | expression _ _ | print _ _ _ => 0
  | block _ body _ => addedOf body
  | ifThen _ _ _ _ yes => yes.added
  | ifElse _ _ _ _ yes _ no => yes.added + no.added
  | whileLoop _ _ _ _ body => body.added
  | forLoop _ _ i e _ step _ body =>
    LoxFront.Stmt.addedBy i.tree? (e.map Expr.tree) (step.map Expr.tree) + body.added

/-- How many nodes of the trees of statements have no token. -/
def addedOf : List Stmt → Nat
  | [] => 0
  | s :: rest => s.added + addedOf rest

end

mutual

/-- How many loops in a statement add more nodes than they have marks. -/
def surpluses : Stmt → Nat
  | declaration _ | expression _ _ | print _ _ _ => 0
  | block _ body _ => surplusesOf body
  | ifThen _ _ _ _ yes => yes.surpluses
  | ifElse _ _ _ _ yes _ no => yes.surpluses + no.surpluses
  | whileLoop _ _ _ _ body => body.surpluses
  | forLoop _ _ i e _ step _ body => surplus i e step + body.surpluses

/-- How many loops in statements add more nodes than they have marks. -/
def surplusesOf : List Stmt → Nat
  | [] => 0
  | s :: rest => s.surpluses + surplusesOf rest

end

mutual

/-- **Nodes and marks are as many as tokens and added nodes.** -/
theorem size_tree_add_marks : ∀ s : Stmt, s.tree.size + s.marks = s.tokens.length + s.added
  | declaration d => by
    rw [tree, marks, tokens, added]
    exact d.size_tree_add_marks
  | expression e _ => by
    have he := e.size_tree_add_marks
    rw [tree, LoxFront.Stmt.size, marks, tokens, added]
    rw [List.length_append, List.length_singleton]
    omega
  | print _ e _ => by
    have he := e.size_tree_add_marks
    rw [tree, LoxFront.Stmt.size, marks, tokens, added]
    rw [List.length_cons, List.length_append, List.length_singleton]
    omega
  | block _ body _ => by
    have hbody := sizeAll_trees_add_marks body
    rw [tree, LoxFront.Stmt.size, marks, tokens, added]
    rw [List.length_cons, List.length_append, List.length_singleton]
    omega
  | ifThen _ _ e _ yes => by
    have he := e.size_tree_add_marks
    have hyes := size_tree_add_marks yes
    rw [tree, LoxFront.Stmt.size, marks, tokens, added]
    simp only [List.length_cons, List.length_append]
    omega
  | ifElse _ _ e _ yes _ no => by
    have he := e.size_tree_add_marks
    have hyes := size_tree_add_marks yes
    have hno := size_tree_add_marks no
    rw [tree, LoxFront.Stmt.size, marks, tokens, added]
    simp only [List.length_cons, List.length_append]
    omega
  | whileLoop _ _ e _ body => by
    have he := e.size_tree_add_marks
    have hbody := size_tree_add_marks body
    rw [tree, LoxFront.Stmt.size, marks, tokens, added]
    simp only [List.length_cons, List.length_append]
    omega
  | forLoop _ _ i e _ step _ body => by
    have hi := i.size_tree_add_marks
    have he := clause_size_add_marks e
    have hstep := clause_size_add_marks step
    have hbody := size_tree_add_marks body
    rw [tree, LoxFront.Stmt.size_forLoop, marks, tokens, added]
    simp only [List.length_cons, List.length_append]
    omega

/-- In several statements the nodes and the tokens without one are as many as the tokens and
the nodes that loops add. -/
theorem sizeAll_trees_add_marks : ∀ body : List Stmt,
    LoxFront.Stmt.sizeAll (trees body) + marksOf body = (tokensOf body).length + addedOf body
  | [] => by rw [trees, LoxFront.Stmt.sizeAll, marksOf, tokensOf, addedOf]; rfl
  | s :: rest => by
    have hs := size_tree_add_marks s
    have hrest := sizeAll_trees_add_marks rest
    rw [trees, LoxFront.Stmt.sizeAll, marksOf, tokensOf, addedOf, List.length_append]
    omega

end

/-- The marks of a `for` loop make up for what it adds, but for one node at most. -/
theorem addedBy_le (i : Initial) (e step : Option Expr) :
    LoxFront.Stmt.addedBy i.tree? (e.map Expr.tree) (step.map Expr.tree) ≤
      i.marks + 3 + surplus i e step := by
  cases i with
  | declaration d =>
    have hmarks : 2 ≤ d.marks := by
      rw [Declaration.marks]
      rcases d.initial with _ | ⟨equals, e⟩
      · exact Nat.le_refl 2
      · exact Nat.le_add_left 2 (clauseMarks e + 1)
    refine Nat.le_trans (LoxFront.Stmt.addedBy_le_four _ _ _) ?_
    rw [Initial.marks]
    omega
  | omitted | expression =>
    cases e <;> cases step <;> simp [LoxFront.Stmt.addedBy, Initial.tree?, Initial.marks, surplus]

/-- A loop that adds more than it has marks has seven tokens besides those of its body. -/
theorem seven_mul_surplus_le (i : Initial) (e step : Option Expr) :
    7 * surplus i e step ≤
      i.tokens.length + (clauseTokens e).length + (clauseTokens step).length + 4 := by
  cases i with
  | omitted | declaration => exact Nat.zero_le _
  | expression v semicolon =>
    cases e with
    | some e => exact Nat.zero_le _
    | none =>
      cases step with
      | none => exact Nat.zero_le _
      | some step =>
        have hv := v.tokens_length_pos
        have hstep := step.tokens_length_pos
        simp only [surplus, Initial.tokens, clauseTokens, Option.elim_none, Option.elim_some,
          List.length_append, List.length_singleton, List.length_nil]
        omega

mutual

/-- A statement has marks for all nodes that it adds but one for each such loop. -/
theorem added_le : ∀ s : Stmt, s.added ≤ s.marks + s.surpluses
  | declaration _ | expression _ _ | print _ _ _ => by rw [added]; exact Nat.zero_le _
  | block _ body _ => by
    have hbody := addedOf_le body
    rw [added, marks, surpluses]
    omega
  | ifThen _ _ _ _ yes => by
    have hyes := added_le yes
    rw [added, marks, surpluses]
    omega
  | ifElse _ _ _ _ yes _ no => by
    have hyes := added_le yes
    have hno := added_le no
    rw [added, marks, surpluses]
    omega
  | whileLoop _ _ _ _ body => by
    have hbody := added_le body
    rw [added, marks, surpluses]
    omega
  | forLoop _ _ i e _ step _ body => by
    have hhead := addedBy_le i e step
    have hbody := added_le body
    rw [added, marks, surpluses]
    omega

/-- Loops add no more nodes than they have tokens without one, but for one in each loop of the
surplus. -/
theorem addedOf_le : ∀ body : List Stmt, addedOf body ≤ marksOf body + surplusesOf body
  | [] => by rw [addedOf]; exact Nat.zero_le _
  | s :: rest => by
    have hs := added_le s
    have hrest := addedOf_le rest
    rw [addedOf, marksOf, surplusesOf]
    omega

end

mutual

/-- Such a loop takes seven tokens. -/
theorem seven_mul_surpluses_le : ∀ s : Stmt, 7 * s.surpluses ≤ s.tokens.length
  | declaration _ | expression _ _ | print _ _ _ => by rw [surpluses]; exact Nat.zero_le _
  | block _ body _ => by
    have hbody := seven_mul_surplusesOf_le body
    rw [surpluses, tokens]
    simp only [List.length_cons, List.length_append]
    omega
  | ifThen _ _ _ _ yes => by
    have hyes := seven_mul_surpluses_le yes
    rw [surpluses, tokens]
    simp only [List.length_cons, List.length_append]
    omega
  | ifElse _ _ _ _ yes _ no => by
    have hyes := seven_mul_surpluses_le yes
    have hno := seven_mul_surpluses_le no
    rw [surpluses, tokens]
    simp only [List.length_cons, List.length_append]
    omega
  | whileLoop _ _ _ _ body => by
    have hbody := seven_mul_surpluses_le body
    rw [surpluses, tokens]
    simp only [List.length_cons, List.length_append]
    omega
  | forLoop _ _ i e _ step _ body => by
    have hhead := seven_mul_surplus_le i e step
    have hbody := seven_mul_surpluses_le body
    rw [surpluses, tokens]
    simp only [List.length_cons, List.length_append]
    omega

/-- Each such loop takes seven tokens. -/
theorem seven_mul_surplusesOf_le : ∀ body : List Stmt,
    7 * surplusesOf body ≤ (tokensOf body).length
  | [] => by rw [surplusesOf]; exact Nat.zero_le _
  | s :: rest => by
    have hs := seven_mul_surpluses_le s
    have hrest := seven_mul_surplusesOf_le rest
    rw [surplusesOf, tokensOf, List.length_append]
    omega

end

end Stmt
end Source
end LoxFront
