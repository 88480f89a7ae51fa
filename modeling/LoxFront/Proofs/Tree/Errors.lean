/-
# The errors of a tree

Collecting errors puts those of a tree behind those found before
(`Stmt.collectErrors_eq`), and a tree has errors if and only if some are
collected (`Stmt.hasErrors_eq_false_iff`).  A tree is whole (`Stmt.Whole`) if no
error stands in it and no value is left out but the one of a declaration; a whole
tree has no errors.  The errors of a tree are confined (`Stmt.Confined`) if they stand in
the place of statements of blocks and nowhere else.
-/

import LoxFront.Rule.Stmt

namespace LoxFront

/-- The errors that stand in an expression, in the order of the source. -/
def Expr.errors (e : Expr) : List ParseError := e.collectErrors []

/-- The errors that stand in a statement, in the order of the source. -/
def Stmt.errors (s : Stmt) : List ParseError := s.collectErrors []

/-- The errors that stand in statements, in the order of the source. -/
def Stmt.errorsOf (body : List Stmt) : List ParseError := collectAll [] body

/-- The errors of a program are those of its statements. -/
theorem Program.errors_eq (p : Program) : p.errors = Stmt.errorsOf p.statements := rfl

/-- Collecting puts the errors of an expression behind those that were found before. -/
theorem Expr.collectErrors_eq (found : List ParseError) (e : Expr) :
    e.collectErrors found = found ++ e.errors := by
  induction e generalizing found with
  | literal | empty => exact (List.append_nil found).symm
  | error e => rfl
  | grouping e ih | unary op e ih | assign name e ih => exact ih found
  | binary l op r ihl ihr =>
    show r.collectErrors (l.collectErrors found) = found ++ r.collectErrors (l.collectErrors [])
    rw [ihr, ihr, ihl, ihl [], List.nil_append, List.append_assoc]

/-- The errors of an operation are those of its left operand and then of its right one. -/
theorem Expr.errors_binary (l : Expr) (op : Token) (r : Expr) :
    (binary l op r).errors = l.errors ++ r.errors := collectErrors_eq _ r

mutual

/-- Collecting puts the errors of a statement behind those that were found before. -/
theorem Stmt.collectErrors_eq (found : List ParseError) :
    ∀ s : Stmt, s.collectErrors found = found ++ s.errors
  | .error e => by simp [errors, collectErrors]
  | .expression e | .print e | .declare _ _ e => by
    simp only [errors, collectErrors]
    exact e.collectErrors_eq found
  | .block body => by
    simp only [errors, collectErrors]
    exact collectAll_eq found body
  | .ifThen c yes => by
    simp only [errors, collectErrors]
    rw [collectErrors_eq _ yes, collectErrors_eq (c.collectErrors []) yes, c.collectErrors_eq found,
      List.append_assoc]
    rfl
  | .ifElse c yes no => by
    simp only [errors, collectErrors]
    rw [collectErrors_eq _ no, collectErrors_eq (yes.collectErrors (c.collectErrors [])) no,
      collectErrors_eq _ yes, collectErrors_eq (c.collectErrors []) yes, c.collectErrors_eq found]
    simp only [List.append_assoc]
    rfl
  | .whileLoop c body => by
    simp only [errors, collectErrors]
    rw [collectErrors_eq _ body, collectErrors_eq (c.collectErrors []) body,
      c.collectErrors_eq found, List.append_assoc]
    rfl

/-- The same of several statements. -/
theorem Stmt.collectAll_eq (found : List ParseError) :
    ∀ body : List Stmt, collectAll found body = found ++ errorsOf body
  | [] => by simp [errorsOf, collectAll]
  | s :: rest => by
    simp only [errorsOf, collectAll]
    rw [collectAll_eq _ rest, collectAll_eq (s.collectErrors []) rest, collectErrors_eq found s,
      List.append_assoc]
    rfl

end

namespace Stmt

/-- A statement in place of an error has just that error. -/
@[simp] theorem errors_error (e : ParseError) : (error e).errors = [e] := by
  simp [errors, collectErrors]

/-- An expression statement has the errors of its expression. -/
@[simp] theorem errors_expression (e : Expr) : (expression e).errors = e.errors := by
  simp [errors, collectErrors, Expr.errors]

/-- A print statement has the errors of its expression. -/
@[simp] theorem errors_print (e : Expr) : (print e).errors = e.errors := by
  simp [errors, collectErrors, Expr.errors]

/-- A declaration has the errors of its value. -/
@[simp] theorem errors_declare (b : Binding) (t : Token) (e : Expr) :
    (declare b t e).errors = e.errors := by
  simp [errors, collectErrors, Expr.errors]

/-- A block has the errors of its statements. -/
@[simp] theorem errors_block (body : List Stmt) : (block body).errors = errorsOf body := by
  simp [errors, collectErrors, errorsOf]

/-- A conditional has the errors of its condition and then of its branch. -/
@[simp] theorem errors_ifThen (c : Expr) (yes : Stmt) :
    (ifThen c yes).errors = c.errors ++ yes.errors := by
  rw [errors, collectErrors, collectErrors_eq]
  rfl

/-- With `else` it has those of the condition and of both branches, in this order. -/
@[simp] theorem errors_ifElse (c : Expr) (yes no : Stmt) :
    (ifElse c yes no).errors = c.errors ++ (yes.errors ++ no.errors) := by
  rw [errors, collectErrors, collectErrors_eq, collectErrors_eq, List.append_assoc]
  rfl

/-- A loop has the errors of its condition and then of its body. -/
@[simp] theorem errors_whileLoop (c : Expr) (body : Stmt) :
    (whileLoop c body).errors = c.errors ++ body.errors := by
  rw [errors, collectErrors, collectErrors_eq]
  rfl

/-- No statements have no errors. -/
@[simp] theorem errorsOf_nil : errorsOf [] = [] := by simp [errorsOf, collectAll]

/-- Statements have the errors of the first and then of the others. -/
@[simp] theorem errorsOf_cons (s : Stmt) (rest : List Stmt) :
    errorsOf (s :: rest) = s.errors ++ errorsOf rest := by
  rw [errorsOf, collectAll, collectAll_eq]
  rfl

/-- Errors of statements in two rows come row by row. -/
@[simp] theorem errorsOf_append (a b : List Stmt) :
    errorsOf (a ++ b) = errorsOf a ++ errorsOf b := by
  induction a with
  | nil => simp
  | cons s a ih => simp [ih]

end Stmt

/-- The errors of a `for` loop: those of its step come behind those of its body. -/
theorem Stmt.errors_forLoop (line : Nat) (initial : Option Stmt) (condition step : Option Expr)
    (body : Stmt) :
    (Stmt.forLoop line initial condition step body).errors =
      initial.elim [] errors ++ (condition.elim [] Expr.errors ++
        (body.errors ++ step.elim [] Expr.errors)) := by
  cases initial <;> cases condition <;> cases step <;>
    simp [forLoop, Expr.errors, Expr.collectErrors]

/-! ### Having errors -/

/-- The quick test for errors in an expression agrees with collecting them. -/
theorem Expr.hasErrors_eq_false_iff (e : Expr) : e.hasErrors = false ↔ e.errors = [] := by
  induction e with
  | literal | empty => simp [hasErrors, errors, collectErrors]
  | error e => simp [hasErrors, errors, collectErrors]
  | grouping e ih | unary op e ih | assign name e ih => exact ih
  | binary l op r ihl ihr =>
    rw [hasErrors, Bool.or_eq_false_iff, ihl, ihr, errors_binary, List.append_eq_nil_iff]

mutual

/-- The quick test for errors in a statement agrees with collecting them. -/
theorem Stmt.hasErrors_eq_false_iff : ∀ s : Stmt, s.hasErrors = false ↔ s.errors = []
  | .error e => by simp [hasErrors]
  | .expression e | .print e | .declare _ _ e => by
    simp [hasErrors, e.hasErrors_eq_false_iff]
  | .block body => by
    simp [hasErrors, anyErrors_eq_false_iff body]
  | .ifThen c yes => by
    simp [hasErrors, c.hasErrors_eq_false_iff, hasErrors_eq_false_iff yes]
  | .ifElse c yes no => by
    simp [hasErrors, c.hasErrors_eq_false_iff, hasErrors_eq_false_iff yes,
      hasErrors_eq_false_iff no, and_assoc]
  | .whileLoop c body => by
    simp [hasErrors, c.hasErrors_eq_false_iff, hasErrors_eq_false_iff body]

/-- The same of several statements. -/
theorem Stmt.anyErrors_eq_false_iff :
    ∀ body : List Stmt, anyErrors body = false ↔ errorsOf body = []
  | [] => by simp [anyErrors]
  | s :: rest => by
    simp [anyErrors, hasErrors_eq_false_iff s, anyErrors_eq_false_iff rest]

end

/-- The same, with the test made on each of them. -/
theorem Stmt.any_hasErrors_eq_false_iff (body : List Stmt) :
    body.any hasErrors = false ↔ errorsOf body = [] := by
  induction body with
  | nil => simp
  | cons s rest ih => simp [hasErrors_eq_false_iff, ih]

/-! ### Whole trees -/

/-- No error and no left-out value stands in the expression. -/
def Expr.Whole : Expr → Prop
  | literal _ => True
  | grouping e | unary _ e | assign _ e => e.Whole
  | binary l _ r => l.Whole ∧ r.Whole
  | empty | error _ => False

mutual

/-- No error stands in the statement, and no value is left out in it but that of
a declaration. -/
def Stmt.Whole : Stmt → Prop
  | expression e | print e => e.Whole
  | declare _ _ e => e = .empty ∨ e.Whole
  | block body => AllWhole body
  | ifThen c yes => c.Whole ∧ yes.Whole
  | ifElse c yes no => c.Whole ∧ yes.Whole ∧ no.Whole
  | whileLoop c body => c.Whole ∧ body.Whole
  | error _ => False

/-- All the statements are whole. -/
def Stmt.AllWhole : List Stmt → Prop
  | [] => True
  | s :: rest => s.Whole ∧ AllWhole rest

end

/-- A `for` loop of whole parts is whole. -/
theorem Stmt.Whole.forLoop {line : Nat} {initial : Option Stmt} {condition step : Option Expr}
    {body : Stmt} (hi : ∀ s ∈ initial, s.Whole) (hc : ∀ e ∈ condition, e.Whole)
    (hs : ∀ e ∈ step, e.Whole) (hb : body.Whole) :
    (Stmt.forLoop line initial condition step body).Whole := by
  cases initial <;> cases condition <;> cases step <;>
    simp_all [Stmt.forLoop, Whole, AllWhole, Expr.Whole]

/-- A whole expression has no errors. -/
theorem Expr.Whole.errors {e : Expr} (h : e.Whole) : e.errors = [] := by
  induction e with
  | literal => rfl
  | empty | error => exact h.elim
  | grouping e ih | unary op e ih | assign name e ih => exact ih h
  | binary l op r ihl ihr =>
    rw [errors_binary, ihl h.1, ihr h.2, List.append_nil]

mutual

/-- A whole statement has no errors. -/
theorem Stmt.Whole.errors : ∀ {s : Stmt}, s.Whole → s.errors = []
  | .error _, h => by simp [Whole] at h
  | .expression e, h | .print e, h => by
    rw [Whole] at h
    simpa using h.errors
  | .declare _ _ e, h => by
    rw [Whole] at h
    rcases h with rfl | h
    · rw [errors_declare]; rfl
    · simpa using h.errors
  | .block body, h => by
    rw [Whole] at h
    simpa using h.errors
  | .ifThen c yes, h => by
    rw [Whole] at h
    simp [h.1.errors, h.2.errors]
  | .ifElse c yes no, h => by
    rw [Whole] at h
    simp [h.1.errors, h.2.1.errors, h.2.2.errors]
  | .whileLoop c body, h => by
    rw [Whole] at h
    simp [h.1.errors, h.2.errors]

/-- Whole statements have no errors. -/
theorem Stmt.AllWhole.errors : ∀ {body : List Stmt}, AllWhole body → errorsOf body = []
  | [], _ => errorsOf_nil
  | s :: rest, h => by
    rw [AllWhole] at h
    simp [h.1.errors, h.2.errors]

end

/-! ### Errors in blocks -/

namespace Stmt

mutual

/-- The statement is no error, none stands in it but in the place of a statement of a block,
and no value is left out in it but that of a declaration. -/
def Confined : Stmt → Prop
  | expression e | print e => e.Whole
  | declare _ _ e => e = .empty ∨ e.Whole
  | block body => AllConfined body
  | ifThen c yes => c.Whole ∧ yes.Confined
  | ifElse c yes no => c.Whole ∧ yes.Confined ∧ no.Confined
  | whileLoop c body => c.Whole ∧ body.Confined
  | error _ => False

/-- All the statements are confined or errors. -/
def AllConfined : List Stmt → Prop
  | [] => True
  | s :: rest => (s.isError = true ∨ s.Confined) ∧ AllConfined rest

end

/-- In a block each statement is an error or confined. -/
theorem allConfined_iff {body : List Stmt} :
    AllConfined body ↔ ∀ s ∈ body, s.isError = true ∨ s.Confined := by
  induction body with
  | nil => simp [AllConfined]
  | cons s rest ih => simp [AllConfined, ih]

/-- A confined statement is no error itself. -/
theorem Confined.isError {s : Stmt} (h : s.Confined) : s.isError = false := by
  cases s with
  | error e => exact absurd h (by simp [Confined])
  | _ => rfl

/-- A `for` loop of confined parts is confined: no error comes into the blocks it is
written with. -/
theorem Confined.forLoop {line : Nat} {initial : Option Stmt} {condition step : Option Expr}
    {body : Stmt} (hi : ∀ s ∈ initial, s.Confined) (hc : ∀ e ∈ condition, e.Whole)
    (hs : ∀ e ∈ step, e.Whole) (hb : body.Confined) :
    (Stmt.forLoop line initial condition step body).Confined := by
  cases initial <;> cases condition <;> cases step <;>
    simp_all [Stmt.forLoop, Confined, AllConfined, Expr.Whole]

end Stmt

end LoxFront
