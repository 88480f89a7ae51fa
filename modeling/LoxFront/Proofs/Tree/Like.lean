/-
# Values that differ in their tokens only

Two values are alike under a relation of tokens if they are built in the same way
from related tokens (`Likeness`): trees with the same nodes, and errors that are
the same complaint.  Values that are alike under equality are equal.
-/

import LoxFront.Proofs.Tree.Errors

namespace LoxFront

/-- Values of the type can be alike but for the tokens in them. -/
class Likeness (α : Type) where
  Like : (Token → Token → Prop) → α → α → Prop
  refl {T : Token → Token → Prop} (hT : ∀ t, T t t) (a : α) : Like T a a
  eq {a b : α} : Like Eq a b → a = b

export Likeness (Like)

instance : Likeness Token := ⟨fun T => T, fun hT => hT, id⟩

instance : Likeness Kind := ⟨fun _ => Eq, fun _ => Eq.refl, id⟩

instance : Likeness Bool := ⟨fun _ => Eq, fun _ => Eq.refl, id⟩

instance {α : Type} [Likeness α] : Likeness (Option α) where
  Like T := Option.Rel (Like T)
  refl hT o := by
    cases o with
    | none => exact .none
    | some a => exact .some (Likeness.refl hT a)
  eq h := by
    cases h with
    | none => rfl
    | some h => rw [Likeness.eq h]

instance {α β : Type} [Likeness α] [Likeness β] : Likeness (α × β) where
  Like T a b := Like T a.1 b.1 ∧ Like T a.2 b.2
  refl hT a := ⟨Likeness.refl hT a.1, Likeness.refl hT a.2⟩
  eq h := Prod.ext (Likeness.eq h.1) (Likeness.eq h.2)

variable {T : Token → Token → Prop}

/-! ### Errors -/

/-- The same complaint about related tokens. -/
inductive ParseError.Like (T : Token → Token → Prop) : ParseError → ParseError → Prop where
  | refl (e : ParseError) : Like T e e
  | about (k : Complaint) {s t : Token} : T s t → Like T (k.about s) (k.about t)

/-- Errors that are alike with equal tokens are equal. -/
theorem ParseError.Like.eq {d e : ParseError} (h : d.Like Eq e) : d = e := by
  cases h with
  | refl => rfl
  | about k h => rw [h]

instance : Likeness ParseError := ⟨ParseError.Like, fun _ => .refl, ParseError.Like.eq⟩

/-- The results of rules are alike if both are errors that are alike or values
that are. -/
inductive Result.Like {α : Type} [Likeness α] (T : Token → Token → Prop) :
    Except ParseError α → Except ParseError α → Prop where
  | error {d e : ParseError} : d.Like T e → Result.Like T (.error d) (.error e)
  | ok {a b : α} : LoxFront.Like T a b → Result.Like T (.ok a) (.ok b)

instance {α : Type} [Likeness α] : Likeness (Except ParseError α) where
  Like := Result.Like
  refl hT r := by
    cases r with
    | error e => exact .error (.refl e)
    | ok a => exact .ok (Likeness.refl hT a)
  eq h := by
    cases h with
    | error h => rw [h.eq]
    | ok h => rw [Likeness.eq h]

/-! ### Trees -/

/-- The same nodes with related tokens. -/
inductive Expr.Like (T : Token → Token → Prop) : Expr → Expr → Prop where
  | literal {s t : Token} : T s t → Like T (.literal s) (.literal t)
  | grouping {d e : Expr} : Like T d e → Like T (.grouping d) (.grouping e)
  | unary {s t : Token} {d e : Expr} : T s t → Like T d e → Like T (.unary s d) (.unary t e)
  | binary {l l' r r' : Expr} {s t : Token} :
    Like T l l' → T s t → Like T r r' → Like T (.binary l s r) (.binary l' t r')
  | assign {s t : Token} {d e : Expr} : T s t → Like T d e → Like T (.assign s d) (.assign t e)
  | empty : Like T .empty .empty
  | error {d e : ParseError} : d.Like T e → Like T (.error d) (.error e)

/-- An expression is like itself. -/
theorem Expr.Like.refl (hT : ∀ t, T t t) (e : Expr) : e.Like T e := by
  induction e with
  | literal t => exact .literal (hT t)
  | grouping e ih => exact .grouping ih
  | unary op e ih => exact .unary (hT op) ih
  | binary l op r ihl ihr => exact .binary ihl (hT op) ihr
  | assign name e ih => exact .assign (hT name) ih
  | empty => exact .empty
  | error e => exact .error (.refl e)

/-- Expressions that are alike with equal tokens are equal. -/
theorem Expr.Like.eq {d e : Expr} (h : d.Like Eq e) : d = e := by
  induction h with
  | literal h => rw [h]
  | grouping _ ih => rw [ih]
  | unary h _ ih => rw [h, ih]
  | binary _ h _ ihl ihr => rw [h, ihl, ihr]
  | assign h _ ih => rw [h, ih]
  | empty => rfl
  | error h => rw [h.eq]

instance : Likeness Expr := ⟨Expr.Like, Expr.Like.refl, Expr.Like.eq⟩

/-- Only a variable is like a variable. -/
theorem Expr.Like.identifier? (hT : ∀ {s t}, T s t → s.kind = t.kind) {d e : Expr}
    (h : d.Like T e) : LoxFront.Like T d.identifier? e.identifier? := by
  cases h with
  | literal h =>
    rw [Expr.identifier?, Expr.identifier?, hT h]
    split
    · exact .some h
    · exact .none
  | grouping | unary | binary | assign | empty | error => exact .none

/-- Of like expressions both have errors or none. -/
theorem Expr.Like.hasErrors {d e : Expr} (h : d.Like T e) : d.hasErrors = e.hasErrors := by
  induction h with
  | literal | empty | error => rfl
  | grouping _ ih | unary _ _ ih | assign _ _ ih => exact ih
  | binary _ _ _ ihl ihr => rw [Expr.hasErrors, Expr.hasErrors, ihl, ihr]

mutual

/-- The same nodes with related tokens. -/
inductive Stmt.Like (T : Token → Token → Prop) : Stmt → Stmt → Prop where
  | expression {d e : Expr} : d.Like T e → Stmt.Like T (.expression d) (.expression e)
  | print {d e : Expr} : d.Like T e → Stmt.Like T (.print d) (.print e)
  | declare {b : Binding} {s t : Token} {d e : Expr} :
    T s t → d.Like T e → Stmt.Like T (.declare b s d) (.declare b t e)
  | block {a b : List Stmt} : Stmt.AllLike T a b → Stmt.Like T (.block a) (.block b)
  | ifThen {d e : Expr} {a b : Stmt} :
    d.Like T e → Stmt.Like T a b → Stmt.Like T (.ifThen d a) (.ifThen e b)
  | ifElse {d e : Expr} {a a' b b' : Stmt} :
    d.Like T e → Stmt.Like T a b → Stmt.Like T a' b' → Stmt.Like T (.ifElse d a a') (.ifElse e b b')
  | whileLoop {d e : Expr} {a b : Stmt} :
    d.Like T e → Stmt.Like T a b → Stmt.Like T (.whileLoop d a) (.whileLoop e b)
  | error {d e : ParseError} : d.Like T e → Stmt.Like T (.error d) (.error e)

/-- The same statements, one for one, but for related tokens. -/
inductive Stmt.AllLike (T : Token → Token → Prop) : List Stmt → List Stmt → Prop where
  | nil : Stmt.AllLike T [] []
  | cons {s t : Stmt} {a b : List Stmt} :
    Stmt.Like T s t → Stmt.AllLike T a b → Stmt.AllLike T (s :: a) (t :: b)

end

mutual

/-- A statement is like itself. -/
theorem Stmt.Like.refl (hT : ∀ t, T t t) : ∀ s : Stmt, s.Like T s
  | .expression e => .expression (Likeness.refl hT e)
  | .print e => .print (Likeness.refl hT e)
  | .declare _ name e => .declare (hT name) (Likeness.refl hT e)
  | .block body => .block (AllLike.refl hT body)
  | .ifThen e yes => .ifThen (Likeness.refl hT e) (Like.refl hT yes)
  | .ifElse e yes no => .ifElse (Likeness.refl hT e) (Like.refl hT yes) (Like.refl hT no)
  | .whileLoop e body => .whileLoop (Likeness.refl hT e) (Like.refl hT body)
  | .error e => .error (.refl e)

/-- Several statements are like themselves. -/
theorem Stmt.AllLike.refl (hT : ∀ t, T t t) : ∀ body : List Stmt, AllLike T body body
  | [] => .nil
  | s :: rest => .cons (Like.refl hT s) (AllLike.refl hT rest)

end

mutual

/-- Statements that are alike with equal tokens are equal. -/
theorem Stmt.Like.eq : ∀ {s t : Stmt}, s.Like Eq t → s = t
  | _, _, .expression h => congrArg _ (h.eq)
  | _, _, .print h => congrArg _ (h.eq)
  | _, _, .declare h k => by rw [h, k.eq]
  | _, _, .block h => congrArg _ h.eq
  | _, _, .ifThen h k => by rw [h.eq, k.eq]
  | _, _, .ifElse h k l => by rw [h.eq, k.eq, l.eq]
  | _, _, .whileLoop h k => by rw [h.eq, k.eq]
  | _, _, .error h => congrArg _ (h.eq)

/-- The same of several statements. -/
theorem Stmt.AllLike.eq : ∀ {a b : List Stmt}, AllLike Eq a b → a = b
  | _, _, .nil => rfl
  | _, _, .cons h k => by rw [h.eq, k.eq]

end

instance : Likeness Stmt := ⟨Stmt.Like, Stmt.Like.refl, Stmt.Like.eq⟩

instance : Likeness (List Stmt) := ⟨Stmt.AllLike, Stmt.AllLike.refl, Stmt.AllLike.eq⟩

mutual

/-- Of like statements both have errors or none. -/
theorem Stmt.Like.hasErrors : ∀ {s t : Stmt}, s.Like T t → s.hasErrors = t.hasErrors
  | _, _, .expression h | _, _, .print h | _, _, .declare _ h => by
    rw [Stmt.hasErrors, Stmt.hasErrors, h.hasErrors]
  | _, _, .block h => by rw [Stmt.hasErrors, Stmt.hasErrors, h.anyErrors]
  | _, _, .ifThen h k | _, _, .whileLoop h k => by
    rw [Stmt.hasErrors, Stmt.hasErrors, h.hasErrors, k.hasErrors]
  | _, _, .ifElse h k l => by
    rw [Stmt.hasErrors, Stmt.hasErrors, h.hasErrors, k.hasErrors, l.hasErrors]
  | _, _, .error _ => by rw [Stmt.hasErrors, Stmt.hasErrors]

/-- The same of several statements. -/
theorem Stmt.AllLike.anyErrors : ∀ {a b : List Stmt}, AllLike T a b → anyErrors a = anyErrors b
  | _, _, .nil => rfl
  | _, _, .cons h k => by rw [Stmt.anyErrors, Stmt.anyErrors, h.hasErrors, k.anyErrors]

end

/-- The same, with the test made on each of them. -/
theorem Stmt.AllLike.any_hasErrors : ∀ {a b : List Stmt}, AllLike T a b →
    a.any Stmt.hasErrors = b.any Stmt.hasErrors
  | _, _, .nil => rfl
  | _, _, .cons h k => by rw [List.any_cons, List.any_cons, h.hasErrors, k.any_hasErrors]

/-- Like rows of statements one behind the other are alike. -/
theorem Stmt.AllLike.append : ∀ {a b c d : List Stmt}, AllLike T a b → AllLike T c d →
    AllLike T (a ++ c) (b ++ d)
  | _, _, _, _, .nil, k => k
  | _, _, _, _, .cons h h', k => .cons h (h'.append k)

/-- Single statements that are alike are alike as rows. -/
theorem Stmt.AllLike.singleton {s t : Stmt} (h : s.Like T t) : AllLike T [s] [t] := .cons h .nil

/-- The loop that a `for` loop stands for, on one line or another. -/
theorem Stmt.Like.forLoop {line line' : Nat} {i i' : Option Stmt} {c c' e e' : Option Expr}
    {body body' : Stmt}
    (htrue : T ⟨.trueWord, "true", line, .none⟩ ⟨.trueWord, "true", line', .none⟩)
    (hi : LoxFront.Like T i i') (hc : LoxFront.Like T c c') (he : LoxFront.Like T e e')
    (hbody : body.Like T body') :
    (Stmt.forLoop line i c e body).Like T (.forLoop line' i' c' e' body') := by
  have hcondition : (c.getD (.literal ⟨.trueWord, "true", line, .none⟩)).Like T
      (c'.getD (.literal ⟨.trueWord, "true", line', .none⟩)) := by
    cases hc with
    | none => exact .literal htrue
    | some hc => exact hc
  cases hi with
  | none =>
    cases he with
    | none => exact .whileLoop hcondition hbody
    | some he => exact .whileLoop hcondition (.block (.cons hbody (.singleton (.expression he))))
  | some hi =>
    refine .block (.cons hi (.singleton ?_))
    cases he with
    | none => exact .whileLoop hcondition hbody
    | some he => exact .whileLoop hcondition (.block (.cons hbody (.singleton (.expression he))))

end LoxFront
