/-
# Trees of kinds

A token is bare if only its kind is left of it (`Token.bare`), and a tree is bare if
its tokens are.  Trees that differ in their tokens only, and have no errors, are the
same tree of kinds if the tokens are of the same kinds (`Stmt.AllLike.bare_eq`).  Their
errors go with one another, one for one (`Stmt.AllLike.errorsOf`).
-/

import LoxFront.Proofs.Tree.Like
import Mathlib.Data.List.Forall2

namespace LoxFront

/-- The token without its text, its line and its value. -/
def Token.bare (t : Token) : Token := ⟨t.kind, "", 0, .none⟩

/-- The same message at the bare token. -/
def ParseError.bare (e : ParseError) : ParseError := ⟨e.message, e.token.bare⟩

/-- The same nodes with bare tokens. -/
def Expr.bare : Expr → Expr
  | literal t => literal t.bare
  | grouping e => grouping e.bare
  | unary op e => unary op.bare e.bare
  | binary l op r => binary l.bare op.bare r.bare
  | assign name e => assign name.bare e.bare
  | empty => empty
  | error e => error e.bare

mutual

/-- The same nodes with bare tokens. -/
def Stmt.bare : Stmt → Stmt
  | expression e => expression e.bare
  | print e => print e.bare
  | declare b name e => declare b name.bare e.bare
  | block body => block (bareAll body)
  | ifThen c yes => ifThen c.bare yes.bare
  | ifElse c yes no => ifElse c.bare yes.bare no.bare
  | whileLoop c body => whileLoop c.bare body.bare
  | error e => error e.bare

/-- The same statements with bare tokens. -/
def Stmt.bareAll : List Stmt → List Stmt
  | [] => []
  | s :: rest => s.bare :: bareAll rest

end

/-- The same program with bare tokens. -/
def Program.bare (p : Program) : Program := ⟨Stmt.bareAll p.statements⟩

variable {T : Token → Token → Prop}

/-! ### Trees that are alike -/

/-- Bare tokens are told apart by their kinds only. -/
theorem Token.bare_eq_iff {s t : Token} : s.bare = t.bare ↔ s.kind = t.kind := by
  simp [bare]

/-- Like expressions without errors are bare of the same form, if like tokens are of one kind. -/
theorem Expr.Like.bare_eq (hT : ∀ {s t}, T s t → s.kind = t.kind) {d e : Expr} (h : d.Like T e)
    (hd : d.errors = []) : d.bare = e.bare := by
  induction h with
  | literal h => rw [bare, bare, Token.bare_eq_iff.2 (hT h)]
  | grouping _ ih => rw [bare, bare, ih hd]
  | unary h _ ih | assign h _ ih => rw [bare, bare, Token.bare_eq_iff.2 (hT h), ih hd]
  | binary _ h _ ihl ihr =>
    rw [errors_binary, List.append_eq_nil_iff] at hd
    rw [bare, bare, ihl hd.1, Token.bare_eq_iff.2 (hT h), ihr hd.2]
  | empty => rfl
  | error h => exact absurd hd (List.cons_ne_nil _ _)

mutual

/-- The same of statements. -/
theorem Stmt.Like.bare_eq (hT : ∀ {s t}, T s t → s.kind = t.kind) : ∀ {s t : Stmt},
    s.Like T t → s.errors = [] → s.bare = t.bare
  | _, _, .expression h, hs => by
    rw [errors_expression] at hs
    rw [bare, bare, h.bare_eq hT hs]
  | _, _, .print h, hs => by
    rw [errors_print] at hs
    rw [bare, bare, h.bare_eq hT hs]
  | _, _, .declare h k, hs => by
    rw [errors_declare] at hs
    rw [bare, bare, Token.bare_eq_iff.2 (hT h), k.bare_eq hT hs]
  | _, _, .block h, hs => by
    rw [errors_block] at hs
    rw [bare, bare, h.bare_eq hT hs]
  | _, _, .ifThen h k, hs => by
    rw [errors_ifThen, List.append_eq_nil_iff] at hs
    rw [bare, bare, h.bare_eq hT hs.1, k.bare_eq hT hs.2]
  | _, _, .ifElse h k l, hs => by
    rw [errors_ifElse, List.append_eq_nil_iff, List.append_eq_nil_iff] at hs
    rw [bare, bare, h.bare_eq hT hs.1, k.bare_eq hT hs.2.1, l.bare_eq hT hs.2.2]
  | _, _, .whileLoop h k, hs => by
    rw [errors_whileLoop, List.append_eq_nil_iff] at hs
    rw [bare, bare, h.bare_eq hT hs.1, k.bare_eq hT hs.2]
  | _, _, .error _, hs => by
    rw [errors_error] at hs
    exact absurd hs (List.cons_ne_nil _ _)

/-- Statements that are alike and have no errors are the same trees of kinds. -/
theorem Stmt.AllLike.bare_eq (hT : ∀ {s t}, T s t → s.kind = t.kind) : ∀ {a b : List Stmt},
    AllLike T a b → errorsOf a = [] → bareAll a = bareAll b
  | _, _, .nil, _ => rfl
  | _, _, .cons h k, ha => by
    rw [errorsOf_cons, List.append_eq_nil_iff] at ha
    rw [bareAll, bareAll, h.bare_eq hT ha.1, k.bare_eq hT ha.2]

end

/-! ### Their errors -/

/-- Like expressions have like errors, in the same order. -/
theorem Expr.Like.errors {d e : Expr} (h : d.Like T e) :
    List.Forall₂ (ParseError.Like T) d.errors e.errors := by
  induction h with
  | literal | empty => exact .nil
  | grouping _ ih | unary _ _ ih | assign _ _ ih => exact ih
  | binary _ _ _ ihl ihr =>
    rw [errors_binary, errors_binary]
    exact List.rel_append ihl ihr
  | error h => exact .cons h .nil

mutual

/-- Like statements have like errors, in the same order. -/
theorem Stmt.Like.errors : ∀ {s t : Stmt}, s.Like T t →
    List.Forall₂ (ParseError.Like T) s.errors t.errors
  | _, _, .expression h => by
    rw [errors_expression, errors_expression]
    exact h.errors
  | _, _, .print h => by
    rw [errors_print, errors_print]
    exact h.errors
  | _, _, .declare _ h => by
    rw [errors_declare, errors_declare]
    exact h.errors
  | _, _, .block h => by
    rw [errors_block, errors_block]
    exact h.errorsOf
  | _, _, .ifThen h k => by
    rw [errors_ifThen, errors_ifThen]
    exact List.rel_append h.errors k.errors
  | _, _, .ifElse h k l => by
    rw [errors_ifElse, errors_ifElse]
    exact List.rel_append h.errors (List.rel_append k.errors l.errors)
  | _, _, .whileLoop h k => by
    rw [errors_whileLoop, errors_whileLoop]
    exact List.rel_append h.errors k.errors
  | _, _, .error h => by
    rw [errors_error, errors_error]
    exact .cons h .nil

/-- The errors of statements that are alike are alike, one for one. -/
theorem Stmt.AllLike.errorsOf : ∀ {a b : List Stmt}, AllLike T a b →
    List.Forall₂ (ParseError.Like T) (errorsOf a) (errorsOf b)
  | _, _, .nil => by
    rw [errorsOf_nil]
    exact .nil
  | _, _, .cons h k => by
    rw [errorsOf_cons, errorsOf_cons]
    exact List.rel_append h.errors k.errorsOf

end

end LoxFront
