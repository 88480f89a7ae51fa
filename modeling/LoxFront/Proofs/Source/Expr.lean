/-
# Expressions as they are written

A written expression has all its tokens, parentheses and equals signs too, so
that the text can be had back from it (`Source.Expr.tokens`).  The grammar of
`LoxFront.Rule.Expr` is a matter of rank: an operator binds the tighter the
higher its rank is, the operands of a chain are of higher rank than the chain
but for the first, and an assignment stands where anything may
(`Source.Expr.Fits`).
-/

import LoxFront.Tree.Basic

namespace LoxFront

/-- The rank of an operator between two operands; 0 for all other tokens. -/
def Kind.rank : Kind → Nat
  | orWord => 1
  | andWord => 2
  | bangEqual | equalEqual => 3
  | greater | greaterEqual | less | lessEqual => 4
  | minus | plus => 5
  | slash | star => 6
  | _ => 0

/-- The kinds that are expressions by themselves. -/
def Kind.StandsAlone (k : Kind) : Prop :=
  k ∈ [number, string, trueWord, falseWord, nilWord, identifier, returnWord]

/-- The prefix operators. -/
def Kind.Prefixes (k : Kind) : Prop := k = bang ∨ k = minus

/-- The kinds that an expression begins with. -/
def Kind.BeginsExpr (k : Kind) : Prop := k.StandsAlone ∨ k.Prefixes ∨ k = leftParen

instance (k : Kind) : Decidable k.StandsAlone := inferInstanceAs (Decidable (k ∈ _))

instance (k : Kind) : Decidable k.Prefixes := inferInstanceAs (Decidable (_ ∨ _))

instance (k : Kind) : Decidable k.BeginsExpr := inferInstanceAs (Decidable (_ ∨ _))

namespace Source

/-- A token of a kind that will do. -/
abbrev Word (p : Kind → Prop) : Type := { t : Token // p t.kind }

/-- A token of this kind. -/
abbrev Mark (k : Kind) : Type := Word (· = k)

/-- An expression as it is written. -/
inductive Expr where
  /-- A constant, a name or `return`. -/
  | atom (token : Word Kind.StandsAlone)
  | grouping (opening : Mark .leftParen) (inner : Expr) (closing : Mark .rightParen)
  | unary (op : Word Kind.Prefixes) (operand : Expr)
  | binary (left : Expr) (op : Word (1 ≤ ·.rank)) (right : Expr)
  | assign (name : Mark .identifier) (equals : Mark .equal) (value : Expr)

namespace Expr

/-- The tokens of an expression, from left to right. -/
def tokens : Expr → List Token
  | atom t => [t.1]
  | grouping l e r => l.1 :: (e.tokens ++ [r.1])
  | unary op e => op.1 :: e.tokens
  | binary l op r => l.tokens ++ op.1 :: r.tokens
  | assign name equals e => name.1 :: equals.1 :: e.tokens

/-- The syntax tree of an expression. -/
def tree : Expr → LoxFront.Expr
  | atom t => .literal t.1
  | grouping _ e _ => .grouping e.tree
  | unary op e => .unary op.1 e.tree
  | binary l op r => .binary l.tree op.1 r.tree
  | assign name _ e => .assign name.1 e.tree

/-- How many regions stand in one another. -/
def nesting : Expr → Nat
  | atom _ => 0
  | grouping _ e _ | unary _ e | assign _ _ e => e.nesting + 1
  | binary l _ r => max l.nesting r.nesting

/-- The expression may stand where operators of this rank or higher may.  Rank 7
is that of the operands of `*` and `/`. -/
def Fits : Nat → Expr → Prop
  | _, atom _ => True
  | _, grouping _ e _ => e.Fits 0
  | _, unary _ e => e.Fits 7
  | n, binary l op r => n ≤ op.1.kind.rank ∧ l.Fits op.1.kind.rank ∧ r.Fits (op.1.kind.rank + 1)
  | n, assign _ _ e => n = 0 ∧ e.Fits 0

instance decidableFits : ∀ (n : Nat) (e : Expr), Decidable (e.Fits n)
  | _, atom _ => inferInstanceAs (Decidable True)
  | _, grouping _ e _ => decidableFits 0 e
  | _, unary _ e => decidableFits 7 e
  | n, binary l op r =>
    have := decidableFits op.1.kind.rank l
    have := decidableFits (op.1.kind.rank + 1) r
    inferInstanceAs (Decidable (n ≤ op.1.kind.rank ∧ l.Fits _ ∧ r.Fits _))
  | n, assign _ _ e =>
    have := decidableFits 0 e
    inferInstanceAs (Decidable (n = 0 ∧ e.Fits 0))

/-! ### Ranks -/

/-- What fits at a level fits at every looser one. -/
theorem Fits.mono {m n : Nat} {e : Expr} (h : e.Fits n) (hmn : m ≤ n) : e.Fits m := by
  cases e with
  | atom | grouping | unary => exact h
  | binary l op r => exact ⟨Nat.le_trans hmn h.1, h.2⟩
  | assign name equals e => exact ⟨by have := h.1; omega, h.2⟩

/-- No operator binds tighter than those of the sixth rank. -/
theorem rank_le (k : Kind) : k.rank ≤ 6 := by cases k <;> decide

/-- An expression where assignments may stand is one or is of rank 1. -/
theorem fits_zero_iff {e : Expr} :
    e.Fits 0 ↔ (∃ name equals value, e = assign name equals value ∧ value.Fits 0) ∨ e.Fits 1 := by
  constructor
  · intro h
    cases e with
    | atom | grouping | unary => exact .inr h
    | binary l op r => exact .inr ⟨op.2, h.2⟩
    | assign name equals value => exact .inl ⟨name, equals, value, rfl, h.2⟩
  · rintro (⟨name, equals, value, rfl, h⟩ | h)
    · exact ⟨rfl, h⟩
    · exact h.mono (Nat.zero_le 1)

/-- An expression of a rank is a chain of operators of this rank or is of the
next. -/
theorem fits_iff_of_pos {n : Nat} (hn : 0 < n) {e : Expr} :
    e.Fits n ↔ (∃ l op r, e = binary l op r ∧ op.1.kind.rank = n ∧ l.Fits n ∧ r.Fits (n + 1)) ∨
      e.Fits (n + 1) := by
  constructor
  · intro h
    cases e with
    | atom | grouping | unary => exact .inr h
    | binary l op r =>
      rcases Nat.lt_or_eq_of_le h.1 with hlt | heq
      · exact .inr ⟨hlt, h.2⟩
      · exact .inl ⟨l, op, r, rfl, heq.symm, heq ▸ h.2.1, heq ▸ h.2.2⟩
    | assign name equals e => exact absurd h.1 (by omega)
  · rintro (⟨l, op, r, rfl, rfl, hl, hr⟩ | h)
    · exact ⟨Nat.le_refl _, hl, hr⟩
    · exact h.mono (Nat.le_succ n)

/-- Only an atom is a bare variable. -/
theorem eq_atom_of_identifier? {e : Expr} {name : Token} (h : e.tree.identifier? = some name) :
    ∃ t, e = atom t ∧ name = t.1 ∧ t.1.kind = .identifier := by
  cases e with
  | atom t =>
    rw [tree, LoxFront.Expr.identifier?, Option.ite_none_right_eq_some] at h
    exact ⟨t, rfl, (Option.some.inj h.2).symm, h.1⟩
  | grouping | unary | binary | assign => simp [tree, LoxFront.Expr.identifier?] at h

/-! ### Tokens -/

/-- An expression has a first token, of a kind that expressions begin with. -/
theorem exists_tokens_eq_cons (e : Expr) :
    ∃ t ts, e.tokens = t :: ts ∧ t.kind.BeginsExpr := by
  induction e with
  | atom t => exact ⟨t.1, [], rfl, .inl t.2⟩
  | grouping l e r => exact ⟨l.1, _, rfl, .inr (.inr l.2)⟩
  | unary op e => exact ⟨op.1, _, rfl, .inr (.inl op.2)⟩
  | binary l op r ihl =>
    obtain ⟨t, ts, ht, hk⟩ := ihl
    exact ⟨t, ts ++ op.1 :: r.tokens, by rw [tokens, ht]; rfl, hk⟩
  | assign name equals e => exact ⟨name.1, _, rfl, .inl (by rw [name.2]; decide)⟩

/-- No token of an expression is an end marker. -/
theorem tokens_ne_eof (e : Expr) : ∀ t ∈ e.tokens, t.kind ≠ .eof := by
  have hne {p : Kind → Prop} (t : Word p) (h : ¬p .eof) : t.1.kind ≠ .eof := fun heq =>
    h (heq ▸ t.2)
  induction e with
  | atom t => exact List.forall_mem_cons.2 ⟨hne t (by decide), List.forall_mem_nil _⟩
  | grouping l e r ih =>
    simp only [tokens, List.forall_mem_cons, List.forall_mem_append]
    exact ⟨hne l (by decide), ih, hne r (by decide), List.forall_mem_nil _⟩
  | unary op e ih => exact List.forall_mem_cons.2 ⟨hne op (by decide), ih⟩
  | binary l op r ihl ihr =>
    exact List.forall_mem_append.2 ⟨ihl, List.forall_mem_cons.2 ⟨hne op (by decide), ihr⟩⟩
  | assign name equals e ih =>
    exact List.forall_mem_cons.2 ⟨hne name (by decide),
      List.forall_mem_cons.2 ⟨hne equals (by decide), ih⟩⟩

end Expr
end Source
end LoxFront
