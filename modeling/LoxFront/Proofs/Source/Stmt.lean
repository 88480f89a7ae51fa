/-
# Statements as they are written

A written statement has all its tokens, and a `for` loop is still a loop of its
own; its syntax tree is that of the `while` loop it stands for
(`Source.Stmt.tree`).  A statement is as the grammar has it
(`Source.Stmt.Fits`) if declarations stand in blocks only and no `else` stands
behind an `if` that could take it but belongs to one further out.
-/

import LoxFront.Rule.Stmt
import LoxFront.Proofs.Source.Expr
import LoxFront.Proofs.Tree.Errors

namespace LoxFront
namespace Source

/-- A declaration: `var` or `const`, a name, and maybe an equals sign with or
without a value. -/
structure Declaration where
  keyword : Word (fun k => k = .varWord ∨ k = .constWord)
  name : Mark .identifier
  initial : Option (Mark .equal × Option Expr)
  semicolon : Mark .semicolon

/-- The first clause of a `for` loop. -/
inductive Initial where
  | omitted (semicolon : Mark .semicolon)
  | declaration (d : Declaration)
  | expression (value : Expr) (semicolon : Mark .semicolon)

/-- A declaration or statement as it is written. -/
inductive Stmt where
  | declaration (d : Declaration)
  | expression (value : Expr) (semicolon : Mark .semicolon)
  | print (keyword : Mark .printWord) (value : Expr) (semicolon : Mark .semicolon)
  | block (opening : Mark .leftBrace) (body : List Stmt) (closing : Mark .rightBrace)
  | ifThen (keyword : Mark .ifWord) (opening : Mark .leftParen) (condition : Expr)
      (closing : Mark .rightParen) (yes : Stmt)
  | ifElse (keyword : Mark .ifWord) (opening : Mark .leftParen) (condition : Expr)
      (closing : Mark .rightParen) (yes : Stmt) (otherwise : Mark .elseWord) (no : Stmt)
  | whileLoop (keyword : Mark .whileWord) (opening : Mark .leftParen) (condition : Expr)
      (closing : Mark .rightParen) (body : Stmt)
  | forLoop (keyword : Mark .forWord) (opening : Mark .leftParen) (initial : Initial)
      (condition : Option Expr) (semicolon : Mark .semicolon) (step : Option Expr)
      (closing : Mark .rightParen) (body : Stmt)

/-! ### Parts that may be left out -/

/-- The tokens of an expression that may be left out. -/
def clauseTokens (e : Option Expr) : List Token := e.elim [] Expr.tokens

/-- How many regions stand in one another in an expression that may be left out. -/
def clauseNesting (e : Option Expr) : Nat := e.elim 0 Expr.nesting

/-- An expression that may be left out is as the grammar has it. -/
def ClauseFits (e : Option Expr) : Prop := ∀ v ∈ e, v.Fits 0

/-- A missing clause fits. -/
theorem clauseFits_none : ClauseFits none := fun _ h => nomatch h

/-- A clause fits if its expression does. -/
theorem clauseFits_some {e : Expr} (h : e.Fits 0) : ClauseFits (some e) := fun _ hv =>
  Option.some.inj hv ▸ h

instance (e : Option Expr) : Decidable (ClauseFits e) :=
  match e with
  | none => .isTrue fun _ h => nomatch h
  | some v => decidable_of_iff (v.Fits 0) (by simp [ClauseFits])

namespace Declaration

/-- The value of a declaration, if there is one. -/
def value? (d : Declaration) : Option Expr := d.initial.bind Prod.snd

/-- The tokens of a declaration, from left to right. -/
def tokens (d : Declaration) : List Token :=
  d.keyword.1 :: d.name.1 ::
    (d.initial.elim [] (fun i => i.1.1 :: clauseTokens i.2) ++ [d.semicolon.1])

/-- The kind of declaration that its keyword names. -/
def binding (d : Declaration) : Binding := if d.keyword.1.kind = .constWord then .const else .var

/-- The syntax tree of a declaration. -/
def tree (d : Declaration) : LoxFront.Stmt :=
  .declare d.binding d.name.1 ((d.value?.map Expr.tree).getD .empty)

end Declaration

namespace Initial

/-- The tokens of a first clause, from left to right. -/
def tokens : Initial → List Token
  | omitted semicolon => [semicolon.1]
  | declaration d => d.tokens
  | expression e semicolon => e.tokens ++ [semicolon.1]

/-- The syntax tree of a first clause, if it is not left out. -/
def tree? : Initial → Option LoxFront.Stmt
  | omitted _ => none
  | declaration d => some d.tree
  | expression e _ => some (.expression e.tree)

/-- How many regions stand in one another. -/
def nesting : Initial → Nat
  | omitted _ => 0
  | declaration d => clauseNesting d.value?
  | expression e _ => e.nesting

/-- The clause is as the grammar has it. -/
def Fits : Initial → Prop
  | omitted _ => True
  | declaration d => ClauseFits d.value?
  | expression e _ => e.Fits 0

instance (i : Initial) : Decidable i.Fits :=
  match i with
  | omitted _ => inferInstanceAs (Decidable True)
  | declaration _ => inferInstanceAs (Decidable (ClauseFits _))
  | expression _ _ => inferInstanceAs (Decidable (Expr.Fits _ _))

end Initial

namespace Stmt

/-- Not a declaration. -/
def isStatement : Stmt → Bool
  | declaration _ => false
  | _ => true

/-- The statement ends in an `if` that could take an `else`. -/
def endsOpen : Stmt → Bool
  | ifThen .. => true
  | ifElse _ _ _ _ _ _ no => no.endsOpen
  | whileLoop _ _ _ _ body | forLoop _ _ _ _ _ _ _ body => body.endsOpen
  | _ => false

mutual

/-- The tokens of a statement, from left to right. -/
def tokens : Stmt → List Token
  | declaration d => d.tokens
  | expression e semicolon => e.tokens ++ [semicolon.1]
  | print keyword e semicolon => keyword.1 :: (e.tokens ++ [semicolon.1])
  | block l body r => l.1 :: (tokensOf body ++ [r.1])
  | ifThen keyword l e r yes => keyword.1 :: l.1 :: (e.tokens ++ r.1 :: yes.tokens)
  | ifElse keyword l e r yes otherwise no =>
    keyword.1 :: l.1 :: (e.tokens ++ r.1 :: (yes.tokens ++ otherwise.1 :: no.tokens))
  | whileLoop keyword l e r body => keyword.1 :: l.1 :: (e.tokens ++ r.1 :: body.tokens)
  | forLoop keyword l i e semicolon step r body =>
    keyword.1 :: l.1 :: (i.tokens ++ (clauseTokens e ++
      semicolon.1 :: (clauseTokens step ++ r.1 :: body.tokens)))

/-- The tokens of statements one after another. -/
def tokensOf : List Stmt → List Token
  | [] => []
  | s :: rest => s.tokens ++ tokensOf rest

end

mutual

/-- The syntax tree of a statement, with `while` for `for`. -/
def tree : Stmt → LoxFront.Stmt
  | declaration d => d.tree
  | expression e _ => .expression e.tree
  | print _ e _ => .print e.tree
  | block _ body _ => .block (trees body)
  | ifThen _ _ e _ yes => .ifThen e.tree yes.tree
  | ifElse _ _ e _ yes _ no => .ifElse e.tree yes.tree no.tree
  | whileLoop _ _ e _ body => .whileLoop e.tree body.tree
  | forLoop keyword _ i e _ step _ body =>
    .forLoop keyword.1.line i.tree? (e.map Expr.tree) (step.map Expr.tree) body.tree

/-- The syntax trees of statements. -/
def trees : List Stmt → List LoxFront.Stmt
  | [] => []
  | s :: rest => s.tree :: trees rest

end

mutual

/-- How many regions stand in one another: the inside of a grouping, the operand
of a prefix operator, an assigned value, the inside of a block, a branch or the
body of a loop. -/
def nesting : Stmt → Nat
  | declaration d => clauseNesting d.value?
  | expression e _ | print _ e _ => e.nesting
  | block _ body _ => nestingOf body + 1
  | ifThen _ _ e _ yes => max e.nesting (yes.nesting + 1)
  | ifElse _ _ e _ yes _ no => max e.nesting (max (yes.nesting + 1) (no.nesting + 1))
  | whileLoop _ _ e _ body => max e.nesting (body.nesting + 1)
  | forLoop _ _ i e _ step _ body =>
    max i.nesting (max (clauseNesting e) (max (clauseNesting step) (body.nesting + 1)))

/-- How many regions stand in one another in one of the statements. -/
def nestingOf : List Stmt → Nat
  | [] => 0
  | s :: rest => max s.nesting (nestingOf rest)

end

mutual

/-- The statement is as the grammar has it. -/
def Fits : Stmt → Prop
  | declaration d => ClauseFits d.value?
  | expression e _ | print _ e _ => e.Fits 0
  | block _ body _ => AllFit body
  | ifThen _ _ e _ yes => e.Fits 0 ∧ yes.isStatement = true ∧ yes.Fits
  | ifElse _ _ e _ yes _ no =>
    e.Fits 0 ∧ (yes.isStatement = true ∧ yes.Fits ∧ yes.endsOpen = false) ∧
      no.isStatement = true ∧ no.Fits
  | whileLoop _ _ e _ body => e.Fits 0 ∧ body.isStatement = true ∧ body.Fits
  | forLoop _ _ i e _ step _ body =>
    i.Fits ∧ ClauseFits e ∧ ClauseFits step ∧ body.isStatement = true ∧ body.Fits

/-- All the statements are as the grammar has them. -/
def AllFit : List Stmt → Prop
  | [] => True
  | s :: rest => s.Fits ∧ AllFit rest

end

mutual

/-- It can be decided whether a statement fits. -/
def decidableFits : ∀ s : Stmt, Decidable s.Fits
  | declaration d => inferInstanceAs (Decidable (ClauseFits d.value?))
  | expression e _ | print _ e _ => inferInstanceAs (Decidable (e.Fits 0))
  | block _ body _ => decidableAllFit body
  | ifThen _ _ e _ yes =>
    have := decidableFits yes
    inferInstanceAs (Decidable (e.Fits 0 ∧ yes.isStatement = true ∧ yes.Fits))
  | ifElse _ _ e _ yes _ no =>
    have := decidableFits yes
    have := decidableFits no
    inferInstanceAs (Decidable (e.Fits 0 ∧
      (yes.isStatement = true ∧ yes.Fits ∧ yes.endsOpen = false) ∧
        no.isStatement = true ∧ no.Fits))
  | whileLoop _ _ e _ body =>
    have := decidableFits body
    inferInstanceAs (Decidable (e.Fits 0 ∧ body.isStatement = true ∧ body.Fits))
  | forLoop _ _ i e _ step _ body =>
    have := decidableFits body
    inferInstanceAs (Decidable
      (i.Fits ∧ ClauseFits e ∧ ClauseFits step ∧ body.isStatement = true ∧ body.Fits))

/-- It can be decided whether several statements fit. -/
def decidableAllFit : ∀ body : List Stmt, Decidable (AllFit body)
  | [] => inferInstanceAs (Decidable True)
  | s :: rest =>
    have := decidableFits s
    have := decidableAllFit rest
    inferInstanceAs (Decidable (s.Fits ∧ AllFit rest))

end

instance (s : Stmt) : Decidable s.Fits := decidableFits s

instance (body : List Stmt) : Decidable (AllFit body) := decidableAllFit body

end Stmt

/-! ### Tokens -/

/-- A mark is of its own kind and of no other. -/
theorem Mark.kind_ne {k x : Kind} (t : Mark k) (h : k ≠ x) : t.1.kind ≠ x := by rw [t.2]; exact h

/-- No token of a clause is an end marker. -/
theorem clauseTokens_ne_eof (e : Option Expr) : ∀ t ∈ clauseTokens e, t.kind ≠ .eof := by
  cases e with
  | none => exact fun t h => absurd h List.not_mem_nil
  | some e => exact e.tokens_ne_eof

/-- No token of a declaration is an end marker. -/
theorem Declaration.tokens_ne_eof (d : Declaration) : ∀ t ∈ d.tokens, t.kind ≠ .eof := by
  have hk : d.keyword.1.kind ≠ .eof := by rcases d.keyword.2 with h | h <;> rw [h] <;> decide
  simp only [tokens, List.forall_mem_cons, List.forall_mem_append]
  refine ⟨hk, d.name.kind_ne (by decide), ?_, d.semicolon.kind_ne (by decide),
    List.forall_mem_nil _⟩
  cases d.initial with
  | none => exact List.forall_mem_nil _
  | some i => exact List.forall_mem_cons.2 ⟨i.1.kind_ne (by decide), clauseTokens_ne_eof i.2⟩

/-- No token of an initial clause is an end marker. -/
theorem Initial.tokens_ne_eof (i : Initial) : ∀ t ∈ i.tokens, t.kind ≠ .eof := by
  cases i with
  | omitted semicolon =>
    exact List.forall_mem_cons.2 ⟨semicolon.kind_ne (by decide), List.forall_mem_nil _⟩
  | declaration d => exact d.tokens_ne_eof
  | expression e semicolon =>
    exact List.forall_mem_append.2 ⟨e.tokens_ne_eof,
      List.forall_mem_cons.2 ⟨semicolon.kind_ne (by decide), List.forall_mem_nil _⟩⟩

namespace Stmt

mutual

/-- No token of a statement is an end marker. -/
theorem tokens_ne_eof : ∀ s : Stmt, ∀ t ∈ s.tokens, t.kind ≠ .eof
  | declaration d => by rw [tokens]; exact d.tokens_ne_eof
  | expression e semicolon => by
    simp only [tokens, List.forall_mem_cons, List.forall_mem_append]
    exact ⟨e.tokens_ne_eof, semicolon.kind_ne (by decide), List.forall_mem_nil _⟩
  | print keyword e semicolon => by
    simp only [tokens, List.forall_mem_cons, List.forall_mem_append]
    exact ⟨keyword.kind_ne (by decide), e.tokens_ne_eof, semicolon.kind_ne (by decide),
      List.forall_mem_nil _⟩
  | block l body r => by
    simp only [tokens, List.forall_mem_cons, List.forall_mem_append]
    exact ⟨l.kind_ne (by decide), tokensOf_ne_eof body, r.kind_ne (by decide),
      List.forall_mem_nil _⟩
  | ifThen keyword l e r yes => by
    simp only [tokens, List.forall_mem_cons, List.forall_mem_append]
    exact ⟨keyword.kind_ne (by decide), l.kind_ne (by decide), e.tokens_ne_eof,
      r.kind_ne (by decide), tokens_ne_eof yes⟩
  | ifElse keyword l e r yes otherwise no => by
    simp only [tokens, List.forall_mem_cons, List.forall_mem_append]
    exact ⟨keyword.kind_ne (by decide), l.kind_ne (by decide), e.tokens_ne_eof,
      r.kind_ne (by decide), tokens_ne_eof yes, otherwise.kind_ne (by decide), tokens_ne_eof no⟩
  | whileLoop keyword l e r body => by
    simp only [tokens, List.forall_mem_cons, List.forall_mem_append]
    exact ⟨keyword.kind_ne (by decide), l.kind_ne (by decide), e.tokens_ne_eof,
      r.kind_ne (by decide), tokens_ne_eof body⟩
  | forLoop keyword l i e semicolon step r body => by
    simp only [tokens, List.forall_mem_cons, List.forall_mem_append]
    exact ⟨keyword.kind_ne (by decide), l.kind_ne (by decide), i.tokens_ne_eof,
      clauseTokens_ne_eof e, semicolon.kind_ne (by decide), clauseTokens_ne_eof step,
      r.kind_ne (by decide), tokens_ne_eof body⟩

/-- No token of several statements is an end marker. -/
theorem tokensOf_ne_eof : ∀ body : List Stmt, ∀ t ∈ tokensOf body, t.kind ≠ .eof
  | [] => by rw [tokensOf]; exact List.forall_mem_nil _
  | s :: rest => by
    rw [tokensOf]
    exact List.forall_mem_append.2 ⟨tokens_ne_eof s, tokensOf_ne_eof rest⟩

end

/-- A statement has a first token, which is no end of another one. -/
theorem exists_tokens_eq_cons (s : Stmt) :
    ∃ t ts, s.tokens = t :: ts ∧ t.kind ≠ .elseWord ∧ t.kind ≠ .rightBrace := by
  have hmark {k : Kind} (t : Mark k) (h : k ≠ .elseWord ∧ k ≠ .rightBrace) :
      t.1.kind ≠ .elseWord ∧ t.1.kind ≠ .rightBrace := ⟨t.kind_ne h.1, t.kind_ne h.2⟩
  cases s with
  | declaration d =>
    refine ⟨d.keyword.1, _, by rw [tokens, Declaration.tokens], ?_⟩
    rcases d.keyword.2 with hk | hk <;> rw [hk] <;> decide
  | expression e semicolon =>
    obtain ⟨t, ts, ht, hk⟩ := e.exists_tokens_eq_cons
    refine ⟨t, ts ++ [semicolon.1], by rw [tokens, ht]; rfl, ?_, ?_⟩ <;>
      exact fun h => absurd (h ▸ hk) (by decide)
  | print keyword => exact ⟨keyword.1, _, by rw [tokens], hmark keyword (by decide)⟩
  | block l => exact ⟨l.1, _, by rw [tokens], hmark l (by decide)⟩
  | ifThen keyword => exact ⟨keyword.1, _, by rw [tokens], hmark keyword (by decide)⟩
  | ifElse keyword => exact ⟨keyword.1, _, by rw [tokens], hmark keyword (by decide)⟩
  | whileLoop keyword => exact ⟨keyword.1, _, by rw [tokens], hmark keyword (by decide)⟩
  | forLoop keyword => exact ⟨keyword.1, _, by rw [tokens], hmark keyword (by decide)⟩

end Stmt
end Source
end LoxFront
