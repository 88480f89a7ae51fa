/-
# Statements that are read are written

Whatever the rules for statements read without an error in it is a statement of
the grammar: its tokens are those between the cursors, its tree is the one that
the rule gives, and no more regions stand in one another than could be opened
(`Rule.statement_sound`, `Rule.declarations_sound`).
-/

import LoxFront.Proofs.Rule.Frame
import LoxFront.Proofs.Source.ExprSound
import LoxFront.Proofs.Source.Spans

namespace LoxFront
namespace Rule

variable {n : Nat} {c d : Cursor} {t : Stmt}

/-- All that the rule reads without an error are statements. -/
def ReadsStmt (n : Nat) (r : Rule Stmt) : Prop :=
  ∀ ⦃c d : Cursor⦄ ⦃t : Stmt⦄, c.Allows n → r.Yields c t d → t.errors = [] →
    ∃ s : Source.Stmt, s.isStatement = true ∧ s.tree = t ∧ s.Spans n c d

/-- All that the rule reads without an error are insides of blocks. -/
def ReadsBlock (n : Nat) (r : Rule Stmt) : Prop :=
  ∀ ⦃c d : Cursor⦄ ⦃t : Stmt⦄, c.Allows n → r.Yields c t d → t.errors = [] →
    ∃ (body : List Source.Stmt) (closing : Source.Mark .rightBrace) (m : Cursor),
      t = .block (Source.Stmt.trees body) ∧ Source.Stmt.AllSpan body n c m ∧ m.Passes [closing.1] d

/-- A rule that reads an expression first goes on behind one that is written there, with its
tree. -/
theorem yields_expression_bind {β : Type} {f : Expr → Rule β} {b : β} (hc : c.Allows n)
    (h : (expression (.upTo n) >>= f).Yields c b d) :
    ∃ (e : Source.Expr) (m : Cursor), e.Fits 0 ∧ e.nesting ≤ n ∧ c.Passes e.tokens m ∧
      (f e.tree).Yields m b d := by
  obtain ⟨v, m, hv, h⟩ := yields_bind.1 h
  obtain ⟨e, he, rfl, hp, hn⟩ := (expression_sound n).1 hc hv
  exact ⟨e, m, he, hn, hp, h⟩

/-! ### Statements without statements in them -/

/-- All that is read behind the keyword of a declaration is written as one. -/
theorem bindingStatement_sound {b : Binding} {i : Cursor} {keyword : Token}
    (hb : binding? keyword.kind = some b) (hk : c.Passes [keyword] i) (hi : i.Allows n)
    (h : (bindingStatement (.upTo n) b).Yields i t d) :
    ∃ s : Source.Declaration, s.tree = t ∧ Source.ClauseFits s.value? ∧
      Source.clauseNesting s.value? ≤ n ∧ c.Passes s.tokens d := by
  have hword : keyword.kind = .varWord ∨ keyword.kind = .constWord :=
    (binding?_eq_some_iff.1 hb).imp And.left And.left
  have hbinding : (if keyword.kind = .constWord then Binding.const else .var) = b := by
    rcases binding?_eq_some_iff.1 hb with ⟨hw, rfl⟩ | ⟨hw, rfl⟩ <;> rw [hw] <;> rfl
  obtain ⟨name, m, hname, h⟩ := yields_expect_bind.1 h
  have hm := hi.of_passes hname
  have htree (initial : Option (Source.Mark .equal × Option Source.Expr))
      (semicolon : Source.Mark .semicolon) :
      (Source.Declaration.mk ⟨keyword, hword⟩ name initial semicolon).tree =
        .declare b name.1 (((initial.bind Prod.snd).map Source.Expr.tree).getD .empty) := by
    rw [Source.Declaration.tree, Source.Declaration.binding, hbinding]
    rfl
  rw [yields_kind_bind] at h
  split at h
  · next hs =>
    obtain ⟨hsp, h⟩ := yields_take_bind hm (by rw [hs]; decide) h
    obtain ⟨rfl, rfl⟩ := yields_pure.1 h
    exact ⟨⟨⟨keyword, hword⟩, name, none, ⟨m.peek, hs⟩⟩, htree .., Source.clauseFits_none,
      Nat.zero_le n, hk.trans (hname.trans hsp)⟩
  · next he =>
    obtain ⟨hep, h⟩ := yields_take_bind hm (by rw [he]; decide) h
    rw [yields_nextIs_bind] at h
    split at h
    · obtain ⟨semicolon, l, hs, h⟩ := yields_expect_bind.1 h
      obtain ⟨rfl, rfl⟩ := yields_pure.1 h
      exact ⟨⟨⟨keyword, hword⟩, name, some (⟨m.peek, he⟩, none), semicolon⟩, htree ..,
        Source.clauseFits_none, Nat.zero_le n, hk.trans (hname.trans (hep.trans hs))⟩
    · obtain ⟨v, l, hv, hvn, hvp, h⟩ := yields_expression_bind (hm.of_passes hep) h
      obtain ⟨semicolon, l, hs, h⟩ := yields_expect_bind.1 h
      obtain ⟨rfl, rfl⟩ := yields_pure.1 h
      exact ⟨⟨⟨keyword, hword⟩, name, some (⟨m.peek, he⟩, some v), semicolon⟩, htree ..,
        Source.clauseFits_some hv, hvn, hk.trans (hname.trans (hep.trans (hvp.trans hs)))⟩
  · exact absurd h not_yields_fail

/-- All that is read as an expression statement is written as one. -/
theorem expressionStatement_sound (hc : c.Allows n)
    (h : (expressionStatement (.upTo n)).Yields c t d) :
    ∃ (e : Source.Expr) (semicolon : Source.Mark .semicolon), t = .expression e.tree ∧
      e.Fits 0 ∧ e.nesting ≤ n ∧ c.Passes (e.tokens ++ [semicolon.1]) d := by
  obtain ⟨e, m, he, hn, hp, h⟩ := yields_expression_bind hc h
  obtain ⟨semicolon, i, hs, h⟩ := yields_expect_bind.1 h
  obtain ⟨rfl, rfl⟩ := yields_pure.1 h
  exact ⟨e, semicolon, rfl, he, hn, hp.trans hs⟩

/-- All that is read behind `print` is written as an expression and a semicolon. -/
theorem printStatement_sound (hc : c.Allows n) (h : (printStatement (.upTo n)).Yields c t d) :
    ∃ (e : Source.Expr) (semicolon : Source.Mark .semicolon), t = .print e.tree ∧
      e.Fits 0 ∧ e.nesting ≤ n ∧ c.Passes (e.tokens ++ [semicolon.1]) d := by
  obtain ⟨e, m, he, hn, hp, h⟩ := yields_expression_bind hc h
  obtain ⟨semicolon, i, hs, h⟩ := yields_expect_bind.1 h
  obtain ⟨rfl, rfl⟩ := yields_pure.1 h
  exact ⟨e, semicolon, rfl, he, hn, hp.trans hs⟩

/-- A clause that is read is written, and so is its absence. -/
theorem optional_sound {k : Kind} {o : Option Expr} (hc : c.Allows n)
    (h : (optional (.upTo n) k).Yields c o d) :
    ∃ e : Option Source.Expr, e.map Source.Expr.tree = o ∧ Source.ClauseFits e ∧
      Source.clauseNesting e ≤ n ∧ c.Passes (Source.clauseTokens e) d := by
  rw [optional, yields_nextIs_bind] at h
  split at h
  · obtain ⟨rfl, rfl⟩ := yields_pure.1 h
    exact ⟨none, rfl, Source.clauseFits_none, Nat.zero_le n, .refl d⟩
  · obtain ⟨e, m, he, hn, hp, h⟩ := yields_expression_bind hc h
    obtain ⟨rfl, rfl⟩ := yields_pure.1 h
    exact ⟨some e, rfl, Source.clauseFits_some he, hn, hp⟩

/-- All that is read as an initial clause is written as one. -/
theorem initialClause_sound {o : Option Stmt} (hc : c.Allows n)
    (h : (initialClause (.upTo n)).Yields c o d) :
    ∃ i : Source.Initial, i.tree? = o ∧ i.Fits ∧ i.nesting ≤ n ∧ c.Passes i.tokens d := by
  rw [initialClause, yields_kind_bind] at h
  split at h
  · next hs =>
    obtain ⟨hsp, h⟩ := yields_take_bind hc (by rw [hs]; decide) h
    obtain ⟨rfl, rfl⟩ := yields_pure.1 h
    exact ⟨.omitted ⟨c.peek, hs⟩, rfl, trivial, Nat.zero_le n, hsp⟩
  · split at h
    · next b hb =>
      obtain ⟨hk, h⟩ := yields_take_bind hc (ne_eof_of_binding? hb) h
      obtain ⟨s, m, hs, h⟩ := yields_bind.1 h
      obtain ⟨rfl, rfl⟩ := yields_pure.1 h
      obtain ⟨s, rfl, hf, hn, hp⟩ := bindingStatement_sound hb hk (hc.of_passes hk) hs
      exact ⟨.declaration s, rfl, hf, hn, hp⟩
    · obtain ⟨s, m, hs, h⟩ := yields_bind.1 h
      obtain ⟨rfl, rfl⟩ := yields_pure.1 h
      obtain ⟨e, semicolon, rfl, hf, hn, hp⟩ := expressionStatement_sound hc hs
      exact ⟨.expression e semicolon, rfl, hf, hn, hp⟩

/-- All that is read as a condition is written as an expression in parentheses. -/
theorem condition_sound {x y : Complaint} {v : Expr} (hc : c.Allows n)
    (h : (condition (.upTo n) x y).Yields c v d) :
    ∃ (l : Source.Mark .leftParen) (e : Source.Expr) (r : Source.Mark .rightParen), e.tree = v ∧
      Source.Stmt.SpansCondition l e r n c d := by
  obtain ⟨l, i, hl, h⟩ := yields_expect_bind.1 h
  obtain ⟨e, m, he, hn, hp, h⟩ := yields_expression_bind (hc.of_passes hl) h
  obtain ⟨r, j, hr, h⟩ := yields_expect_bind.1 h
  obtain ⟨rfl, rfl⟩ := yields_pure.1 h
  exact ⟨l, e, r, rfl, he, hn, hl.trans (hp.trans hr)⟩

/-- All that is read as the clauses of a loop is written as such. -/
theorem clauses_sound {head : Option Stmt × Option Expr × Option Expr} (hc : c.Allows n)
    (h : (clauses (.upTo n)).Yields c head d) :
    ∃ (l : Source.Mark .leftParen) (i : Source.Initial) (e : Option Source.Expr)
      (semicolon : Source.Mark .semicolon) (step : Option Source.Expr)
      (r : Source.Mark .rightParen),
      (i.tree?, e.map Source.Expr.tree, step.map Source.Expr.tree) = head ∧
        Source.Stmt.SpansClauses l i e semicolon step r n c d := by
  obtain ⟨l, i₁, hl, h⟩ := yields_expect_bind.1 h
  have h₁ := hc.of_passes hl
  obtain ⟨o, i₂, ho, h⟩ := yields_bind.1 h
  obtain ⟨i, rfl, hif, hin, hip⟩ := initialClause_sound h₁ ho
  have h₂ := h₁.of_passes hip
  obtain ⟨o, i₃, ho, h⟩ := yields_bind.1 h
  obtain ⟨e, rfl, hef, hen, hep⟩ := optional_sound h₂ ho
  obtain ⟨semicolon, i₄, hs, h⟩ := yields_expect_bind.1 h
  obtain ⟨o, i₅, ho, h⟩ := yields_bind.1 h
  obtain ⟨step, rfl, hsf, hsn, hsp⟩ := optional_sound (h₂.of_passes (hep.trans hs)) ho
  obtain ⟨r, i₆, hr, h⟩ := yields_expect_bind.1 h
  obtain ⟨rfl, rfl⟩ := yields_pure.1 h
  exact ⟨l, i, e, semicolon, step, r, rfl, ⟨hif, hef, hsf⟩, ⟨hin, hen, hsn⟩,
    hl.trans (hip.trans (hep.trans (hs.trans (hsp.trans hr))))⟩

/-! ### Statements with statements in them -/

/-- A statement read without errors in a region is written in one. -/
theorem ReadsStmt.of_nested {r : Rule Stmt} (hr : ∀ m, n = m + 1 → ReadsStmt m r)
    (hc : c.Allows n) (h : (nested r).Yields c t d) (he : t.errors = []) :
    ∃ s : Source.Stmt, s.tree = t ∧ s.SpansRegion n c d := by
  obtain ⟨m, i, rfl, hm, hi, rfl⟩ := h.of_nested hc
  obtain ⟨s, hst, ht, hs⟩ := hr m rfl hm hi he
  rw [← hs.passes.deeper_ascend] at hs
  exact ⟨s, ht, Source.Stmt.spansRegion_iff.2 ⟨hst, m, rfl, hs⟩⟩

section

variable {i : Cursor} (hs : ∀ m, n = m + 1 → ReadsStmt m (Region.upTo n).statement)
include hs

/-- Behind the first branch of an `if` there is an `else` with another one, or no
`else` at all. -/
theorem elseBranch_sound (hc : c.Allows n) {v : Expr} {yes : Stmt}
    (h : (elseBranch (.upTo n) v yes).Yields c t d) (he : t.errors = []) :
    (t = .ifThen v yes ∧ d = c ∧ c.peek.kind ≠ .elseWord) ∨
      ∃ (otherwise : Source.Mark .elseWord) (no : Source.Stmt) (m : Cursor),
        t = .ifElse v yes no.tree ∧ c.Passes [otherwise.1] m ∧ no.SpansRegion n m d := by
  rw [elseBranch, yields_nextIs_bind] at h
  cases hcheck : c.check .elseWord with
  | false =>
    rw [hcheck, if_neg Bool.false_ne_true] at h
    obtain ⟨rfl, rfl⟩ := yields_pure.1 h
    refine .inl ⟨rfl, rfl, fun helse => ?_⟩
    have hend := Cursor.isAtEnd_eq_false hc.marker_kind (by rw [helse]; decide)
    rw [Cursor.check_eq_true_iff.2 ⟨hend, helse⟩] at hcheck
    exact absurd hcheck (by decide)
  | true =>
    obtain ⟨-, helse⟩ := Cursor.check_eq_true_iff.1 hcheck
    rw [hcheck, if_pos rfl] at h
    obtain ⟨hop, h⟩ := yields_take_bind hc (by rw [helse]; decide) h
    obtain ⟨z, m, hz, h⟩ := yields_bind.1 h
    obtain ⟨rfl, rfl⟩ := yields_pure.1 h
    rw [Stmt.errors_ifElse, List.append_eq_nil_iff, List.append_eq_nil_iff] at he
    obtain ⟨no, rfl, hno⟩ := ReadsStmt.of_nested hs (hc.of_passes hop) hz he.2.2
    exact .inr ⟨⟨c.peek, helse⟩, no, c.next, rfl, hop, hno⟩

/-- A conditional read without errors is written as one, with or without `else`. -/
theorem ifStatement_sound (keyword : Source.Mark .ifWord) (hk : c.Passes [keyword.1] i)
    (hi : i.Allows n) (h : (ifStatement (.upTo n)).Yields i t d) (he : t.errors = []) :
    ∃ s : Source.Stmt, s.isStatement = true ∧ s.tree = t ∧ s.Spans n c d := by
  rw [ifStatement_eq] at h
  obtain ⟨v, m, hv, h⟩ := yields_bind.1 h
  obtain ⟨l, e, r, rfl, hhead⟩ := condition_sound hi hv
  obtain ⟨y, j, hy, h⟩ := yields_bind.1 h
  have hm := hi.of_passes hhead.passes
  have hnested := obeys_nested frame_composes (Region.obeys_upTo frame_recovers n).statement
  have hj := hm.of_reaches (hy.reaches hnested)
  rcases elseBranch_sound hs hj h he with ⟨rfl, rfl, hne⟩ | ⟨otherwise, no, b, rfl, ho, hno⟩
  · rw [Stmt.errors_ifThen, List.append_eq_nil_iff] at he
    obtain ⟨yes, rfl, hyes⟩ := ReadsStmt.of_nested hs hm hy he.2
    exact ⟨.ifThen keyword l e r yes, rfl, by rw [Source.Stmt.tree],
      Source.Stmt.spans_ifThen_iff.2 ⟨i, m, hk, hhead, hyes, hne⟩⟩
  · rw [Stmt.errors_ifElse, List.append_eq_nil_iff, List.append_eq_nil_iff] at he
    obtain ⟨yes, rfl, hyes⟩ := ReadsStmt.of_nested hs hm hy he.2.1
    exact ⟨.ifElse keyword l e r yes otherwise no, rfl, by rw [Source.Stmt.tree],
      Source.Stmt.spans_ifElse_iff.2 ⟨i, m, j, b, hk, hhead, hyes, ho, hno⟩⟩

/-- A loop read without errors is written as one. -/
theorem whileStatement_sound (keyword : Source.Mark .whileWord) (hk : c.Passes [keyword.1] i)
    (hi : i.Allows n) (h : (whileStatement (.upTo n)).Yields i t d) (he : t.errors = []) :
    ∃ s : Source.Stmt, s.isStatement = true ∧ s.tree = t ∧ s.Spans n c d := by
  rw [whileStatement_eq] at h
  obtain ⟨v, m, hv, h⟩ := yields_bind.1 h
  obtain ⟨l, e, r, rfl, hhead⟩ := condition_sound hi hv
  obtain ⟨b, j, hb, h⟩ := yields_bind.1 h
  obtain ⟨rfl, rfl⟩ := yields_pure.1 h
  rw [Stmt.errors_whileLoop, List.append_eq_nil_iff] at he
  obtain ⟨body, rfl, hbody⟩ := ReadsStmt.of_nested hs (hi.of_passes hhead.passes) hb he.2
  exact ⟨.whileLoop keyword l e r body, rfl, by rw [Source.Stmt.tree],
    Source.Stmt.spans_whileLoop_iff.2 ⟨i, m, hk, hhead, hbody⟩⟩

/-- A tree read from a `for` loop without errors is that of a loop that is written. -/
theorem forStatement_sound (keyword : Source.Mark .forWord) (hk : c.Passes [keyword.1] i)
    (hi : i.Allows n) (h : (forStatement (.upTo n) keyword.1).Yields i t d) (he : t.errors = []) :
    ∃ s : Source.Stmt, s.isStatement = true ∧ s.tree = t ∧ s.Spans n c d := by
  rw [forStatement_eq] at h
  obtain ⟨head, m, hh, h⟩ := yields_bind.1 h
  obtain ⟨l, initial, e, semicolon, step, r, rfl, hhead⟩ := clauses_sound hi hh
  obtain ⟨b, j, hb, h⟩ := yields_bind.1 h
  obtain ⟨rfl, rfl⟩ := yields_pure.1 h
  rw [Stmt.errors_forLoop] at he
  simp only [List.append_eq_nil_iff] at he
  obtain ⟨body, rfl, hbody⟩ := ReadsStmt.of_nested hs (hi.of_passes hhead.passes) hb he.2.2.1
  exact ⟨.forLoop keyword l initial e semicolon step r body, rfl, by rw [Source.Stmt.tree],
    Source.Stmt.spans_forLoop_iff.2 ⟨i, m, hk, hhead, hbody⟩⟩

/-- A statement read without errors is written as one, if that holds of blocks in a region. -/
theorem statement_sound_of (hb : ∀ m, n = m + 1 → ReadsBlock m (Region.upTo n).block) :
    ReadsStmt n (statement (.upTo n)) := by
  intro c d t hc h he
  rw [statement, yields_kind_bind] at h
  split at h
  · next hk =>
    obtain ⟨hp, h⟩ := yields_take_bind hc (by rw [hk]; decide) h
    obtain ⟨e, semicolon, rfl, hf, hn, hep⟩ := printStatement_sound (hc.of_passes hp) h
    exact ⟨.print ⟨c.peek, hk⟩ e semicolon, rfl, by rw [Source.Stmt.tree],
      Source.Stmt.spans_print_iff.2 ⟨c.next, hp, hf, hn, hep⟩⟩
  · next hk =>
    obtain ⟨hp, h⟩ := yields_take_bind hc (by rw [hk]; decide) h
    obtain ⟨m, j, rfl, hm, hj, rfl⟩ := Yields.of_nested (hc.of_passes hp) h
    obtain ⟨body, closing, l, rfl, hbody, hl⟩ := hb m rfl hm hj he
    rw [← hbody.passes.deeper_ascend] at hl hbody
    exact ⟨.block ⟨c.peek, hk⟩ body closing, rfl, by rw [Source.Stmt.tree],
      Source.Stmt.spans_block_iff.2 ⟨c.next, l.ascend, m, hp, rfl, hbody, hl.ascend⟩⟩
  · next hk =>
    obtain ⟨hp, h⟩ := yields_take_bind hc (by rw [hk]; decide) h
    exact ifStatement_sound hs ⟨c.peek, hk⟩ hp (hc.of_passes hp) h he
  · next hk =>
    obtain ⟨hp, h⟩ := yields_take_bind hc (by rw [hk]; decide) h
    exact forStatement_sound hs ⟨c.peek, hk⟩ hp (hc.of_passes hp) h he
  · next hk =>
    obtain ⟨hp, h⟩ := yields_take_bind hc (by rw [hk]; decide) h
    exact whileStatement_sound hs ⟨c.peek, hk⟩ hp (hc.of_passes hp) h he
  · obtain ⟨e, semicolon, rfl, hspan⟩ := expressionStatement_sound hc h
    exact ⟨.expression e semicolon, rfl, by rw [Source.Stmt.tree],
      Source.Stmt.spans_expression_iff.2 hspan⟩

end

/-! ### Declarations -/

/-- A declaration without errors is a declaration of the grammar or a statement. -/
def ReadsItem (n : Nat) (item : Cursor → Parsed Stmt) : Prop :=
  ∀ ⦃c : Cursor⦄, c.Allows n → (item c).value.errors = [] →
    ∃ s : Source.Stmt, s.tree = (item c).value ∧ s.Spans n c (item c).cursor

/-- A declaration read without errors is written as one, if that holds of statements. -/
theorem declaration_sound_of (hs : ReadsStmt n (statement (.upTo n))) :
    ReadsItem n (declaration (.upTo n)) := by
  intro c hc he
  rw [declaration_eq] at he ⊢
  cases hv : (item (.upTo n) c).value with
  | error e =>
    rw [recover_of_error hv, Stmt.errors_error] at he
    exact absurd he (List.cons_ne_nil _ _)
  | ok t =>
    rw [recover_of_ok hv] at he ⊢
    have h : (item (.upTo n)).Yields c t (item (.upTo n) c).cursor := ⟨hv, rfl⟩
    rw [item, yields_kind_bind] at h
    split at h
    · next b hb =>
      obtain ⟨hk, h⟩ := yields_take_bind hc (ne_eof_of_binding? hb) h
      obtain ⟨s, rfl, hspan⟩ := bindingStatement_sound hb hk (hc.of_passes hk) h
      exact ⟨.declaration s, by rw [Source.Stmt.tree], Source.Stmt.spans_declaration_iff.2 hspan⟩
    · obtain ⟨s, -, rfl, hspan⟩ := hs hc h he
      exact ⟨s, rfl, hspan⟩

/-- Declarations read without errors are written one behind the other. -/
theorem declarations_sound {item : Cursor → Parsed Stmt} (hi : ReadsItem n item)
    {more : List Token} (hc : c.Allows n)
    (he : Stmt.errorsOf (declarations item more c).value = []) :
    ∃ body : List Source.Stmt, Source.Stmt.trees body = (declarations item more c).value ∧
      Source.Stmt.AllSpan body n c (declarations item more c).cursor := by
  induction more generalizing c with
  | nil => exact ⟨[], by rw [Source.Stmt.trees, declarations], .nil n c⟩
  | cons _ more ih =>
    rw [declarations] at he ⊢
    split at he
    · next hend =>
      rw [if_pos hend]
      exact ⟨[], by rw [Source.Stmt.trees], .nil n c⟩
    · next hend =>
      rw [if_neg hend]
      rw [Stmt.errorsOf_cons, List.append_eq_nil_iff] at he
      obtain ⟨s, ht, hs⟩ := hi hc he.1
      obtain ⟨body, hts, hbody⟩ := ih (hc.of_passes hs.passes) he.2
      exact ⟨s :: body, by rw [Source.Stmt.trees, ht, hts], .cons hs hbody⟩

/-- A block read without errors is written between its braces, if that holds of declarations. -/
theorem block_sound_of (hi : ReadsItem n (declaration (.upTo n))) :
    ReadsBlock n (block (.upTo n)) := by
  intro c d t hc h he
  obtain ⟨body, m, ⟨hv, rfl⟩, h⟩ := yields_bind.1 h
  rw [yields_nextIs_bind] at h
  split at h
  · next hcheck =>
    obtain ⟨hend, hk⟩ := Cursor.check_eq_true_iff.1 hcheck
    obtain ⟨o, j, ho, h⟩ := yields_bind.1 h
    obtain ⟨rfl, rfl⟩ := yields_take.1 ho
    obtain ⟨rfl, rfl⟩ := yields_pure.1 h
    obtain rfl := Except.ok.inj hv
    rw [Stmt.errors_block] at he
    obtain ⟨body, hts, hbody⟩ := declarations_sound hi hc he
    exact ⟨body, ⟨_, hk⟩, _, by rw [hts], hbody, Cursor.passes_next hend⟩
  · -- an open block is an error, whether others stand in it or not
    obtain ⟨e, j, -, h⟩ := yields_bind.1 h
    split at h
    · obtain ⟨rfl, rfl⟩ := yields_pure.1 h
      rw [Stmt.errors_block, Stmt.errorsOf_append, List.append_eq_nil_iff] at he
      simp at he
    · exact absurd h.1 (fun h => nomatch h)

/-- **Whatever is read as a statement without errors is written as one.** -/
theorem statement_sound (n : Nat) :
    ReadsStmt n (statement (.upTo n)) ∧ ReadsBlock n (block (.upTo n)) := by
  induction n with
  | zero =>
    have hs := statement_sound_of (n := 0) (fun m hm => nomatch hm) (fun m hm => nomatch hm)
    exact ⟨hs, block_sound_of (declaration_sound_of hs)⟩
  | succ n ih =>
    have hs := statement_sound_of (n := n + 1) (fun m hm => Nat.succ.inj hm ▸ ih.1)
      (fun m hm => Nat.succ.inj hm ▸ ih.2)
    exact ⟨hs, block_sound_of (declaration_sound_of hs)⟩

/-- A declaration read without errors is written as one, whatever the number of regions. -/
theorem declaration_sound (n : Nat) : ReadsItem n (declaration (.upTo n)) :=
  declaration_sound_of (statement_sound n).1

end Rule
end LoxFront
