/-
# Statements that are written are read

A rule for statements reads every statement of the grammar that stands at the
cursor, up to its last token, if no `else` follows that an `if` at its end could
take (`Rule.statement_complete`, `Rule.declarations_complete`).  Only if a token of
it opens a region too many it fails, and then first behind that token.
-/

import LoxFront.Proofs.Rule.Progress
import LoxFront.Proofs.Source.ExprComplete
import LoxFront.Proofs.Source.StmtSound

namespace LoxFront
namespace Rule

variable {n b : Nat} {c d : Cursor}

/-- All statements that stand at a cursor are read, up to the first region too
many. -/
def ReadsAllStmt (n : Nat) (r : Rule Stmt) : Prop :=
  ∀ ⦃c d : Cursor⦄ ⦃s : Source.Stmt⦄ ⦃b : Nat⦄, c.Allows n → s.isStatement = true → s.Spans b c d →
    r.ReadsUnless (c.limit s.levels) c s.tree d

/-- All insides of blocks that stand at a cursor are read, up to the first region too
many. -/
def ReadsAllBlock (n : Nat) (r : Rule Stmt) : Prop :=
  ∀ ⦃c m d : Cursor⦄ ⦃body : List Source.Stmt⦄ ⦃b : Nat⦄ (closing : Source.Mark .rightBrace),
    c.Allows n → Source.Stmt.AllSpan body b c m → m.Passes [closing.1] d →
      r.ReadsUnless (c.limit (Source.Stmt.levelsOf body)) c (.block (Source.Stmt.trees body)) d

/-- An expression is read if a token follows that ends every expression. -/
theorem expression_complete_before {e : Source.Expr} {m i : Cursor} {k : Kind}
    {t : Source.Mark k} (hk : k.Closes 0) (hc : c.Allows n) (he : e.Fits 0)
    (hp : c.Passes e.tokens m) (ht : m.Passes [t.1] i) :
    (expression (.upTo n)).ReadsUnless (c.limit e.levels) c e.tree m := by
  have hcloses : m.peek.kind.Closes 0 := by rw [ht.peek, t.2]; exact hk
  exact (expression_complete n).1 hc he hp hcloses

/-- A mark at the cursor passes the check for its kind. -/
theorem check_eq_true {k : Kind} (t : Source.Mark k) (h : c.Passes [t.1] d) : c.check k = true :=
  Cursor.check_eq_true_iff.2 ⟨h.isAtEnd, by rw [h.peek, t.2]⟩

/-- No check finds a kind that does not stand at the cursor. -/
theorem check_eq_false {k : Kind} (h : c.peek.kind ≠ k) : c.check k = false := by
  rw [Bool.eq_false_iff, Ne, Cursor.check_eq_true_iff]
  exact fun hk => h hk.2

/-- No expression begins with this kind of token. -/
theorem peek_beginsExpr {e : Source.Expr} (h : c.Passes e.tokens d) : c.peek.kind.BeginsExpr := by
  obtain ⟨t, ts, ht, hk⟩ := e.exists_tokens_eq_cons
  rw [ht] at h
  rw [h.peek]
  exact hk

/-! ### Statements without statements in them -/

/-- A clause is read, or its absence, up to the token that closes it. -/
theorem optional_complete {k : Kind} (hk : ¬k.BeginsExpr) (hcl : k.Closes 0)
    {e : Option Source.Expr} {t : Source.Mark k} {i : Cursor} (hc : c.Allows n)
    (he : Source.ClauseFits e) (hp : c.Passes (Source.clauseTokens e) d) (ht : d.Passes [t.1] i) :
    (optional (.upTo n) k).ReadsUnless (c.limit (Source.clauseLevels e)) c
      (e.map Source.Expr.tree) d := by
  rw [optional, readsUnless_nextIs_bind]
  cases e with
  | none =>
    obtain rfl := Cursor.passes_nil_iff.1 hp
    rw [check_eq_true t ht]
    exact reads_pure _ d
  | some e =>
    have hne : c.peek.kind ≠ k := fun h => hk (h ▸ peek_beginsExpr hp)
    rw [check_eq_false hne]
    exact (expression_complete_before hcl hc (he e rfl) hp ht).bind_reads (reads_pure _ d)

/-- An expression is read with the semicolon behind it. -/
theorem expression_complete_semicolon {e : Source.Expr} {semicolon : Source.Mark .semicolon}
    {y : Complaint} {f : LoxFront.Expr → Stmt} (hc : c.Allows n) (he : e.Fits 0)
    (hp : c.Passes (e.tokens ++ [semicolon.1]) d) :
    (expression (.upTo n) >>= fun v => expect .semicolon y >>= fun _ =>
      (pure (f v) : Rule Stmt)).ReadsUnless (c.limit e.levels) c (f e.tree) d := by
  obtain ⟨m, hep, hs⟩ := Cursor.passes_append_iff.1 hp
  exact (expression_complete_before (by decide) hc he hep hs).bind_reads
    (.expect_bind semicolon.2 hs (reads_pure _ d))

/-- All expression statements are read, up to the limit. -/
theorem expressionStatement_complete {e : Source.Expr} {semicolon : Source.Mark .semicolon}
    (hc : c.Allows n) (he : e.Fits 0) (hp : c.Passes (e.tokens ++ [semicolon.1]) d) :
    (expressionStatement (.upTo n)).ReadsUnless (c.limit e.levels) c (.expression e.tree) d :=
  expression_complete_semicolon hc he hp

/-- All print statements are read, up to the limit. -/
theorem printStatement_complete {e : Source.Expr} {semicolon : Source.Mark .semicolon}
    (hc : c.Allows n) (he : e.Fits 0) (hp : c.Passes (e.tokens ++ [semicolon.1]) d) :
    (printStatement (.upTo n)).ReadsUnless (c.limit e.levels) c (.print e.tree) d :=
  expression_complete_semicolon hc he hp

/-- The keyword of a declaration tells its binding. -/
theorem binding?_keyword (s : Source.Declaration) : binding? s.keyword.1.kind = some s.binding := by
  rw [binding?_eq_some_iff, Source.Declaration.binding]
  rcases s.keyword.2 with h | h <;> rw [h] <;> decide

/-- A declaration is read behind its keyword. -/
theorem bindingStatement_complete {s : Source.Declaration} (hc : c.Allows n)
    (hf : Source.ClauseFits s.value?) (hp : c.Passes s.tokens d) :
    ∃ i, c.Passes [s.keyword.1] i ∧
      (bindingStatement (.upTo n) s.binding).ReadsUnless (c.limit s.levels) i s.tree d := by
  obtain ⟨i, hk, hp⟩ := Cursor.passes_cons_iff.1 hp
  obtain ⟨m, hname, hp⟩ := Cursor.passes_cons_iff.1 hp
  obtain ⟨j, hp, hs⟩ := Cursor.passes_append_iff.1 hp
  have hlimit : c.limit s.levels =
      m.limit fun d => s.initial.elim [] fun i => none :: Source.clauseLevels i.2 d :=
    (hk.limit_cons.trans hname.limit_cons).trans Cursor.limit_concat
  refine ⟨i, hk, .expect_bind s.name.2 hname ?_⟩
  have hm := hc.of_passes (hk.trans hname)
  rw [readsUnless_kind_bind, Source.Declaration.tree, hlimit]
  rw [Source.Declaration.value?] at hf ⊢
  rcases hi : s.initial with _ | ⟨equals, v⟩
  · rw [hi] at hp
    obtain rfl := Cursor.passes_nil_iff.1 hp
    rw [hs.peek, s.semicolon.2]
    exact .take_bind hs (reads_pure _ d)
  · rw [hi] at hp hf
    obtain ⟨l, hequals, hvp⟩ := Cursor.passes_cons_iff.1 hp
    have hvalue : m.limit (fun d => none :: Source.clauseLevels v d) =
      l.limit (Source.clauseLevels v) := hequals.limit_cons
    have hend {value : Expr} : (do
        let _ ← expect .semicolon .declarationEnd
        return .declare s.binding s.name.1 value : Rule Stmt).Reads j
          (.declare s.binding s.name.1 value) d :=
      .expect_bind s.semicolon.2 hs (reads_pure _ d)
    simp only [Option.elim_some]
    rw [hequals.peek, equals.2, hvalue]
    refine .take_bind hequals ?_
    rw [readsUnless_nextIs_bind]
    cases v with
    | none =>
      obtain rfl := Cursor.passes_nil_iff.1 hvp
      rw [check_eq_true s.semicolon hs]
      exact hend
    | some v =>
      have hne : l.peek.kind ≠ .semicolon := fun h => absurd (h ▸ peek_beginsExpr hvp) (by decide)
      rw [check_eq_false hne]
      exact (expression_complete_before (by decide) (hm.of_passes hequals) (hf v rfl) hvp
        hs).bind_reads hend

/-- What begins an expression begins no declaration. -/
theorem binding?_eq_none {k : Kind} (h : k.BeginsExpr) : binding? k = none := by
  cases k <;> first | rfl | exact absurd h (by decide)

/-- All initial clauses are read, up to the limit. -/
theorem initialClause_complete {s : Source.Initial} (hc : c.Allows n) (hf : s.Fits)
    (hp : c.Passes s.tokens d) :
    (initialClause (.upTo n)).ReadsUnless (c.limit s.levels) c s.tree? d := by
  rw [initialClause, readsUnless_kind_bind]
  cases s with
  | omitted semicolon =>
    have hs : c.Passes [semicolon.1] d := hp
    rw [hs.peek, semicolon.2]
    exact .take_bind hs (reads_pure _ d)
  | declaration s =>
    obtain ⟨i, hk, hs⟩ := bindingStatement_complete hc hf hp
    have hne : s.keyword.1.kind ≠ .semicolon := by
      rcases s.keyword.2 with h | h <;> rw [h] <;> decide
    rw [hk.peek]
    split
    · next hkind => exact absurd hkind hne
    · rw [binding?_keyword]
      exact .take_bind hk (hs.bind_reads (reads_pure _ d))
  | expression e semicolon =>
    obtain ⟨m, hep, hs⟩ := Cursor.passes_append_iff.1 hp
    have hbegins := peek_beginsExpr hep
    have hlimit : c.limit (Source.Initial.expression e semicolon).levels = c.limit e.levels :=
      Cursor.limit_concat
    split
    · next hkind => exact absurd (hkind ▸ hbegins) (by decide)
    · rw [binding?_eq_none hbegins, hlimit]
      exact (expressionStatement_complete hc hf hp).bind_reads (reads_pure _ d)

/-- All conditions in parentheses are read, up to the limit. -/
theorem condition_complete {x y : Complaint} {l : Source.Mark .leftParen} {e : Source.Expr}
    {r : Source.Mark .rightParen} (hc : c.Allows n) (h : Source.Stmt.SpansCondition l e r b c d) :
    (condition (.upTo n) x y).ReadsUnless (c.limit fun d => none :: e.levels d) c e.tree d := by
  obtain ⟨he, -, hp⟩ := h
  obtain ⟨i, hl, hp⟩ := Cursor.passes_cons_iff.1 hp
  obtain ⟨m, hep, hr⟩ := Cursor.passes_append_iff.1 hp
  rw [hl.limit_cons]
  refine .expect_bind l.2 hl ?_
  exact (expression_complete_before (by decide) (hc.of_passes hl) he hep hr).bind_reads
    (.expect_bind r.2 hr (reads_pure _ d))

/-- All clauses of a loop are read, up to the limit. -/
theorem clauses_complete {l : Source.Mark .leftParen} {s : Source.Initial}
    {e step : Option Source.Expr} {semicolon : Source.Mark .semicolon}
    {r : Source.Mark .rightParen} (hc : c.Allows n)
    (h : Source.Stmt.SpansClauses l s e semicolon step r b c d) :
    (clauses (.upTo n)).ReadsUnless (c.limit (Source.clausesLevels s e step)) c
      (s.tree?, e.map Source.Expr.tree, step.map Source.Expr.tree) d := by
  obtain ⟨⟨hsf, hef, hstepf⟩, -, hp⟩ := h
  obtain ⟨i₁, hl, hp⟩ := Cursor.passes_cons_iff.1 hp
  obtain ⟨i₂, hsp, hp⟩ := Cursor.passes_append_iff.1 hp
  obtain ⟨i₃, hep, hp⟩ := Cursor.passes_append_iff.1 hp
  obtain ⟨i₄, hsemi, hp⟩ := Cursor.passes_cons_iff.1 hp
  obtain ⟨i₅, hstepp, hr⟩ := Cursor.passes_append_iff.1 hp
  have h₁ := hc.of_passes hl
  have h₂ := h₁.of_passes hsp
  have h₄ := h₂.of_passes (hep.trans hsemi)
  have hlimit : c.limit (Source.clausesLevels s e step) = (i₁.limit s.levels).or
      ((i₂.limit (Source.clauseLevels e)).or (i₄.limit (Source.clauseLevels step))) := by
    rw [← hsemi.limit_cons, ← hep.limit_append (Source.length_clauseLevels e),
      ← hsp.limit_append s.length_levels]
    exact hl.limit_cons
  rw [hlimit]
  refine .expect_bind l.2 hl ?_
  refine .bind (initialClause_complete h₁ hsf hsp) ?_
  refine .bind (optional_complete (by decide) (by decide) h₂ hef hep hsemi) ?_
  refine .expect_bind semicolon.2 hsemi ?_
  refine .bind_reads (optional_complete (by decide) (by decide) h₄ hstepf hstepp hr) ?_
  exact .expect_bind r.2 hr (reads_pure _ d)

/-! ### Statements with statements in them -/

section

variable {l : Source.Mark .leftParen} {r : Source.Mark .rightParen} {place : Option Nat}
  {behind : Nat → List (Option Nat)}

/-- In a condition regions too many are opened before they are behind it. -/
theorem limit_condition {e : Source.Expr} (h : Source.Stmt.SpansCondition l e r b c d)
    (hplace : ∀ {i : Cursor}, i.Passes [r.1] d → i.limit behind = place) :
    c.limit (fun d => none :: (e.levels d ++ behind d)) =
      (c.limit fun d => none :: e.levels d).or place := by
  have hp : c.Passes ((l.1 :: e.tokens) ++ [r.1]) d := h.passes
  have hlength (d : Nat) : (none :: e.levels d).length = (l.1 :: e.tokens).length :=
    congrArg (· + 1) (e.length_levels d)
  exact hp.limit_closed hlength hplace

/-- Behind the clauses of a loop the limit is left to what follows them. -/
theorem limit_clauses {s : Source.Initial} {e step : Option Source.Expr}
    {semicolon : Source.Mark .semicolon}
    (h : Source.Stmt.SpansClauses l s e semicolon step r b c d)
    (hplace : ∀ {i : Cursor}, i.Passes [r.1] d → i.limit behind = place) :
    c.limit (fun d => Source.clausesLevels s e step d ++ behind d) =
      (c.limit (Source.clausesLevels s e step)).or place := by
  have hp : c.Passes ((l.1 :: (s.tokens ++ (Source.clauseTokens e ++
      semicolon.1 :: Source.clauseTokens step))) ++ [r.1]) d := by simpa using h.passes
  refine hp.limit_closed (fun d => ?_) hplace
  simp [Source.clausesLevels, s.length_levels, Source.length_clauseLevels]

end

/-- A rule that reads all statements reads them in a region as well, up to the limit. -/
theorem ReadsAllStmt.nested {r : Rule Stmt} (hr : ∀ m, n = m + 1 → ReadsAllStmt m r)
    {s : Source.Stmt} (hc : c.Allows n) (h : s.SpansRegion b c d) :
    (nested r).ReadsUnless (c.regionLimit s.levels) c s.tree d := by
  obtain ⟨hst, j, rfl, hs⟩ := Source.Stmt.spansRegion_iff.1 h
  refine ReadsUnless.nested hc fun m hm => ?_
  subst hm
  exact hr m rfl hc.deeper hst hs

section

variable (hs : ∀ m, n = m + 1 → ReadsAllStmt m (Region.upTo n).statement)
include hs

section

variable {i : Cursor} {l : Source.Mark .leftParen} {e : Source.Expr} {r : Source.Mark .rightParen}

/-- All conditionals without `else` are read, up to the limit. -/
theorem ifStatement_complete_then {yes : Source.Stmt} (hi : i.Allows n)
    (hhead : Source.Stmt.SpansCondition l e r b i c) (hyes : yes.SpansRegion b c d)
    (hne : d.peek.kind ≠ .elseWord) :
    (ifStatement (.upTo n)).ReadsUnless
      ((i.limit fun d => none :: e.levels d).or (c.regionLimit yes.levels)) i
      (.ifThen e.tree yes.tree) d := by
  have hm := hi.of_passes hhead.passes
  rw [ifStatement_eq]
  refine .bind (condition_complete hi hhead) (.bind_reads (ReadsAllStmt.nested hs hm hyes) ?_)
  show ReadsUnless none _ _ _ _
  rw [elseBranch, readsUnless_nextIs_bind, check_eq_false hne]
  exact reads_pure _ d

/-- All conditionals with `else` are read, up to the limit in the first branch and then in the
second. -/
theorem ifStatement_complete_else {yes no : Source.Stmt} {otherwise : Source.Mark .elseWord}
    {j k : Cursor} (hi : i.Allows n) (hhead : Source.Stmt.SpansCondition l e r b i c)
    (hyes : yes.SpansRegion b c j) (ho : j.Passes [otherwise.1] k) (hno : no.SpansRegion b k d) :
    (ifStatement (.upTo n)).ReadsUnless ((i.limit fun d => none :: e.levels d).or
      ((c.regionLimit yes.levels).or (k.regionLimit no.levels))) i
      (.ifElse e.tree yes.tree no.tree) d := by
  have hm := hi.of_passes hhead.passes
  have hk := hm.of_passes (hyes.passes.trans ho)
  rw [ifStatement_eq]
  refine .bind (condition_complete hi hhead) (.bind (ReadsAllStmt.nested hs hm hyes) ?_)
  rw [elseBranch, readsUnless_nextIs_bind, check_eq_true otherwise ho]
  exact .take_bind ho (.bind_reads (ReadsAllStmt.nested hs hk hno) (reads_pure _ d))

/-- All loops are read, up to the limit. -/
theorem whileStatement_complete {body : Source.Stmt} (hi : i.Allows n)
    (hhead : Source.Stmt.SpansCondition l e r b i c) (hbody : body.SpansRegion b c d) :
    (whileStatement (.upTo n)).ReadsUnless
      ((i.limit fun d => none :: e.levels d).or (c.regionLimit body.levels)) i
      (.whileLoop e.tree body.tree) d := by
  have hm := hi.of_passes hhead.passes
  rw [whileStatement_eq]
  exact .bind (condition_complete hi hhead)
    (.bind_reads (ReadsAllStmt.nested hs hm hbody) (reads_pure _ d))

end

/-- All `for` loops are read, up to the limit, to the tree that they are written for. -/
theorem forStatement_complete {keyword : Source.Mark .forWord} {l : Source.Mark .leftParen}
    {initial : Source.Initial} {e step : Option Source.Expr} {semicolon : Source.Mark .semicolon}
    {r : Source.Mark .rightParen} {body : Source.Stmt} {i : Cursor} (hi : i.Allows n)
    (hhead : Source.Stmt.SpansClauses l initial e semicolon step r b i c)
    (hbody : body.SpansRegion b c d) :
    (forStatement (.upTo n) keyword.1).ReadsUnless
      ((i.limit (Source.clausesLevels initial e step)).or (c.regionLimit body.levels)) i
      (Source.Stmt.forLoop keyword l initial e semicolon step r body).tree d := by
  have hm := hi.of_passes hhead.passes
  rw [forStatement_eq, Source.Stmt.tree]
  exact .bind (clauses_complete hi hhead)
    (.bind_reads (ReadsAllStmt.nested hs hm hbody) (reads_pure _ d))

/-- All statements are read, if all blocks in a region are. -/
theorem statement_complete_of (hb : ∀ m, n = m + 1 → ReadsAllBlock m (Region.upTo n).block) :
    ReadsAllStmt n (statement (.upTo n)) := by
  intro c d s b hc hst h
  rw [statement, readsUnless_kind_bind]
  cases s with
  | declaration => simp [Source.Stmt.isStatement] at hst
  | expression e semicolon =>
    obtain ⟨hf, -, hp⟩ := Source.Stmt.spans_expression_iff.1 h
    have hread := expressionStatement_complete hc hf hp
    obtain ⟨m, hep, -⟩ := Cursor.passes_append_iff.1 hp
    have hbegins := peek_beginsExpr hep
    have hlimit : c.limit (Source.Stmt.expression e semicolon).levels = c.limit e.levels :=
      Cursor.limit_concat
    rw [Source.Stmt.tree, hlimit]
    -- no keyword of a statement begins an expression
    split
    · next hk => exact absurd (hk ▸ hbegins) (by decide)
    · next hk => exact absurd (hk ▸ hbegins) (by decide)
    · next hk => exact absurd (hk ▸ hbegins) (by decide)
    · next hk => exact absurd (hk ▸ hbegins) (by decide)
    · next hk => exact absurd (hk ▸ hbegins) (by decide)
    · exact hread
  | print keyword e semicolon =>
    obtain ⟨i, hk, hf, -, hp⟩ := Source.Stmt.spans_print_iff.1 h
    have hlimit : c.limit (Source.Stmt.print keyword e semicolon).levels = i.limit e.levels :=
      hk.limit_cons.trans Cursor.limit_concat
    rw [hk.peek, keyword.2, Source.Stmt.tree, hlimit]
    exact .take_bind hk (printStatement_complete (hc.of_passes hk) hf hp)
  | block opening body closing =>
    obtain ⟨i, m, k, hk, rfl, hbody, hclosing⟩ := Source.Stmt.spans_block_iff.1 h
    have hi := hc.of_passes hk
    have hlimit : c.limit (Source.Stmt.block opening body closing).levels =
        i.regionLimit (Source.Stmt.levelsOf body) :=
      (hk.limit_region_append hbody.passes.ascend (Source.Stmt.length_levelsOf body)).trans
        Option.or_none
    rw [hk.peek, opening.2, Source.Stmt.tree, hlimit]
    refine .take_bind hk (.nested hi fun j hj => ?_)
    subst hj
    exact hb j rfl closing hi.deeper hbody hclosing.deeper
  | ifThen keyword l e r yes =>
    obtain ⟨i, m, hk, hhead, hyes, hne⟩ := Source.Stmt.spans_ifThen_iff.1 h
    have hlimit : c.limit (Source.Stmt.ifThen keyword l e r yes).levels =
        (i.limit fun d => none :: e.levels d).or (m.regionLimit yes.levels) :=
      hk.limit_cons.trans (limit_condition hhead Cursor.Passes.limit_region)
    rw [hk.peek, keyword.2, Source.Stmt.tree, hlimit]
    exact .take_bind hk (ifStatement_complete_then hs (hc.of_passes hk) hhead hyes hne)
  | ifElse keyword l e r yes otherwise no =>
    obtain ⟨i, m, j, k, hk, hhead, hyes, ho, hno⟩ := Source.Stmt.spans_ifElse_iff.1 h
    have hlimit : c.limit (Source.Stmt.ifElse keyword l e r yes otherwise no).levels =
        (i.limit fun d => none :: e.levels d).or
          ((m.regionLimit yes.levels).or (k.regionLimit no.levels)) := by
      refine hk.limit_cons.trans (limit_condition hhead fun hr => ?_)
      rw [← ho.limit_region]
      exact hr.limit_region_append hyes.passes yes.length_levels
    rw [hk.peek, keyword.2, Source.Stmt.tree, hlimit]
    exact .take_bind hk (ifStatement_complete_else hs (hc.of_passes hk) hhead hyes ho hno)
  | whileLoop keyword l e r body =>
    obtain ⟨i, m, hk, hhead, hbody⟩ := Source.Stmt.spans_whileLoop_iff.1 h
    have hlimit : c.limit (Source.Stmt.whileLoop keyword l e r body).levels =
        (i.limit fun d => none :: e.levels d).or (m.regionLimit body.levels) :=
      hk.limit_cons.trans (limit_condition hhead Cursor.Passes.limit_region)
    rw [hk.peek, keyword.2, Source.Stmt.tree, hlimit]
    exact .take_bind hk (whileStatement_complete hs (hc.of_passes hk) hhead hbody)
  | forLoop keyword l initial e semicolon step r body =>
    obtain ⟨i, m, hk, hhead, hbody⟩ := Source.Stmt.spans_forLoop_iff.1 h
    have hlimit : c.limit (Source.Stmt.forLoop keyword l initial e semicolon step r body).levels =
        (i.limit (Source.clausesLevels initial e step)).or (m.regionLimit body.levels) :=
      hk.limit_cons.trans (limit_clauses hhead Cursor.Passes.limit_region)
    rw [hk.peek, keyword.2, hlimit]
    exact .take_bind hk (forStatement_complete hs (hc.of_passes hk) hhead hbody)

end

/-! ### Declarations -/

/-- All declarations and statements that stand at a cursor are read, up to the first
region too many. -/
def ReadsAllItem (n : Nat) (item : Cursor → Parsed Stmt) : Prop :=
  ∀ ⦃c d : Cursor⦄ ⦃s : Source.Stmt⦄ ⦃b : Nat⦄, c.Allows n → s.Spans b c d →
    (always item).ReadsUnless (c.limit s.levels) c s.tree d

/-- No statement other than a declaration begins with the keyword of one. -/
theorem binding?_eq_none_of_isStatement {s : Source.Stmt} (hst : s.isStatement = true)
    (hp : c.Passes s.tokens d) : binding? c.peek.kind = none := by
  cases s with
  | declaration => simp [Source.Stmt.isStatement] at hst
  | expression e semicolon =>
    rw [Source.Stmt.tokens] at hp
    obtain ⟨m, hep, -⟩ := Cursor.passes_append_iff.1 hp
    exact binding?_eq_none (peek_beginsExpr hep)
  | print keyword | block keyword | ifThen keyword | ifElse keyword | whileLoop keyword
  | forLoop keyword =>
    rw [Source.Stmt.tokens] at hp
    rw [hp.peek, keyword.2]
    rfl

/-- All declarations and statements are read, if all statements are. -/
theorem declaration_complete_of (hs : ReadsAllStmt n (statement (.upTo n))) :
    ReadsAllItem n (declaration (.upTo n)) := by
  intro c d s b hc h
  refine ReadsUnless.recover (r := item (.upTo n)) ?_
  rw [item, readsUnless_kind_bind]
  cases hst : s.isStatement with
  | true =>
    rw [binding?_eq_none_of_isStatement hst h.passes]
    exact hs hc hst h
  | false =>
    cases s with
    | declaration s =>
      obtain ⟨hf, -, hp⟩ := Source.Stmt.spans_declaration_iff.1 h
      obtain ⟨i, hk, hread⟩ := bindingStatement_complete hc hf hp
      have hlimit : c.limit (Source.Stmt.declaration s).levels = c.limit s.levels := rfl
      rw [hk.peek, binding?_keyword, Source.Stmt.tree, hlimit]
      exact .take_bind hk hread
    | _ => simp [Source.Stmt.isStatement] at hst

/-- Where declarations stop there is no `else`. -/
theorem ne_else_of_stop (hm : d.marker.kind = .eof)
    (hd : d.isAtEnd = true ∨ d.check .rightBrace = true) : d.peek.kind ≠ .elseWord := by
  rcases hd with hend | hbrace
  · rw [Cursor.peek_eq_marker hend, hm]
    decide
  · rw [(Cursor.check_eq_true_iff.1 hbrace).2]
    decide

/-- Statements up to a closing brace or the end are read as declarations. -/
theorem declarations_complete {item : Cursor → Parsed Stmt} (hi : ReadsAllItem n item)
    {body : List Source.Stmt} {more : List Token} (hc : c.Allows n)
    (h : Source.Stmt.AllSpan body b c d) (hd : d.isAtEnd = true ∨ d.check .rightBrace = true)
    (hlen : c.rest.length ≤ more.length) :
    (always (declarations item more)).ReadsUnless (c.limit (Source.Stmt.levelsOf body)) c
      (Source.Stmt.trees body) d := by
  have hne := ne_else_of_stop (hc.of_passes h.passes).marker_kind hd
  induction body generalizing c more with
  | nil =>
    obtain rfl := h.eq_of_nil
    have hpure : (pure [] : Rule (List Stmt)).ReadsUnless none d [] d := reads_pure [] d
    rw [Source.Stmt.trees]
    exact hpure.congr (declarations_of_stops item more hd)
  | cons s rest ih =>
    obtain ⟨m, hs, hrest⟩ := h.of_cons hne
    obtain ⟨t, ts, ht, -, hbrace⟩ := s.exists_tokens_eq_cons
    have hp := ht ▸ hs.passes
    have hcheck : c.check .rightBrace = false := check_eq_false (by rw [hp.peek]; exact hbrace)
    have hadd := hs.passes.length
    rw [ht, List.length_cons] at hadd
    cases more with
    | nil => rw [List.length_nil] at hlen; omega
    | cons t' more =>
      rw [List.length_cons] at hlen
      have hbehind : (always (declarations item more)).ReadsUnless
          (m.limit (Source.Stmt.levelsOf rest)) m (Source.Stmt.trees rest) d :=
        ih (hc.of_passes hs.passes) hrest (by omega)
      have hlimit : c.limit (Source.Stmt.levelsOf (s :: rest)) =
          (c.limit s.levels).or (m.limit (Source.Stmt.levelsOf rest)) :=
        hs.passes.limit_append s.length_levels
      rw [Source.Stmt.trees, hlimit]
      exact ((hi hc hs).bind (hbehind.bind_reads (reads_pure (_ :: _) d))).congr
        (declarations_of_goesOn item t' more hp.isAtEnd hcheck)

/-- All blocks are read, if all declarations are. -/
theorem block_complete_of (hi : ReadsAllItem n (declaration (.upTo n))) :
    ReadsAllBlock n (block (.upTo n)) := by
  intro c m d body b closing hc hbody hclosing
  have hcheck := check_eq_true closing hclosing
  have hread := declarations_complete hi hc hbody (.inr hcheck) (Nat.le_refl _)
  rw [block_eq]
  refine ReadsUnless.bind_reads (hread.congr rfl) ?_
  show ReadsUnless none _ _ _ _
  rw [blockEnd, readsUnless_nextIs_bind, hcheck]
  exact .take_bind hclosing (reads_pure _ d)

/-- **Whatever is written as a statement is read as one**, up to the limit of regions. -/
theorem statement_complete (n : Nat) :
    ReadsAllStmt n (statement (.upTo n)) ∧ ReadsAllBlock n (block (.upTo n)) := by
  induction n with
  | zero =>
    have hs := statement_complete_of (n := 0) (fun m hm => nomatch hm) (fun m hm => nomatch hm)
    exact ⟨hs, block_complete_of (declaration_complete_of hs)⟩
  | succ n ih =>
    have hs := statement_complete_of (n := n + 1) (fun m hm => Nat.succ.inj hm ▸ ih.1)
      (fun m hm => Nat.succ.inj hm ▸ ih.2)
    exact ⟨hs, block_complete_of (declaration_complete_of hs)⟩

/-- All declarations and statements are read, up to the limit, whatever the number of regions. -/
theorem declaration_complete (n : Nat) : ReadsAllItem n (declaration (.upTo n)) :=
  declaration_complete_of (statement_complete n).1

end Rule
end LoxFront
