/-
# Statements that break off

Where a rule for statements fails first, but for a region too many, what was passed
before begins a statement that the grammar derives (`Rule.statement_breaks`,
`Rule.declarations_breaks`).  A statement that was read before without a failure has
no errors in it, so it is written as one.
-/

import LoxFront.Proofs.Rule.First
import LoxFront.Proofs.Source.Derives
import LoxFront.Proofs.Source.ExprBreaks

namespace LoxFront

instance : Inhabited Source.Stmt := ⟨.expression default default⟩

/-- There is a statement that derives. -/
theorem Source.Stmt.derives_default : (default : Source.Stmt).Derives := Source.Expr.fits_default 0

namespace Rule

variable {α : Type} {n : Nat} {c d : Cursor} {x : FailurePoint}

/-- What was passed where the rule fails first begins a statement. -/
def BreaksStmt (n : Nat) (r : Rule Stmt) : Prop :=
  ∀ ⦃c : Cursor⦄ ⦃x : FailurePoint⦄, c.Allows n → r.FailsFirst c x → x.complaint ≠ .tooDeep →
    ∃ s : Source.Stmt, s.isStatement = true ∧ s.Derives ∧ c.Begins x s.tokens

/-- What was passed where the rule fails first begins declarations. -/
def BreaksBlock (n : Nat) (r : Rule Stmt) : Prop :=
  ∀ ⦃c : Cursor⦄ ⦃x : FailurePoint⦄, c.Allows n → r.FailsFirst c x → x.complaint ≠ .tooDeep →
    ∃ body : List Source.Stmt, Source.Stmt.AllDerive body ∧ c.Begins x (Source.Stmt.tokensOf body)

/-- An expression is begun at the failure, or it is passed before. -/
theorem failsFirst_expression_bind {f : Expr → Rule α} (hc : c.Allows n)
    (h : (expression (.upTo n) >>= f).FailsFirst c x) (hne : x.complaint ≠ .tooDeep) :
    ∃ e : Source.Expr, e.Fits 0 ∧
      (c.Begins x e.tokens ∨ ∃ m, c.Passes e.tokens m ∧ (f e.tree).FailsFirst m x) := by
  rcases failsFirst_bind.1 h with h | ⟨v, m, hv, h⟩
  · obtain ⟨e, he, hbegins⟩ := (expression_breaks n).1 hc h hne
    exact ⟨e, he, .inl hbegins⟩
  · obtain ⟨e, he, rfl, hp, -⟩ := (expression_sound n).1 hc hv.1
    exact ⟨e, he, .inr ⟨m, hp, h⟩⟩

/-! ### Statements without statements in them -/

/-- An expression breaks off, or the token behind it is missing. -/
theorem expression_expect_breaks {k : Kind} {y : Complaint} {f : Expr → α} (hc : c.Allows n)
    (h : (expression (.upTo n) >>= fun v => expect k y >>= fun _ =>
      (pure (f v) : Rule α)).FailsFirst c x) (hne : x.complaint ≠ .tooDeep) :
    ∃ (e : Source.Expr) (t : Source.Mark k), e.Fits 0 ∧ c.Begins x (e.tokens ++ [t.1]) := by
  obtain ⟨e, he, hbegins | ⟨m, hp, h⟩⟩ := failsFirst_expression_bind hc h hne
  · exact ⟨e, default, he, hbegins.append _⟩
  · rcases failsFirst_expect_bind h with hpos | ⟨t, i, -, h⟩
    · exact ⟨e, default, he, (Cursor.begins_here hpos _).after hp⟩
    · exact absurd h not_failsFirst_pure

/-- Where a declaration fails first, one begins up to the error. -/
theorem bindingStatement_breaks {b : Binding} {i : Cursor} {keyword : Token}
    (hb : binding? keyword.kind = some b) (hk : c.Passes [keyword] i) (hi : i.Allows n)
    (h : (bindingStatement (.upTo n) b).FailsFirst i x) (hne : x.complaint ≠ .tooDeep) :
    ∃ s : Source.Declaration, Source.ClauseFits s.value? ∧ c.Begins x s.tokens := by
  have hword : keyword.kind = .varWord ∨ keyword.kind = .constWord :=
    (binding?_eq_some_iff.1 hb).imp And.left And.left
  rcases failsFirst_expect_bind h with hpos | ⟨name, m, hname, h⟩
  · exact ⟨⟨⟨keyword, hword⟩, default, none, default⟩, Source.clauseFits_none,
      (Cursor.begins_here hpos _).after hk⟩
  have hm := hi.of_passes hname
  have hnamed := hk.trans hname
  rw [failsFirst_kind_bind] at h
  split at h
  · exact nomatch h
  · next he =>
    obtain ⟨hep, h⟩ := failsFirst_take_bind_passes hm (by rw [he]; decide) h
    have hequals := hnamed.trans hep
    rw [failsFirst_nextIs_bind] at h
    split at h
    · rcases failsFirst_expect_bind h with hpos | ⟨semicolon, l, -, h⟩
      · exact ⟨⟨⟨keyword, hword⟩, name, some (⟨m.peek, he⟩, none), default⟩,
          Source.clauseFits_none, (Cursor.begins_here hpos _).after hequals⟩
      · exact absurd h not_failsFirst_pure
    · obtain ⟨v, semicolon, hv, hbegins⟩ := expression_expect_breaks (hm.of_passes hep) h hne
      exact ⟨⟨⟨keyword, hword⟩, name, some (⟨m.peek, he⟩, some v), semicolon⟩,
        Source.clauseFits_some hv, hbegins.after hequals⟩
  · have hpos : x.position = m.position := by rw [failsFirst_fail.1 h]
    exact ⟨⟨⟨keyword, hword⟩, name, none, default⟩, Source.clauseFits_none,
      (Cursor.begins_here hpos _).after hnamed⟩

/-- Where a clause that may be missing fails first, one begins up to the error. -/
theorem optional_breaks {k : Kind} (hc : c.Allows n)
    (h : (optional (.upTo n) k).FailsFirst c x) (hne : x.complaint ≠ .tooDeep) :
    ∃ e : Option Source.Expr, Source.ClauseFits e ∧ c.Begins x (Source.clauseTokens e) := by
  rw [optional, failsFirst_nextIs_bind] at h
  split at h
  · exact absurd h not_failsFirst_pure
  · obtain ⟨e, he, hbegins | ⟨m, -, h⟩⟩ := failsFirst_expression_bind hc h hne
    · exact ⟨some e, Source.clauseFits_some he, hbegins⟩
    · exact absurd h not_failsFirst_pure

/-- Where an initial clause fails first, one begins up to the error. -/
theorem initialClause_breaks (hc : c.Allows n) (h : (initialClause (.upTo n)).FailsFirst c x)
    (hne : x.complaint ≠ .tooDeep) : ∃ i : Source.Initial, i.Fits ∧ c.Begins x i.tokens := by
  rw [initialClause, failsFirst_kind_bind] at h
  split at h
  · exact absurd (failsFirst_take_bind.1 h) not_failsFirst_pure
  · split at h
    · next b hb =>
      obtain ⟨hk, h⟩ := failsFirst_take_bind_passes hc (ne_eof_of_binding? hb) h
      rcases failsFirst_bind.1 h with h | ⟨s, m, -, h⟩
      · obtain ⟨s, hf, hbegins⟩ := bindingStatement_breaks hb hk (hc.of_passes hk) h hne
        exact ⟨.declaration s, hf, hbegins⟩
      · exact absurd h not_failsFirst_pure
    · rcases failsFirst_bind.1 h with h | ⟨s, m, -, h⟩
      · obtain ⟨e, semicolon, he, hbegins⟩ := expression_expect_breaks hc h hne
        exact ⟨.expression e semicolon, he, hbegins⟩
      · exact absurd h not_failsFirst_pure

/-- Where a condition fails first, one in parentheses begins up to the error. -/
theorem condition_breaks {y z : Complaint} (hc : c.Allows n)
    (h : (condition (.upTo n) y z).FailsFirst c x) (hne : x.complaint ≠ .tooDeep) :
    ∃ (l : Source.Mark .leftParen) (e : Source.Expr) (r : Source.Mark .rightParen),
      e.Fits 0 ∧ c.Begins x (l.1 :: (e.tokens ++ [r.1])) := by
  rcases failsFirst_expect_bind h with hpos | ⟨l, i, hl, h⟩
  · exact ⟨default, default, default, Source.Expr.fits_default 0, Cursor.begins_here hpos _⟩
  · obtain ⟨e, r, he, hbegins⟩ := expression_expect_breaks (hc.of_passes hl) h hne
    exact ⟨l, e, r, he, hbegins.after hl⟩

/-- Where the clauses of a loop fail first, such clauses begin up to the error. -/
theorem clauses_breaks (hc : c.Allows n) (h : (clauses (.upTo n)).FailsFirst c x)
    (hne : x.complaint ≠ .tooDeep) :
    ∃ (l : Source.Mark .leftParen) (i : Source.Initial) (e : Option Source.Expr)
      (semicolon : Source.Mark .semicolon) (step : Option Source.Expr)
      (r : Source.Mark .rightParen), (i.Fits ∧ Source.ClauseFits e ∧ Source.ClauseFits step) ∧
        c.Begins x (l.1 :: (i.tokens ++ (Source.clauseTokens e ++
          semicolon.1 :: (Source.clauseTokens step ++ [r.1])))) := by
  have hnone := Source.clauseFits_none
  rcases failsFirst_expect_bind h with hpos | ⟨l, i₁, hl, h⟩
  · exact ⟨default, .omitted default, none, default, none, default, ⟨trivial, hnone, hnone⟩,
      Cursor.begins_here hpos _⟩
  have h₁ := hc.of_passes hl
  rcases failsFirst_bind.1 h with h | ⟨o, i₂, ho, h⟩
  · obtain ⟨i, hi, hbegins⟩ := initialClause_breaks h₁ h hne
    exact ⟨l, i, none, default, none, default, ⟨hi, hnone, hnone⟩, (hbegins.append _).after hl⟩
  obtain ⟨i, rfl, hi, -, hip⟩ := initialClause_sound h₁ ho.1
  have h₂ := h₁.of_passes hip
  have hp₂ := hl.trans hip
  rcases failsFirst_bind.1 h with h | ⟨o, i₃, ho, h⟩
  · obtain ⟨e, he, hbegins⟩ := optional_breaks h₂ h hne
    exact ⟨l, i, e, default, none, default, ⟨hi, he, hnone⟩,
      ((hbegins.append _).after hip).after hl⟩
  obtain ⟨e, rfl, he, -, hep⟩ := optional_sound h₂ ho.1
  rcases failsFirst_expect_bind h with hpos | ⟨semicolon, i₄, hs, h⟩
  · exact ⟨l, i, e, default, none, default, ⟨hi, he, hnone⟩,
      (((Cursor.begins_here hpos _).after hep).after hip).after hl⟩
  have h₄ := h₂.of_passes (hep.trans hs)
  rcases failsFirst_bind.1 h with h | ⟨o, i₅, ho, h⟩
  · obtain ⟨step, hstep, hbegins⟩ := optional_breaks h₄ h hne
    exact ⟨l, i, e, semicolon, step, default, ⟨hi, he, hstep⟩,
      ((((hbegins.append _).after hs).after hep).after hip).after hl⟩
  obtain ⟨step, rfl, hstep, -, hsp⟩ := optional_sound h₄ ho.1
  rcases failsFirst_expect_bind h with hpos | ⟨r, i₆, -, h⟩
  · exact ⟨l, i, e, semicolon, step, default, ⟨hi, he, hstep⟩,
      (((((Cursor.begins_here hpos _).after hsp).after hs).after hep).after hip).after hl⟩
  · exact absurd h not_failsFirst_pure

/-! ### Statements that are read without a failure -/

/-- A statement that is read without a failure has no errors in it. -/
theorem Accounts.errors_eq_nil {r : Rule Stmt} {lost : Prop} {t : Stmt} (h : r.Accounts c lost)
    (ht : r.Reads c t d) : t.errors = [] := by
  have hsublist := h.sublist
  rw [ht.1.1, firstFailure?_eq_none_iff.1 ht.2] at hsublist
  exact List.sublist_nil.1 hsublist

/-- A statement that is read in a region without a failure is written there. -/
theorem Reads.of_nested {t : Stmt} (hc : c.Allows n)
    (h : (nested (Region.upTo n).statement).Reads c t d) :
    ∃ s : Source.Stmt, s.tree = t ∧ s.SpansRegion n c d := by
  have haccount : (nested (Region.upTo n).statement).Accounts c (RegionLoses n c) :=
    region_accounts (fun k hk i hi => by subst hk; exact (statement_accounts k).1 i hi) hc
  refine ReadsStmt.of_nested (fun m hm => ?_) hc h.1 (haccount.errors_eq_nil h)
  subst hm
  exact (statement_sound m).1

/-! ### Statements with statements in them -/

/-- A statement in a region that fails first, and not at the limit, begins up to the error. -/
theorem BreaksStmt.of_nested {r : Rule Stmt} (hr : ∀ m, n = m + 1 → BreaksStmt m r)
    (hc : c.Allows n) (h : (nested r).FailsFirst c x) (hne : x.complaint ≠ .tooDeep) :
    ∃ s : Source.Stmt, s.isStatement = true ∧ s.Derives ∧ c.Begins x s.tokens := by
  obtain ⟨m, rfl, hm, h⟩ := h.of_nested hc hne
  obtain ⟨s, hst, hs, hbegins⟩ := hr m rfl hm h hne
  exact ⟨s, hst, hs, hbegins.ascend⟩

section

variable {i : Cursor} (hs : ∀ m, n = m + 1 → BreaksStmt m (Region.upTo n).statement)
include hs

/-- Where an `else` branch fails first, one begins up to the error. -/
theorem elseBranch_breaks (hc : c.Allows n) {v : Expr} {yes : Stmt}
    (h : (elseBranch (.upTo n) v yes).FailsFirst c x) (hne : x.complaint ≠ .tooDeep) :
    ∃ (otherwise : Source.Mark .elseWord) (no : Source.Stmt), no.isStatement = true ∧ no.Derives ∧
      c.Begins x (otherwise.1 :: no.tokens) := by
  rw [elseBranch, failsFirst_nextIs_bind] at h
  cases hcheck : c.check .elseWord with
  | false =>
    rw [hcheck] at h
    exact absurd h not_failsFirst_pure
  | true =>
    obtain ⟨-, helse⟩ := Cursor.check_eq_true_iff.1 hcheck
    rw [hcheck, if_pos rfl] at h
    obtain ⟨hop, h⟩ := failsFirst_take_bind_passes hc (by rw [helse]; decide) h
    rcases failsFirst_bind.1 h with h | ⟨z, m, -, h⟩
    · obtain ⟨no, hst, hno, hbegins⟩ := BreaksStmt.of_nested hs (hc.of_passes hop) h hne
      exact ⟨⟨c.peek, helse⟩, no, hst, hno, hbegins.after hop⟩
    · exact absurd h not_failsFirst_pure

/-- Where a conditional fails first, one begins up to the error. -/
theorem ifStatement_breaks (keyword : Source.Mark .ifWord) (hk : c.Passes [keyword.1] i)
    (hi : i.Allows n) (h : (ifStatement (.upTo n)).FailsFirst i x) (hne : x.complaint ≠ .tooDeep) :
    ∃ s : Source.Stmt, s.isStatement = true ∧ s.Derives ∧ c.Begins x s.tokens := by
  rw [ifStatement_eq] at h
  rcases failsFirst_bind.1 h with h | ⟨v, m, hv, h⟩
  · obtain ⟨l, e, r, he, hbegins⟩ := condition_breaks hi h hne
    refine ⟨.ifThen keyword l e r default, rfl, ⟨he, rfl, Source.Stmt.derives_default⟩, ?_⟩
    simpa [Source.Stmt.tokens] using (hbegins.append _).after hk
  obtain ⟨l, e, r, rfl, hhead⟩ := condition_sound hi hv.1
  have hm := hi.of_passes hhead.passes
  have hkm := hk.trans hhead.passes
  rcases failsFirst_bind.1 h with h | ⟨y, j, hy, h⟩
  · obtain ⟨yes, hst, hyes, hbegins⟩ := BreaksStmt.of_nested hs hm h hne
    refine ⟨.ifThen keyword l e r yes, rfl, ⟨hhead.fits, hst, hyes⟩, ?_⟩
    simpa [Source.Stmt.tokens] using hbegins.after hkm
  obtain ⟨yes, rfl, hyes⟩ := hy.of_nested hm
  obtain ⟨otherwise, no, hst, hno, hbegins⟩ :=
    elseBranch_breaks hs (hm.of_passes hyes.passes) h hne
  refine ⟨.ifElse keyword l e r yes otherwise no, rfl,
    ⟨hhead.fits, ⟨hyes.isStatement, hyes.fits.derives⟩, hst, hno⟩, ?_⟩
  simpa [Source.Stmt.tokens] using hbegins.after (hkm.trans hyes.passes)

/-- Where a loop fails first, one begins up to the error. -/
theorem whileStatement_breaks (keyword : Source.Mark .whileWord) (hk : c.Passes [keyword.1] i)
    (hi : i.Allows n) (h : (whileStatement (.upTo n)).FailsFirst i x)
    (hne : x.complaint ≠ .tooDeep) :
    ∃ s : Source.Stmt, s.isStatement = true ∧ s.Derives ∧ c.Begins x s.tokens := by
  rw [whileStatement_eq] at h
  rcases failsFirst_bind.1 h with h | ⟨v, m, hv, h⟩
  · obtain ⟨l, e, r, he, hbegins⟩ := condition_breaks hi h hne
    refine ⟨.whileLoop keyword l e r default, rfl, ⟨he, rfl, Source.Stmt.derives_default⟩, ?_⟩
    simpa [Source.Stmt.tokens] using (hbegins.append _).after hk
  obtain ⟨l, e, r, rfl, hhead⟩ := condition_sound hi hv.1
  rcases failsFirst_bind.1 h with h | ⟨y, j, -, h⟩
  · obtain ⟨body, hst, hbody, hbegins⟩ :=
      BreaksStmt.of_nested hs (hi.of_passes hhead.passes) h hne
    refine ⟨.whileLoop keyword l e r body, rfl, ⟨hhead.fits, hst, hbody⟩, ?_⟩
    simpa [Source.Stmt.tokens] using hbegins.after (hk.trans hhead.passes)
  · exact absurd h not_failsFirst_pure

/-- Where a `for` loop fails first, one begins up to the error. -/
theorem forStatement_breaks (keyword : Source.Mark .forWord) (hk : c.Passes [keyword.1] i)
    (hi : i.Allows n) (h : (forStatement (.upTo n) keyword.1).FailsFirst i x)
    (hne : x.complaint ≠ .tooDeep) :
    ∃ s : Source.Stmt, s.isStatement = true ∧ s.Derives ∧ c.Begins x s.tokens := by
  rw [forStatement_eq] at h
  rcases failsFirst_bind.1 h with h | ⟨v, m, hv, h⟩
  · obtain ⟨l, initial, e, semicolon, step, r, ⟨hif, hef, hsf⟩, hbegins⟩ := clauses_breaks hi h hne
    refine ⟨.forLoop keyword l initial e semicolon step r default, rfl,
      ⟨hif, hef, hsf, rfl, Source.Stmt.derives_default⟩, ?_⟩
    simpa [Source.Stmt.tokens] using (hbegins.append _).after hk
  obtain ⟨l, initial, e, semicolon, step, r, rfl, hhead⟩ := clauses_sound hi hv.1
  rcases failsFirst_bind.1 h with h | ⟨y, j, -, h⟩
  · obtain ⟨body, hst, hbody, hbegins⟩ :=
      BreaksStmt.of_nested hs (hi.of_passes hhead.passes) h hne
    refine ⟨.forLoop keyword l initial e semicolon step r body, rfl,
      ⟨hhead.fits.1, hhead.fits.2.1, hhead.fits.2.2, hst, hbody⟩, ?_⟩
    simpa [Source.Stmt.tokens] using hbegins.after (hk.trans hhead.passes)
  · exact absurd h not_failsFirst_pure

/-- Where a statement fails first, one begins up to the error, if that is so for blocks in a
region. -/
theorem statement_breaks_of (hb : ∀ m, n = m + 1 → BreaksBlock m (Region.upTo n).block) :
    BreaksStmt n (statement (.upTo n)) := by
  intro c x hc h hne
  rw [statement, failsFirst_kind_bind] at h
  split at h
  · next hk =>
    obtain ⟨hp, h⟩ := failsFirst_take_bind_passes hc (by rw [hk]; decide) h
    obtain ⟨e, semicolon, he, hbegins⟩ := expression_expect_breaks (hc.of_passes hp) h hne
    exact ⟨.print ⟨c.peek, hk⟩ e semicolon, rfl, he, hbegins.after hp⟩
  · next hk =>
    obtain ⟨hp, h⟩ := failsFirst_take_bind_passes hc (by rw [hk]; decide) h
    obtain ⟨m, rfl, hm, h⟩ := h.of_nested (hc.of_passes hp) hne
    obtain ⟨body, hbody, hbegins⟩ := hb m rfl hm h hne
    refine ⟨.block ⟨c.peek, hk⟩ body default, rfl, hbody, ?_⟩
    rw [Source.Stmt.tokens]
    exact (hbegins.ascend.append _).after hp
  · next hk =>
    obtain ⟨hp, h⟩ := failsFirst_take_bind_passes hc (by rw [hk]; decide) h
    exact ifStatement_breaks hs ⟨c.peek, hk⟩ hp (hc.of_passes hp) h hne
  · next hk =>
    obtain ⟨hp, h⟩ := failsFirst_take_bind_passes hc (by rw [hk]; decide) h
    exact forStatement_breaks hs ⟨c.peek, hk⟩ hp (hc.of_passes hp) h hne
  · next hk =>
    obtain ⟨hp, h⟩ := failsFirst_take_bind_passes hc (by rw [hk]; decide) h
    exact whileStatement_breaks hs ⟨c.peek, hk⟩ hp (hc.of_passes hp) h hne
  · obtain ⟨e, semicolon, he, hbegins⟩ := expression_expect_breaks hc h hne
    exact ⟨.expression e semicolon, rfl, he, hbegins⟩

end

/-! ### Declarations -/

/-- What was passed where a declaration fails first begins one. -/
theorem declaration_breaks_of (hs : BreaksStmt n (statement (.upTo n))) (hc : c.Allows n)
    (h : (always (declaration (.upTo n))).FailsFirst c x) (hne : x.complaint ≠ .tooDeep) :
    ∃ s : Source.Stmt, s.Derives ∧ c.Begins x s.tokens := by
  replace h : (item (.upTo n)).FailsFirst c x := failsFirst_recover.1 h
  rw [item, failsFirst_kind_bind] at h
  split at h
  · next b hb =>
    obtain ⟨hk, h⟩ := failsFirst_take_bind_passes hc (ne_eof_of_binding? hb) h
    obtain ⟨s, hf, hbegins⟩ := bindingStatement_breaks hb hk (hc.of_passes hk) h hne
    exact ⟨.declaration s, hf, hbegins⟩
  · obtain ⟨s, -, hf, hbegins⟩ := hs hc h hne
    exact ⟨s, hf, hbegins⟩

/-- A declaration that is read without a failure is written. -/
theorem declaration_of_reads {t : Stmt} (hc : c.Allows n)
    (h : (always (declaration (.upTo n))).Reads c t d) :
    ∃ s : Source.Stmt, s.tree = t ∧ s.Spans n c d := by
  obtain ⟨⟨hv, rfl⟩, hnone⟩ := h
  obtain rfl := Except.ok.inj hv
  refine declaration_sound n hc ?_
  have haccount := declaration_account (item_accounts hc ((statement_accounts n).1 c hc))
  have hcreated : created (declaration (.upTo n) c).trace = [] :=
    firstFailure?_eq_none_iff.1 hnone
  exact List.sublist_nil.1 (hcreated ▸ haccount.sublist)

/-- Where declarations in a row fail first, such a row begins up to the error. -/
theorem declarations_breaks_of (hs : BreaksStmt n (statement (.upTo n))) {more : List Token}
    (hc : c.Allows n) (h : (always (declarations (declaration (.upTo n)) more)).FailsFirst c x)
    (hne : x.complaint ≠ .tooDeep) :
    ∃ body, Source.Stmt.AllDerive body ∧ c.Begins x (Source.Stmt.tokensOf body) := by
  induction more generalizing c with
  | nil => exact absurd h not_failsFirst_pure
  | cons t more ih =>
    by_cases hstop : c.isAtEnd = true ∨ c.check .rightBrace = true
    · rw [FailsFirst, declarations_of_stops _ _ hstop] at h
      exact absurd h not_failsFirst_pure
    obtain ⟨hend, hbrace⟩ : c.isAtEnd = false ∧ c.check .rightBrace = false := by
      simpa using hstop
    rw [FailsFirst, declarations_of_goesOn _ t more hend hbrace] at h
    rcases failsFirst_bind.1 h with h | ⟨v, m, hv, h⟩
    · obtain ⟨s, hf, hbegins⟩ := declaration_breaks_of hs hc h hne
      exact ⟨[s], ⟨hf, trivial⟩, hbegins.append _⟩
    obtain ⟨s, -, hspan⟩ := declaration_of_reads hc hv
    rcases failsFirst_bind.1 h with h | ⟨rest, i, -, h⟩
    · obtain ⟨body, hbody, hbegins⟩ := ih (hc.of_passes hspan.passes) h
      exact ⟨s :: body, ⟨hspan.fits.derives, hbody⟩, hbegins.after hspan.passes⟩
    · exact absurd h not_failsFirst_pure

/-- A block that is not closed fails where its brace is missing. -/
theorem position_of_blockEnd {body : List Stmt} (h : (blockEnd body).FailsFirst c x) :
    x.position = c.position := by
  rw [blockEnd, failsFirst_nextIs_bind] at h
  split at h
  · exact absurd (failsFirst_take_bind.1 h) not_failsFirst_pure
  · rcases failsFirst_bind.1 h with h | ⟨e, m, he, -⟩
    · exact congrArg FailurePoint.position (Option.some.inj h).symm
    · exact absurd he.2 (Option.some_ne_none _)

/-- Where a block fails first, one begins up to the error, if that is so for statements. -/
theorem block_breaks_of (hs : BreaksStmt n (statement (.upTo n))) :
    BreaksBlock n (block (.upTo n)) := by
  intro c x hc h hne
  rw [block_eq] at h
  rcases failsFirst_bind.1 h with h | ⟨v, m, ⟨⟨hv, rfl⟩, hnone⟩, h⟩
  · exact declarations_breaks_of hs hc h hne
  obtain rfl := Except.ok.inj hv
  have haccount := declarations_account (fun i hi => declaration_account
    (item_accounts hi ((statement_accounts n).1 i hi))) hc (Nat.le_refl c.rest.length)
  have hcreated := firstFailure?_eq_none_iff.1 hnone
  have herrors := List.sublist_nil.1 (hcreated ▸ haccount.sublist)
  obtain ⟨body, -, hbody⟩ := declarations_sound (declaration_sound n) hc herrors
  have hbegins := (Cursor.begins_here (position_of_blockEnd h) []).after hbody.passes
  rw [List.append_nil] at hbegins
  exact ⟨body, hbody.fits.allDerive, hbegins⟩

/-- **Where a statement fails, it is begun.** -/
theorem statement_breaks (n : Nat) :
    BreaksStmt n (statement (.upTo n)) ∧ BreaksBlock n (block (.upTo n)) := by
  induction n with
  | zero =>
    have hs := statement_breaks_of (n := 0) (fun m hm => nomatch hm) (fun m hm => nomatch hm)
    exact ⟨hs, block_breaks_of hs⟩
  | succ n ih =>
    have hs := statement_breaks_of (n := n + 1) (fun m hm => Nat.succ.inj hm ▸ ih.1)
      (fun m hm => Nat.succ.inj hm ▸ ih.2)
    exact ⟨hs, block_breaks_of hs⟩

/-- Where a declaration fails first, and not at the limit, one begins up to the error. -/
theorem declaration_breaks (n : Nat) (hc : c.Allows n)
    (h : (always (declaration (.upTo n))).FailsFirst c x) (hne : x.complaint ≠ .tooDeep) :
    ∃ s : Source.Stmt, s.Derives ∧ c.Begins x s.tokens :=
  declaration_breaks_of (statement_breaks n).1 hc h hne

end Rule
end LoxFront
