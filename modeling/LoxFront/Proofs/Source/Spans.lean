/-
# Statements between cursors

A written statement stands between two cursors (`Source.Stmt.Spans`) if it is as
the grammar has it, its tokens lead from one to the other, and no `else` follows
that it could take.  What this means for a statement is told by its parts, one
after another between further cursors.
-/

import LoxFront.Proofs.Cursor.Passes
import LoxFront.Proofs.Source.Stmt

namespace LoxFront
namespace Source
namespace Stmt

/-- The statement stands between two cursors, with no more than `n` regions in
one another, and no `else` behind it could be taken by an `if` at its end. -/
structure Spans (s : Stmt) (n : Nat) (c d : Cursor) : Prop where
  fits : s.Fits
  nesting : s.nesting ≤ n
  passes : c.Passes s.tokens d
  closed : s.endsOpen = true → d.peek.kind ≠ .elseWord

/-- The statement, which is no declaration, stands between two cursors in a region
of its own. -/
structure SpansRegion (s : Stmt) (n : Nat) (c d : Cursor) : Prop where
  isStatement : s.isStatement = true
  fits : s.Fits
  nesting : s.nesting + 1 ≤ n
  passes : c.Passes s.tokens d
  closed : s.endsOpen = true → d.peek.kind ≠ .elseWord

/-- The statements stand one after another between two cursors, with no more than
`n` regions in one another. -/
structure AllSpan (body : List Stmt) (n : Nat) (c d : Cursor) : Prop where
  fits : AllFit body
  nesting : nestingOf body ≤ n
  passes : c.Passes (tokensOf body) d

variable {n : Nat} {c d : Cursor}

/-- A region of its own is one region less for what stands in it. -/
theorem spansRegion_iff {s : Stmt} :
    s.SpansRegion n c d ↔
      s.isStatement = true ∧ ∃ k, n = k + 1 ∧ s.Spans k c.deeper d.deeper := by
  constructor
  · rintro ⟨hst, hf, hn, hp, hclosed⟩
    obtain ⟨k, rfl⟩ : ∃ k, n = k + 1 := ⟨n - 1, by omega⟩
    exact ⟨hst, k, rfl, hf, Nat.le_of_succ_le_succ hn, hp.deeper, hclosed⟩
  · rintro ⟨hst, k, rfl, hf, hn, hp, hclosed⟩
    exact ⟨hst, hf, Nat.succ_le_succ hn, hp.ascend, hclosed⟩

/-! ### Statements one after another -/

/-- No statements span nothing. -/
theorem AllSpan.nil (n : Nat) (c : Cursor) : AllSpan [] n c c :=
  ⟨by rw [AllFit]; trivial, by rw [nestingOf]; exact Nat.zero_le n, by rw [tokensOf]; exact .refl c⟩

/-- A statement and those behind it span what the one and the others do. -/
theorem AllSpan.cons {s : Stmt} {rest : List Stmt} {m : Cursor} (h : s.Spans n c m)
    (k : AllSpan rest n m d) : AllSpan (s :: rest) n c d where
  fits := by rw [AllFit]; exact ⟨h.fits, k.fits⟩
  nesting := by rw [nestingOf]; exact Nat.max_le.2 ⟨h.nesting, k.nesting⟩
  passes := by rw [tokensOf]; exact h.passes.trans k.passes

/-- No statements end where they begin. -/
theorem AllSpan.eq_of_nil (h : AllSpan [] n c d) : d = c := by
  have hp := h.passes
  rw [tokensOf] at hp
  exact Cursor.passes_nil_iff.1 hp

/-- Statements one after another are a first one and others behind it, whose
first token is no `else`. -/
theorem AllSpan.of_cons {s : Stmt} {rest : List Stmt} (h : AllSpan (s :: rest) n c d)
    (hd : d.peek.kind ≠ .elseWord) : ∃ m, s.Spans n c m ∧ AllSpan rest n m d := by
  obtain ⟨hf, hn, hp⟩ := h
  rw [AllFit] at hf
  rw [nestingOf, Nat.max_le] at hn
  rw [tokensOf] at hp
  obtain ⟨m, hs, hrest⟩ := Cursor.passes_append_iff.1 hp
  have hbehind : AllSpan rest n m d := ⟨hf.2, hn.2, hrest⟩
  have hm : m.peek.kind ≠ .elseWord := by
    cases rest with
    | nil =>
      rw [← hbehind.eq_of_nil]
      exact hd
    | cons r rest =>
      obtain ⟨t, ts, ht, hne, -⟩ := r.exists_tokens_eq_cons
      rw [tokensOf, ht] at hrest
      rw [hrest.peek]
      exact hne
  exact ⟨m, ⟨hf.1, hn.1, hs, fun _ => hm⟩, hbehind⟩

/-! ### Statements by their parts -/

/-- What a declaration spans is its tokens, if its value fits and nests as the regions allow. -/
theorem spans_declaration_iff {s : Declaration} :
    (declaration s).Spans n c d ↔
      ClauseFits s.value? ∧ clauseNesting s.value? ≤ n ∧ c.Passes s.tokens d := by
  constructor
  · rintro ⟨hf, hn, hp, -⟩
    rw [Fits] at hf
    rw [nesting] at hn
    rw [tokens] at hp
    exact ⟨hf, hn, hp⟩
  · rintro ⟨hf, hn, hp⟩
    exact ⟨by rwa [Fits], by rwa [nesting], by rwa [tokens], by simp [endsOpen]⟩

/-- What an expression statement spans is its tokens, if the expression fits and nests as the
regions allow. -/
theorem spans_expression_iff {e : Expr} {semicolon : Mark .semicolon} :
    (expression e semicolon).Spans n c d ↔
      e.Fits 0 ∧ e.nesting ≤ n ∧ c.Passes (e.tokens ++ [semicolon.1]) d := by
  constructor
  · rintro ⟨hf, hn, hp, -⟩
    rw [Fits] at hf
    rw [nesting] at hn
    rw [tokens] at hp
    exact ⟨hf, hn, hp⟩
  · rintro ⟨hf, hn, hp⟩
    exact ⟨by rwa [Fits], by rwa [nesting], by rwa [tokens], by simp [endsOpen]⟩

/-- A print statement spans its keyword and then what an expression statement spans. -/
theorem spans_print_iff {keyword : Mark .printWord} {e : Expr} {semicolon : Mark .semicolon} :
    (print keyword e semicolon).Spans n c d ↔ ∃ i, c.Passes [keyword.1] i ∧
      e.Fits 0 ∧ e.nesting ≤ n ∧ i.Passes (e.tokens ++ [semicolon.1]) d := by
  constructor
  · rintro ⟨hf, hn, hp, -⟩
    rw [Fits] at hf
    rw [nesting] at hn
    rw [tokens] at hp
    obtain ⟨i, hk, hp⟩ := Cursor.passes_cons_iff.1 hp
    exact ⟨i, hk, hf, hn, hp⟩
  · rintro ⟨i, hk, hf, hn, hp⟩
    exact ⟨by rwa [Fits], by rwa [nesting], by rw [tokens]; exact hk.trans hp, by simp [endsOpen]⟩

/-- A block spans its braces and, in a region, the statements between them. -/
theorem spans_block_iff {opening : Mark .leftBrace} {body : List Stmt}
    {closing : Mark .rightBrace} :
    (block opening body closing).Spans n c d ↔
      ∃ (i m : Cursor) (k : Nat), c.Passes [opening.1] i ∧ n = k + 1 ∧
        AllSpan body k i.deeper m.deeper ∧ m.Passes [closing.1] d := by
  constructor
  · rintro ⟨hf, hn, hp, -⟩
    rw [Fits] at hf
    rw [nesting] at hn
    rw [tokens] at hp
    obtain ⟨i, hopening, hp⟩ := Cursor.passes_cons_iff.1 hp
    obtain ⟨m, hbody, hclosing⟩ := Cursor.passes_append_iff.1 hp
    obtain ⟨k, rfl⟩ : ∃ k, n = k + 1 := ⟨n - 1, by omega⟩
    exact ⟨i, m, k, hopening, rfl, ⟨hf, Nat.le_of_succ_le_succ hn, hbody.deeper⟩, hclosing⟩
  · rintro ⟨i, m, k, hopening, rfl, hbody, hclosing⟩
    refine ⟨by rw [Fits]; exact hbody.fits, ?_, ?_, by simp [endsOpen]⟩
    · rw [nesting]
      exact Nat.succ_le_succ hbody.nesting
    · rw [tokens]
      exact hopening.trans (hbody.passes.ascend.trans hclosing)

/-- A condition in parentheses stands between two cursors. -/
structure SpansCondition (l : Mark .leftParen) (e : Expr) (r : Mark .rightParen) (n : Nat)
    (c d : Cursor) : Prop where
  fits : e.Fits 0
  nesting : e.nesting ≤ n
  passes : c.Passes (l.1 :: (e.tokens ++ [r.1])) d

/-- The clauses of a `for` in parentheses stand between two cursors. -/
structure SpansClauses (l : Mark .leftParen) (initial : Initial) (e : Option Expr)
    (semicolon : Mark .semicolon) (step : Option Expr) (r : Mark .rightParen) (n : Nat)
    (c d : Cursor) : Prop where
  fits : initial.Fits ∧ ClauseFits e ∧ ClauseFits step
  nesting : initial.nesting ≤ n ∧ clauseNesting e ≤ n ∧ clauseNesting step ≤ n
  passes : c.Passes (l.1 :: (initial.tokens ++ (clauseTokens e ++
    semicolon.1 :: (clauseTokens step ++ [r.1])))) d

section

variable {l : Mark .leftParen} {e : Expr} {r : Mark .rightParen}

/-- A conditional without `else` spans its keyword, the condition and the branch, and no `else`
follows. -/
theorem spans_ifThen_iff {keyword : Mark .ifWord} {yes : Stmt} :
    (ifThen keyword l e r yes).Spans n c d ↔ ∃ i m, c.Passes [keyword.1] i ∧
      SpansCondition l e r n i m ∧ yes.SpansRegion n m d ∧ d.peek.kind ≠ .elseWord := by
  constructor
  · rintro ⟨hf, hn, hp, hclosed⟩
    rw [Fits] at hf
    rw [nesting, Nat.max_le] at hn
    rw [endsOpen] at hclosed
    have hp : c.Passes (keyword.1 :: (l.1 :: (e.tokens ++ [r.1]) ++ yes.tokens)) d := by
      simpa [tokens] using hp
    obtain ⟨i, hk, hp⟩ := Cursor.passes_cons_iff.1 hp
    obtain ⟨m, hhead, hyes⟩ := Cursor.passes_append_iff.1 hp
    exact ⟨i, m, hk, ⟨hf.1, hn.1, hhead⟩, ⟨hf.2.1, hf.2.2, hn.2, hyes, fun _ => hclosed rfl⟩,
      hclosed rfl⟩
  · rintro ⟨i, m, hk, hhead, hyes, hne⟩
    refine ⟨?_, ?_, ?_, fun _ => hne⟩
    · rw [Fits]
      exact ⟨hhead.fits, hyes.isStatement, hyes.fits⟩
    · rw [nesting]
      exact Nat.max_le.2 ⟨hhead.nesting, hyes.nesting⟩
    · simpa [tokens] using hk.trans (hhead.passes.trans hyes.passes)

/-- An `else` behind the first branch goes with this `if`, so the branch ends in
none that could take it. -/
theorem spans_ifElse_iff {keyword : Mark .ifWord} {yes no : Stmt} {otherwise : Mark .elseWord} :
    (ifElse keyword l e r yes otherwise no).Spans n c d ↔ ∃ i m a b, c.Passes [keyword.1] i ∧
      SpansCondition l e r n i m ∧ yes.SpansRegion n m a ∧ a.Passes [otherwise.1] b ∧
        no.SpansRegion n b d := by
  constructor
  · rintro ⟨hf, hn, hp, hclosed⟩
    rw [Fits] at hf
    rw [nesting, Nat.max_le, Nat.max_le] at hn
    rw [endsOpen] at hclosed
    obtain ⟨hef, ⟨hst, hyf, hopen⟩, hst', hnf⟩ := hf
    have hp : c.Passes (keyword.1 :: (l.1 :: (e.tokens ++ [r.1]) ++
        (yes.tokens ++ otherwise.1 :: no.tokens))) d := by
      simpa [tokens] using hp
    obtain ⟨i, hk, hp⟩ := Cursor.passes_cons_iff.1 hp
    obtain ⟨m, hhead, hp⟩ := Cursor.passes_append_iff.1 hp
    obtain ⟨a, hyes, hp⟩ := Cursor.passes_append_iff.1 hp
    obtain ⟨b, ho, hno⟩ := Cursor.passes_cons_iff.1 hp
    refine ⟨i, m, a, b, hk, ⟨hef, hn.1, hhead⟩, ⟨hst, hyf, hn.2.1, hyes, fun h => ?_⟩, ho,
      ⟨hst', hnf, hn.2.2, hno, hclosed⟩⟩
    exact absurd (hopen.symm.trans h) (by decide)
  · rintro ⟨i, m, a, b, hk, hhead, hyes, ho, hno⟩
    have hopen : yes.endsOpen = false := by
      rw [Bool.eq_false_iff]
      intro h
      exact hyes.closed h (by rw [ho.peek, otherwise.2])
    refine ⟨?_, ?_, ?_, by rw [endsOpen]; exact hno.closed⟩
    · rw [Fits]
      exact ⟨hhead.fits, ⟨hyes.isStatement, hyes.fits, hopen⟩, hno.isStatement, hno.fits⟩
    · rw [nesting]
      exact Nat.max_le.2 ⟨hhead.nesting, Nat.max_le.2 ⟨hyes.nesting, hno.nesting⟩⟩
    · simpa [tokens] using
        hk.trans (hhead.passes.trans (hyes.passes.trans (ho.trans hno.passes)))

/-- A loop spans its keyword, the condition and, in a region, the body. -/
theorem spans_whileLoop_iff {keyword : Mark .whileWord} {body : Stmt} :
    (whileLoop keyword l e r body).Spans n c d ↔ ∃ i m, c.Passes [keyword.1] i ∧
      SpansCondition l e r n i m ∧ body.SpansRegion n m d := by
  constructor
  · rintro ⟨hf, hn, hp, hclosed⟩
    rw [Fits] at hf
    rw [nesting, Nat.max_le] at hn
    rw [endsOpen] at hclosed
    have hp : c.Passes (keyword.1 :: (l.1 :: (e.tokens ++ [r.1]) ++ body.tokens)) d := by
      simpa [tokens] using hp
    obtain ⟨i, hk, hp⟩ := Cursor.passes_cons_iff.1 hp
    obtain ⟨m, hhead, hbody⟩ := Cursor.passes_append_iff.1 hp
    exact ⟨i, m, hk, ⟨hf.1, hn.1, hhead⟩, ⟨hf.2.1, hf.2.2, hn.2, hbody, hclosed⟩⟩
  · rintro ⟨i, m, hk, hhead, hbody⟩
    refine ⟨?_, ?_, ?_, by rw [endsOpen]; exact hbody.closed⟩
    · rw [Fits]
      exact ⟨hhead.fits, hbody.isStatement, hbody.fits⟩
    · rw [nesting]
      exact Nat.max_le.2 ⟨hhead.nesting, hbody.nesting⟩
    · simpa [tokens] using hk.trans (hhead.passes.trans hbody.passes)

end

/-- A `for` loop spans its keyword, the clauses and, in a region, the body. -/
theorem spans_forLoop_iff {keyword : Mark .forWord} {l : Mark .leftParen} {initial : Initial}
    {e step : Option Expr} {semicolon : Mark .semicolon} {r : Mark .rightParen} {body : Stmt} :
    (forLoop keyword l initial e semicolon step r body).Spans n c d ↔
      ∃ i m, c.Passes [keyword.1] i ∧ SpansClauses l initial e semicolon step r n i m ∧
        body.SpansRegion n m d := by
  constructor
  · rintro ⟨hf, hn, hp, hclosed⟩
    rw [Fits] at hf
    rw [nesting, Nat.max_le, Nat.max_le, Nat.max_le] at hn
    rw [endsOpen] at hclosed
    obtain ⟨hif, hef, hsf, hst, hbf⟩ := hf
    obtain ⟨hin, hen, hsn, hbn⟩ := hn
    have hp : c.Passes (keyword.1 :: (l.1 :: (initial.tokens ++ (clauseTokens e ++
        semicolon.1 :: (clauseTokens step ++ [r.1]))) ++ body.tokens)) d := by
      simpa [tokens] using hp
    obtain ⟨i, hk, hp⟩ := Cursor.passes_cons_iff.1 hp
    obtain ⟨m, hhead, hbody⟩ := Cursor.passes_append_iff.1 hp
    exact ⟨i, m, hk, ⟨⟨hif, hef, hsf⟩, ⟨hin, hen, hsn⟩, hhead⟩, ⟨hst, hbf, hbn, hbody, hclosed⟩⟩
  · rintro ⟨i, m, hk, ⟨⟨hif, hef, hsf⟩, ⟨hin, hen, hsn⟩, hhead⟩, hbody⟩
    refine ⟨?_, ?_, ?_, by rw [endsOpen]; exact hbody.closed⟩
    · rw [Fits]
      exact ⟨hif, hef, hsf, hbody.isStatement, hbody.fits⟩
    · rw [nesting]
      exact Nat.max_le.2 ⟨hin, Nat.max_le.2 ⟨hen, Nat.max_le.2 ⟨hsn, hbody.nesting⟩⟩⟩
    · simpa [tokens] using hk.trans (hhead.trans hbody.passes)

end Stmt
end Source
end LoxFront
