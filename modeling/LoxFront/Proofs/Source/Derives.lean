/-
# Programs that the grammar derives

The grammar as it is written down lets an `else` go with any `if` before it that
could take it (`Source.Stmt.Derives`), and it knows no limit of regions.  A text
with several readings has one in which each `else` goes with the nearest `if`
(`Source.Stmt.exists_allFit`): an `else` is moved inward (`Source.Stmt.withElse`)
and the tokens stay as they are.
-/

import LoxFront.Proofs.Source.Stmt

namespace LoxFront
namespace Source
namespace Stmt

mutual

/-- The grammar derives the statement, whichever `if` an `else` goes with. -/
def Derives : Stmt → Prop
  | declaration d => ClauseFits d.value?
  | expression e _ | print _ e _ => e.Fits 0
  | block _ body _ => AllDerive body
  | ifThen _ _ e _ yes => e.Fits 0 ∧ yes.isStatement = true ∧ yes.Derives
  | ifElse _ _ e _ yes _ no =>
    e.Fits 0 ∧ (yes.isStatement = true ∧ yes.Derives) ∧ no.isStatement = true ∧ no.Derives
  | whileLoop _ _ e _ body => e.Fits 0 ∧ body.isStatement = true ∧ body.Derives
  | forLoop _ _ i e _ step _ body =>
    i.Fits ∧ ClauseFits e ∧ ClauseFits step ∧ body.isStatement = true ∧ body.Derives

/-- The grammar derives all the statements. -/
def AllDerive : List Stmt → Prop
  | [] => True
  | s :: rest => s.Derives ∧ AllDerive rest

end

mutual

/-- What is read is derived. -/
theorem Fits.derives : ∀ {s : Stmt}, s.Fits → s.Derives
  | declaration _, h | expression _ _, h | print _ _ _, h => by
    rw [Fits] at h
    rw [Derives]
    exact h
  | block _ body _, h => by
    rw [Fits] at h
    rw [Derives]
    exact AllFit.allDerive h
  | ifThen _ _ _ _ _, h | whileLoop _ _ _ _ _, h => by
    rw [Fits] at h
    rw [Derives]
    exact ⟨h.1, h.2.1, h.2.2.derives⟩
  | ifElse _ _ _ _ _ _ _, h => by
    rw [Fits] at h
    rw [Derives]
    exact ⟨h.1, ⟨h.2.1.1, h.2.1.2.1.derives⟩, h.2.2.1, h.2.2.2.derives⟩
  | forLoop _ _ _ _ _ _ _ _, h => by
    rw [Fits] at h
    rw [Derives]
    exact ⟨h.1, h.2.1, h.2.2.1, h.2.2.2.1, h.2.2.2.2.derives⟩

/-- Statements that fit derive. -/
theorem AllFit.allDerive : ∀ {body : List Stmt}, AllFit body → AllDerive body
  | [], _ => by rw [AllDerive]; trivial
  | _ :: _, h => by
    rw [AllFit] at h
    rw [AllDerive]
    exact ⟨h.1.derives, h.2.allDerive⟩

end

/-! ### An `else` and the nearest `if` -/

/-- The statement with an `else` and another branch for the last `if` in it that
could take them. -/
def withElse : Stmt → Mark .elseWord → Stmt → Stmt
  | ifThen keyword l e r yes, otherwise, no =>
    if yes.endsOpen then ifThen keyword l e r (yes.withElse otherwise no)
    else ifElse keyword l e r yes otherwise no
  | ifElse keyword l e r yes other last, otherwise, no =>
    ifElse keyword l e r yes other (last.withElse otherwise no)
  | whileLoop keyword l e r body, otherwise, no =>
    whileLoop keyword l e r (body.withElse otherwise no)
  | forLoop keyword l i e semicolon step r body, otherwise, no =>
    forLoop keyword l i e semicolon step r (body.withElse otherwise no)
  | s, _, _ => s

variable {otherwise : Mark .elseWord} {no : Stmt}

/-- A statement stays one when an `else` is put at its open end. -/
theorem isStatement_withElse : ∀ {s : Stmt}, s.endsOpen = true →
    (s.withElse otherwise no).isStatement = true
  | ifThen _ _ _ _ yes, _ => by
    rw [withElse]
    split <;> rfl
  | ifElse _ _ _ _ _ _ _, _ | whileLoop _ _ _ _ _, _ | forLoop _ _ _ _ _ _ _ _, _ => rfl
  | declaration _, h | expression _ _, h | print _ _ _, h | block _ _ _, h => by
    exact absurd h Bool.false_ne_true

/-- The `else` is read behind the statement. -/
theorem tokens_withElse : ∀ {s : Stmt}, s.endsOpen = true →
    (s.withElse otherwise no).tokens = s.tokens ++ otherwise.1 :: no.tokens
  | ifThen _ _ _ _ yes, _ => by
    rw [withElse]
    split
    · next hopen => simp [tokens, tokens_withElse hopen]
    · simp [tokens]
  | ifElse _ _ _ _ _ _ last, h => by
    rw [endsOpen] at h
    simp [withElse, tokens, tokens_withElse h]
  | whileLoop _ _ _ _ body, h => by
    rw [endsOpen] at h
    simp [withElse, tokens, tokens_withElse h]
  | forLoop _ _ _ _ _ _ _ body, h => by
    rw [endsOpen] at h
    simp [withElse, tokens, tokens_withElse h]
  | declaration _, h | expression _ _, h | print _ _ _, h | block _ _ _, h => by
    exact absurd h Bool.false_ne_true

/-- The `if` nearest to the `else` is the one that takes it. -/
theorem fits_withElse (hst : no.isStatement = true) (hno : no.Fits) :
    ∀ {s : Stmt}, s.Fits → s.endsOpen = true → (s.withElse otherwise no).Fits
  | ifThen _ _ _ _ yes, h, _ => by
    rw [Fits] at h
    rw [withElse]
    split
    · next hopen =>
      rw [Fits]
      exact ⟨h.1, isStatement_withElse hopen, fits_withElse hst hno h.2.2 hopen⟩
    · next hclosed =>
      rw [Fits]
      exact ⟨h.1, ⟨h.2.1, h.2.2, Bool.eq_false_iff.2 hclosed⟩, hst, hno⟩
  | ifElse _ _ _ _ _ _ last, h, hopen => by
    rw [Fits] at h
    rw [endsOpen] at hopen
    rw [withElse, Fits]
    exact ⟨h.1, h.2.1, isStatement_withElse hopen, fits_withElse hst hno h.2.2.2 hopen⟩
  | whileLoop _ _ _ _ body, h, hopen => by
    rw [Fits] at h
    rw [endsOpen] at hopen
    rw [withElse, Fits]
    exact ⟨h.1, isStatement_withElse hopen, fits_withElse hst hno h.2.2 hopen⟩
  | forLoop _ _ _ _ _ _ _ body, h, hopen => by
    rw [Fits] at h
    rw [endsOpen] at hopen
    rw [withElse, Fits]
    exact ⟨h.1, h.2.1, h.2.2.1, isStatement_withElse hopen, fits_withElse hst hno h.2.2.2.2 hopen⟩
  | declaration _, _, h | expression _ _, _, h | print _ _ _, _, h | block _ _ _, _, h => by
    exact absurd h Bool.false_ne_true

mutual

/-- **A statement that the grammar derives has a reading in which each `else` goes
with the nearest `if`**, over the same tokens. -/
theorem exists_fits : ∀ {s : Stmt}, s.Derives →
    ∃ s' : Stmt, s'.Fits ∧ s'.isStatement = s.isStatement ∧ s'.tokens = s.tokens
  | declaration d, h => ⟨declaration d, by rw [Derives] at h; rwa [Fits], rfl, rfl⟩
  | expression e semicolon, h =>
    ⟨expression e semicolon, by rw [Derives] at h; rwa [Fits], rfl, rfl⟩
  | print keyword e semicolon, h =>
    ⟨print keyword e semicolon, by rw [Derives] at h; rwa [Fits], rfl, rfl⟩
  | block l body r, h => by
    rw [Derives] at h
    obtain ⟨body', hf, ht⟩ := exists_allFit h
    exact ⟨block l body' r, by rwa [Fits], rfl, by rw [tokens, tokens, ht]⟩
  | ifThen keyword l e r yes, h => by
    rw [Derives] at h
    obtain ⟨yes', hf, hst, ht⟩ := exists_fits h.2.2
    refine ⟨ifThen keyword l e r yes', ?_, rfl, by rw [tokens, tokens, ht]⟩
    rw [Fits]
    exact ⟨h.1, hst.trans h.2.1, hf⟩
  | ifElse keyword l e r yes otherwise no, h => by
    rw [Derives] at h
    obtain ⟨yes', hyf, hyst, hyt⟩ := exists_fits h.2.1.2
    obtain ⟨no', hnf, hnst, hnt⟩ := exists_fits h.2.2.2
    have hst : no'.isStatement = true := hnst.trans h.2.2.1
    cases hopen : yes'.endsOpen with
    | true =>
      -- an `if` at the end of the branch takes the `else`
      refine ⟨ifThen keyword l e r (yes'.withElse otherwise no'), ?_, rfl, ?_⟩
      · rw [Fits]
        exact ⟨h.1, isStatement_withElse hopen, fits_withElse hst hnf hyf hopen⟩
      · rw [tokens, tokens, tokens_withElse hopen, hyt, hnt]
    | false =>
      refine ⟨ifElse keyword l e r yes' otherwise no', ?_, rfl, by rw [tokens, tokens, hyt, hnt]⟩
      rw [Fits]
      exact ⟨h.1, ⟨hyst.trans h.2.1.1, hyf, hopen⟩, hst, hnf⟩
  | whileLoop keyword l e r body, h => by
    rw [Derives] at h
    obtain ⟨body', hf, hst, ht⟩ := exists_fits h.2.2
    refine ⟨whileLoop keyword l e r body', ?_, rfl, by rw [tokens, tokens, ht]⟩
    rw [Fits]
    exact ⟨h.1, hst.trans h.2.1, hf⟩
  | forLoop keyword l i e semicolon step r body, h => by
    rw [Derives] at h
    obtain ⟨body', hf, hst, ht⟩ := exists_fits h.2.2.2.2
    refine ⟨forLoop keyword l i e semicolon step r body', ?_, rfl, by rw [tokens, tokens, ht]⟩
    rw [Fits]
    exact ⟨h.1, h.2.1, h.2.2.1, hst.trans h.2.2.2.1, hf⟩

/-- For statements that derive there are such that fit, with the same tokens. -/
theorem exists_allFit : ∀ {body : List Stmt}, AllDerive body →
    ∃ body' : List Stmt, AllFit body' ∧ tokensOf body' = tokensOf body
  | [], _ => ⟨[], by rw [AllFit]; trivial, rfl⟩
  | s :: rest, h => by
    rw [AllDerive] at h
    obtain ⟨s', hf, -, ht⟩ := exists_fits h.1
    obtain ⟨rest', hfs, hts⟩ := exists_allFit h.2
    exact ⟨s' :: rest', by rw [AllFit]; exact ⟨hf, hfs⟩, by rw [tokensOf, tokensOf, ht, hts]⟩

end

end Stmt
end Source
end LoxFront
