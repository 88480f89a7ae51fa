/-
# Errors that are not reported

Parsing reports errors of its pass, in the order in which they were created, and
all of them unless an `if` in the pass fails in its `else` branch behind a branch
with errors (`reported_eq_created_iff`): of that `if` only the last error is
reported.
-/

import LoxFront.Proofs.Parse.Pass
import LoxFront.Proofs.Rule.Account

namespace LoxFront

/-- The errors that parsing reports: none if the tokens are a program. -/
def reported (tokens : List Token) : List ParseError :=
  match parse tokens with
  | .ok _ => []
  | .error f => f.errors

/-- What is reported are the errors that stand in the trees of the pass. -/
theorem reported_of_pass {tokens : List Token} {c : Cursor} {body : List Stmt}
    (hc : Cursor.ofTokens tokens = .ok c) (hbody : (pass c).statements = .ok body) :
    reported tokens = Stmt.errorsOf body := by
  rw [reported, parse_of_pass hc hbody]
  split
  · next p hp =>
    split at hp
    · next he => exact he.symm
    · exact nomatch hp
  · next f hf =>
    split at hf
    · exact nomatch hf
    · obtain rfl := Except.error.inj hf
      rfl

/-- What a run keeps of the errors that are created in it. -/
theorem Runs.account {c d : Cursor} {body : List Stmt} {trace : List Event}
    (h : Runs c body trace d) (hc : c.Allows maxNesting) :
    Account (Stmt.errorsOf body) (created trace)
      (∃ i, Rule.Starts Cursor.isAtEnd topDeclaration c i ∧ Rule.ItemLoses maxNesting i) := by
  induction h with
  | done hend =>
    rw [Stmt.errorsOf_nil]
    refine .of_eq rfl fun hlost => ?_
    rw [Rule.exists_starts_iff] at hlost
    exact absurd (hend.symm.trans hlost.1) (by decide)
  | @next c d rest trace hend _ _ ih =>
    have hstatement := (Rule.statement_accounts maxNesting).1 c hc
    have hfirst := Rule.declaration_account (Rule.item_accounts hc hstatement)
    have hrest := ih (hc.of_reaches (topDeclaration_reaches c))
    rw [Stmt.errorsOf_cons, created_append, Rule.exists_starts_iff]
    exact (hfirst.append hrest).congr (by simp [hend])

/-- **Which errors are reported.**  They are errors of the pass, each at its place
in the order, and all of them if and only if no errors are lost in a declaration
of the pass. -/
theorem reported_eq_created_iff {tokens : List Token} {c : Cursor}
    (h : Cursor.ofTokens tokens = .ok c) :
    (reported tokens).Sublist (created (pass c).trace) ∧
      (reported tokens = created (pass c).trace ↔
        ¬∃ i, Rule.Starts Cursor.isAtEnd topDeclaration c i ∧ Rule.ItemLoses maxNesting i) := by
  obtain ⟨text, marker, hsound, -, rfl⟩ := Cursor.ofTokens_eq_ok_iff.1 h
  have hallows := hsound.allows
  obtain ⟨body, d, hbody, hruns⟩ := runs_pass hallows.marker_kind
  have haccount := hruns.account hallows
  rw [reported_of_pass h hbody]
  exact ⟨haccount.sublist, haccount.eq_iff⟩

/-- The tokens of `if (a) { 1 +; } else {`. -/
def openElse : List Token :=
  [⟨.ifWord, "if", 1, .none⟩, ⟨.leftParen, "(", 1, .none⟩, ⟨.identifier, "a", 1, .none⟩,
    ⟨.rightParen, ")", 1, .none⟩, ⟨.leftBrace, "\x7b", 1, .none⟩,
    ⟨.number, "1", 1, .number (.ofNat 1)⟩, ⟨.plus, "+", 1, .none⟩, ⟨.semicolon, ";", 1, .none⟩,
    ⟨.rightBrace, "\x7d", 1, .none⟩, ⟨.elseWord, "else", 1, .none⟩,
    ⟨.leftBrace, "\x7b", 1, .none⟩, .atEnd 1]

/-- In `if (a) { 1 +; } else {` an error is lost with the branch that held it. -/
theorem reported_eq_created_iff_openElse :
    ∃ c, Cursor.ofTokens openElse = .ok c ∧
      (reported openElse).Sublist (created (pass c).trace) ∧
      (reported openElse = created (pass c).trace ↔
        ¬∃ i, Rule.Starts Cursor.isAtEnd topDeclaration c i ∧ Rule.ItemLoses maxNesting i) :=
  ⟨_, rfl, reported_eq_created_iff rfl⟩

/-- Two errors are created in the pass over `if (a) { 1 +; } else {`, and only the
second is reported. -/
theorem reported_ne_created :
    ∃ c, Cursor.ofTokens openElse = .ok c ∧
      created (pass c).trace = [Complaint.noExpression.about ⟨.semicolon, ";", 1, .none⟩,
        Complaint.openBlock.about (.atEnd 1)] ∧
      reported openElse = [Complaint.openBlock.about (.atEnd 1)] ∧
      reported openElse ≠ created (pass c).trace := by
  refine ⟨_, rfl, rfl, rfl, fun h => ?_⟩
  have hlen : 1 = 2 := congrArg List.length h
  exact absurd hlen (by decide)

end LoxFront
