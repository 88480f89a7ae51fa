/-
# The programs of the grammar

The tokens that parse are those of the programs of the grammar, each with an end
marker behind it, and the result is the tree of that program
(`written_of_parse`, `parse_written`).  Lines, texts and values of the tokens
make no difference.
-/

import LoxFront.Proofs.Parse.Pass
import LoxFront.Proofs.Source.StmtComplete
import LoxFront.Proofs.Source.Tree

namespace LoxFront

/-- A program of the grammar: one declaration at least, and no more regions in
one another than can be opened. -/
structure Source.IsProgram (body : List Source.Stmt) : Prop where
  ne_nil : body ≠ []
  fits : Source.Stmt.AllFit body
  nesting : Source.Stmt.nestingOf body ≤ maxNesting

instance (body : List Source.Stmt) : Decidable (Source.IsProgram body) :=
  decidable_of_iff (body.isEmpty = false ∧ Source.Stmt.AllFit body ∧
      Source.Stmt.nestingOf body ≤ maxNesting)
    ⟨fun ⟨hne, hf, hn⟩ => ⟨by simpa using hne, hf, hn⟩,
      fun ⟨hne, hf, hn⟩ => ⟨by simpa using hne, hf, hn⟩⟩

/-! ### Passes over programs -/

/-- What a run reads without errors are declarations of the grammar. -/
theorem Runs.sound {c d : Cursor} {statements : List Stmt} {trace : List Event}
    (h : Runs c statements trace d) (hc : c.Allows maxNesting)
    (he : Stmt.errorsOf statements = []) :
    ∃ body, Source.Stmt.trees body = statements ∧ Source.Stmt.AllSpan body maxNesting c d := by
  induction h with
  | done => exact ⟨[], by rw [Source.Stmt.trees], .nil maxNesting _⟩
  | next _ _ _ ih =>
    rw [Stmt.errorsOf_cons, List.append_eq_nil_iff] at he
    obtain ⟨s, ht, hs⟩ := Rule.declaration_sound maxNesting hc he.1
    obtain ⟨body, hts, hbody⟩ := ih (hc.of_reaches (topDeclaration_reaches _)) he.2
    exact ⟨s :: body, by rw [Source.Stmt.trees, ht, hts, topDeclaration], .cons hs hbody⟩

/-- Declarations of the grammar up to the end are what a run reads, and nothing fails
on the way, unless a region too many is opened in them; then the run fails first
there. -/
theorem Runs.complete_unless {c d e : Cursor} {statements : List Stmt} {trace : List Event}
    (h : Runs c statements trace d) (hc : c.Allows maxNesting) {body : List Source.Stmt} {b : Nat}
    (hbody : Source.Stmt.AllSpan body b c e) (he : e.isAtEnd = true) :
    (c.limit (Source.Stmt.levelsOf body)).elim
      (statements = Source.Stmt.trees body ∧ firstFailure? trace = none)
      fun p => ∃ t, firstFailure? trace = some ⟨p, .tooDeep, t⟩ := by
  have hne := Rule.ne_else_of_stop (hc.of_passes hbody.passes).marker_kind (.inl he)
  induction h generalizing body with
  | done hend =>
    cases body with
    | nil => exact ⟨by rw [Source.Stmt.trees], rfl⟩
    | cons s rest =>
      -- a declaration has a token, and none is left
      obtain ⟨t, ts, ht, -⟩ := s.exists_tokens_eq_cons
      have hp := hbody.passes
      rw [Source.Stmt.tokensOf, ht] at hp
      exact absurd (hend.symm.trans hp.isAtEnd) (by decide)
  | @next c _ _ _ hend _ _ ih =>
    cases body with
    | nil =>
      obtain rfl := hbody.eq_of_nil
      exact absurd (hend.symm.trans he) (by decide)
    | cons s rest =>
      obtain ⟨m, hs, hrest⟩ := hbody.of_cons hne
      have hlimit : c.limit (Source.Stmt.levelsOf (s :: rest)) =
          (c.limit s.levels).or (m.limit (Source.Stmt.levelsOf rest)) :=
        hs.passes.limit_append s.length_levels
      have hread := Rule.declaration_complete maxNesting hc hs
      rw [firstFailure?_append, hlimit]
      cases hplace : c.limit s.levels with
      | some p =>
        rw [hplace] at hread
        obtain ⟨t, ht⟩ := hread
        have hx : firstFailure? (topDeclaration c).trace = some ⟨p, .tooDeep, t⟩ := ht
        rw [hx]
        exact ⟨t, rfl⟩
      | none =>
        rw [hplace] at hread
        obtain ⟨⟨hv, (hm : (topDeclaration c).cursor = m)⟩,
          (hnone : firstFailure? (topDeclaration c).trace = none)⟩ := hread
        have hv : (topDeclaration c).value = s.tree := Except.ok.inj hv
        have hbehind := ih (hc.of_reaches (topDeclaration_reaches _)) (hm.symm ▸ hrest)
        rw [hm] at hbehind
        rw [hnone, Option.none_or, Option.none_or, hv, Source.Stmt.trees]
        cases hplace' : m.limit (Source.Stmt.levelsOf rest) with
        | some p =>
          rw [hplace'] at hbehind
          exact hbehind
        | none =>
          rw [hplace'] at hbehind
          exact ⟨congrArg _ hbehind.1, hbehind.2⟩

/-- Declarations of the grammar up to the end are what a run reads. -/
theorem Runs.complete {c d e : Cursor} {statements : List Stmt} {trace : List Event}
    (h : Runs c statements trace d) (hc : c.Allows maxNesting) {body : List Source.Stmt}
    (hbody : Source.Stmt.AllSpan body maxNesting c e) (he : e.isAtEnd = true) :
    statements = Source.Stmt.trees body := by
  have hdepth : c.depth = 0 := by have := hc.depth_add; omega
  have hread := h.complete_unless hc hbody he
  rw [(Cursor.limit_levelsOf_eq_none_iff hdepth).2 hbody.nesting] at hread
  exact hread.1

/-! ### Programs -/

/-- **What parses is a program of the grammar.**  The tokens are those of a program
with an end marker behind, and the result is its tree: whole, with no node for an
error and no value left out but in declarations.  It holds the tokens of the
program that are no marks or keywords, each as often as it stands there, and
besides them the `true` of each `for` loop without a condition. -/
theorem written_of_parse {tokens : List Token} {p : Program} (h : parse tokens = .ok p) :
    ∃ (body : List Source.Stmt) (marker : Source.Mark .eof), Source.IsProgram body ∧
      tokens = Source.Stmt.tokensOf body ++ [marker.1] ∧
      p.statements = Source.Stmt.trees body ∧ Stmt.AllWhole p.statements ∧
      Source.DrawnFrom (Stmt.heldOf p.statements) (Source.Stmt.tokensOf body)
        (Source.Stmt.foreignOf body) := by
  obtain ⟨c, hc, hpass, he⟩ := parse_eq_ok_iff.1 h
  obtain ⟨text, marker, hsound, rfl, rfl⟩ := Cursor.ofTokens_eq_ok_iff.1 hc
  have hallows := hsound.allows
  obtain ⟨statements, d, hstatements, hruns⟩ := runs_pass hallows.marker_kind
  obtain rfl := Except.ok.inj (hpass.symm.trans hstatements)
  obtain ⟨body, ht, hbody⟩ := hruns.sound hallows he
  have htext : text = Source.Stmt.tokensOf body := by
    have hrest : text = Source.Stmt.tokensOf body ++ d.rest := hbody.passes.rest
    rw [hrest, Cursor.rest_eq_nil hruns.isAtEnd, List.append_nil]
  refine ⟨body, ⟨marker, hsound.marker_kind⟩, ⟨?_, hbody.fits, hbody.nesting⟩,
    congrArg (· ++ [marker]) htext, ht.symm, ht ▸ Source.Stmt.trees_whole body,
    ht ▸ Source.Stmt.trees_hold body⟩
  rintro rfl
  rw [Source.Stmt.tokensOf] at htext
  exact hsound.body_ne_nil htext

/-- A loop without a condition comes from its text, and the word `true` is the one token that
its tree does not share with it. -/
theorem written_of_parse_for :
    let name : Token := ⟨.identifier, "x", 1, .none⟩
    let before : List Token :=
      [⟨.forWord, "for", 1, .none⟩, ⟨.leftParen, "(", 1, .none⟩, ⟨.semicolon, ";", 1, .none⟩,
        ⟨.semicolon, ";", 1, .none⟩, ⟨.rightParen, ")", 1, .none⟩]
    let tokens := before ++ [name, ⟨.semicolon, ";", 1, .none⟩, .atEnd 1]
    let p : Program :=
      ⟨[.whileLoop (.literal ⟨.trueWord, "true", 1, .none⟩) (.expression (.literal name))]⟩
    parse tokens = .ok p ∧
      ∃ (body : List Source.Stmt) (marker : Source.Mark .eof), Source.IsProgram body ∧
        tokens = Source.Stmt.tokensOf body ++ [marker.1] ∧
        p.statements = Source.Stmt.trees body ∧ Stmt.AllWhole p.statements ∧
        Source.DrawnFrom (Stmt.heldOf p.statements) (Source.Stmt.tokensOf body)
          (Source.Stmt.foreignOf body) :=
  ⟨rfl, written_of_parse rfl⟩

/-- **A program of the grammar parses**, and its tree comes back. -/
theorem parse_written {body : List Source.Stmt} (h : Source.IsProgram body)
    (marker : Source.Mark .eof) :
    parse (Source.Stmt.tokensOf body ++ [marker.1]) = .ok ⟨Source.Stmt.trees body⟩ := by
  have hsound : Cursor.Sound (Source.Stmt.tokensOf body) marker.1 := by
    refine ⟨?_, Source.Stmt.tokensOf_ne_eof body, marker.2⟩
    obtain ⟨s, rest, rfl⟩ := List.exists_cons_of_ne_nil h.ne_nil
    obtain ⟨t, ts, ht, -⟩ := s.exists_tokens_eq_cons
    rw [Source.Stmt.tokensOf, ht]
    exact List.cons_ne_nil _ _
  let c : Cursor := ⟨Source.Stmt.tokensOf body, marker.1, 0, 0⟩
  have hallows : c.Allows maxNesting := ⟨marker.2, Nat.zero_add _⟩
  let e : Cursor := ⟨[], marker.1, (Source.Stmt.tokensOf body).length, 0⟩
  have hpasses : c.Passes (Source.Stmt.tokensOf body) e :=
    ⟨(List.append_nil _).symm, rfl, (Nat.zero_add _).symm, rfl⟩
  obtain ⟨statements, d, hstatements, hruns⟩ := runs_pass (c := c) marker.2
  obtain rfl := hruns.complete hallows ⟨h.fits, h.nesting, hpasses⟩ rfl
  refine parse_eq_ok_iff.2 ⟨c, Cursor.ofTokens_concat hsound, hstatements, ?_⟩
  exact (Source.Stmt.trees_whole body).errors

/-- A loop that is written out parses to its tree. -/
theorem parse_written_loop :
    let mark (k : Kind) (lexeme : String) : Source.Mark k := ⟨⟨k, lexeme, 1, .none⟩, rfl⟩
    let x : Source.Expr := .atom ⟨⟨.identifier, "x", 1, .none⟩, by decide⟩
    let minus : Source.Word Kind.Prefixes := ⟨⟨.minus, "-", 1, .none⟩, by decide⟩
    let assigned : Source.Expr := .assign (mark .identifier "x") (mark .equal "=") x
    let branches : Source.Stmt :=
      .ifElse (mark .ifWord "if") (mark .leftParen "(") x (mark .rightParen ")")
        (.print (mark .printWord "print") (.unary minus x) (mark .semicolon ";"))
        (mark .elseWord "else") (.expression assigned (mark .semicolon ";"))
    let body : List Source.Stmt :=
      [.declaration ⟨⟨⟨.varWord, "var", 1, .none⟩, .inl rfl⟩, mark .identifier "x",
          some (mark .equal "=", none), mark .semicolon ";"⟩,
        .forLoop (mark .forWord "for") (mark .leftParen "(") (.omitted (mark .semicolon ";")) none
          (mark .semicolon ";") none (mark .rightParen ")") branches]
    Source.IsProgram body ∧
      parse (Source.Stmt.tokensOf body ++ [.atEnd 1]) = .ok ⟨Source.Stmt.trees body⟩ := by
  intro mark x minus assigned branches body
  have hbody : Source.IsProgram body := by decide
  exact ⟨hbody, parse_written hbody ⟨.atEnd 1, rfl⟩⟩

end LoxFront
