/-
# What parses, and as what

Tokens parse if and only if they are those of a program of the grammar with an end
marker behind it, and then as the tree of that program (`parse_eq_ok_iff_program`).
-/

import LoxFront.Proofs.Parse.Grammar

namespace LoxFront

/-- The tokens of declarations, with an end marker behind them, are sound. -/
theorem Source.Stmt.sound_tokensOf {body : List Source.Stmt} (h : body ≠ [])
    (marker : Source.Mark .eof) : Cursor.Sound (Source.Stmt.tokensOf body) marker.1 := by
  refine ⟨?_, Source.Stmt.tokensOf_ne_eof body, marker.2⟩
  obtain ⟨s, rest, rfl⟩ := List.exists_cons_of_ne_nil h
  obtain ⟨t, ts, ht, -⟩ := s.exists_tokens_eq_cons
  rw [Source.Stmt.tokensOf, ht]
  exact List.cons_ne_nil _ _

/-- The tokens of a program and an end marker are a list that gets a cursor. -/
theorem Source.IsProgram.sound {body : List Source.Stmt} (h : Source.IsProgram body)
    (marker : Source.Mark .eof) : Cursor.Sound (Source.Stmt.tokensOf body) marker.1 :=
  Source.Stmt.sound_tokensOf h.ne_nil marker

/-- A program of the grammar spans its tokens. -/
theorem Source.IsProgram.spans {body : List Source.Stmt} (h : Source.IsProgram body)
    (marker : Token) :
    Source.Stmt.AllSpan body maxNesting ⟨Source.Stmt.tokensOf body, marker, 0, 0⟩
      ⟨[], marker, (Source.Stmt.tokensOf body).length, 0⟩ :=
  ⟨h.fits, h.nesting, (List.append_nil _).symm, rfl, (Nat.zero_add _).symm, rfl⟩

/-- **What parses is what the grammar has**, as the tree that the grammar gives it. -/
theorem parse_eq_ok_iff_program {tokens : List Token} {p : Program} :
    parse tokens = .ok p ↔
      ∃ (body : List Source.Stmt) (marker : Source.Mark .eof), Source.IsProgram body ∧
        tokens = Source.Stmt.tokensOf body ++ [marker.1] ∧
        p.statements = Source.Stmt.trees body := by
  rw [parse_eq_ok_iff]
  constructor
  · rintro ⟨c, hc, hpass, he⟩
    obtain ⟨text, marker, hsound, rfl, rfl⟩ := Cursor.ofTokens_eq_ok_iff.1 hc
    have hallows := hsound.allows
    obtain ⟨statements, d, hstatements, hruns⟩ := runs_pass hallows.marker_kind
    obtain rfl := Except.ok.inj (hpass.symm.trans hstatements)
    obtain ⟨body, htree, hbody⟩ := hruns.sound hallows he
    obtain rfl : text = Source.Stmt.tokensOf body := by
      have hrest : text = Source.Stmt.tokensOf body ++ d.rest := hbody.passes.rest
      rwa [Cursor.rest_eq_nil hruns.isAtEnd, List.append_nil] at hrest
    refine ⟨body, ⟨marker, hsound.marker_kind⟩, ⟨?_, hbody.fits, hbody.nesting⟩, rfl, htree.symm⟩
    rintro rfl
    exact hsound.body_ne_nil (by rw [Source.Stmt.tokensOf])
  · rintro ⟨body, marker, hbody, rfl, hstatements⟩
    let c : Cursor := ⟨Source.Stmt.tokensOf body, marker.1, 0, 0⟩
    obtain ⟨statements, d, hread, hruns⟩ := runs_pass (c := c) marker.2
    obtain rfl := hruns.complete ⟨marker.2, Nat.zero_add _⟩ (hbody.spans marker.1) rfl
    rw [hstatements]
    exact ⟨c, Cursor.ofTokens_concat (hbody.sound marker), hread,
      (Source.Stmt.trees_whole body).errors⟩

end LoxFront
