/-
# The limit of regions

A program of the grammar parses if and only if no more than 32 regions stand in one
another in it.  If there are more, a first token opens a region of level 33, and the
first error created is about the token behind it (`parse_derived_iff`).
-/

import LoxFront.Proofs.Parse.Impossible
import LoxFront.Proofs.Parse.Program

namespace LoxFront

/-- The tokens are rejected, and the first error created is that too many regions
stand in one another, about the token behind the one at `i`. -/
def TooDeepBehind (tokens : List Token) (i : Nat) : Prop :=
  ∃ c u report, Cursor.ofTokens tokens = .ok c ∧ tokens[i + 1]? = some u ∧
    parse tokens = .error (.rejected report) ∧
    firstFailure? (pass c).trace = some ⟨i + 1, .tooDeep, u⟩ ∧
    (created (pass c).trace).head? = some ⟨"Too much nesting.", u⟩

/-- In a pass over a program nothing fails. -/
theorem firstFailure?_of_parse {tokens : List Token} {p : Program} {c : Cursor}
    (h : parse tokens = .ok p) (hc : Cursor.ofTokens tokens = .ok c) :
    firstFailure? (pass c).trace = none := by
  obtain ⟨body, marker, hbody, rfl, -⟩ := parse_eq_ok_iff_program.1 h
  obtain rfl := Except.ok.inj ((Cursor.ofTokens_concat (hbody.sound marker)).symm.trans hc)
  obtain ⟨statements, d, -, hruns⟩ :=
    runs_pass (c := ⟨Source.Stmt.tokensOf body, marker.1, 0, 0⟩) marker.2
  have hread := hruns.complete_unless ⟨marker.2, Nat.zero_add _⟩ (hbody.spans marker.1) rfl
  rw [(Cursor.limit_levelsOf_eq_none_iff rfl).2 hbody.nesting] at hread
  exact hread.2

/-- Declarations in which a token opens a region too many are rejected there. -/
theorem tooDeepBehind_of_fits {body : List Source.Stmt} (hne : body ≠ [])
    (hfits : Source.Stmt.AllFit body) (marker : Source.Mark .eof) {i : Nat}
    (hi : (Source.Stmt.levelsOf body 0).findIdx? (· == some 33) = some i) :
    TooDeepBehind (Source.Stmt.tokensOf body ++ [marker.1]) i := by
  let c : Cursor := ⟨Source.Stmt.tokensOf body, marker.1, 0, 0⟩
  have hsound := Source.Stmt.sound_tokensOf hne marker
  have hc : Cursor.ofTokens (Source.Stmt.tokensOf body ++ [marker.1]) = .ok c :=
    Cursor.ofTokens_concat hsound
  obtain ⟨statements, d, -, hruns⟩ := runs_pass (c := c) marker.2
  -- the run fails where the first region too many is opened
  have hlimit : c.limit (Source.Stmt.levelsOf body) = some (i + 1) := by
    show ((Source.Stmt.levelsOf body 0).findIdx? (· == some 33)).map (0 + · + 1) = _
    rw [hi, Option.map_some, Nat.zero_add]
  have hread := hruns.complete_unless hsound.allows ⟨hfits, Nat.le_refl _, c.passes_rest⟩ rfl
  rw [hlimit] at hread
  obtain ⟨u, hu⟩ := hread
  obtain ⟨m, hreaches, hposition, htoken⟩ := exists_of_firstFailure? hruns.tells hu
  have hget : (Source.Stmt.tokensOf body ++ [marker.1])[i + 1]? = some u := by
    rw [show i + 1 = m.position from hposition, show u = m.peek from htoken]
    exact Cursor.getElem?_position hc hreaches
  have hcreated : (created (pass c).trace).head? = some ⟨"Too much nesting.", u⟩ := by
    rw [head?_created, hu]
    rfl
  rcases parse_ends hc with ⟨p, hp⟩ | ⟨report, hreport, -⟩
  · exact nomatch (firstFailure?_of_parse hp hc).symm.trans hu
  · exact ⟨c, u, report, hc, hget, hreport, hu, hcreated⟩

/-- **The limit of regions is exact, and reported where it is passed.**  Tokens that
the grammar derives have a reading in which each `else` goes with the nearest `if`.
They parse if and only if no more than 32 regions stand in one another in it; if
there are more, a first token opens a region of level 33, and the first error
created is about the token behind it. -/
theorem parse_derived_iff {body : List Source.Stmt} (hne : body ≠ [])
    (hbody : Source.Stmt.AllDerive body) (marker : Source.Mark .eof) :
    (∃ read, Source.Stmt.AllFit read ∧
      Source.Stmt.tokensOf read = Source.Stmt.tokensOf body) ∧
    ∀ read, Source.Stmt.AllFit read → Source.Stmt.tokensOf read = Source.Stmt.tokensOf body →
      ((∃ p, parse (Source.Stmt.tokensOf body ++ [marker.1]) = .ok p) ↔
        Source.Stmt.nestingOf read ≤ 32) ∧
      (32 < Source.Stmt.nestingOf read →
        ∃ i, (Source.Stmt.levelsOf read 0).findIdx? (· == some 33) = some i ∧
          TooDeepBehind (Source.Stmt.tokensOf body ++ [marker.1]) i) := by
  refine ⟨Source.Stmt.exists_allFit hbody, fun read hfits htokens => ?_⟩
  have hread : read ≠ [] := by
    rintro rfl
    exact (Source.Stmt.sound_tokensOf hne marker).body_ne_nil htokens.symm
  rw [← htokens]
  have hdeep (h : 32 < Source.Stmt.nestingOf read) :
      ∃ i, (Source.Stmt.levelsOf read 0).findIdx? (· == some 33) = some i ∧
        TooDeepBehind (Source.Stmt.tokensOf read ++ [marker.1]) i := by
    have hmem : some 33 ∈ Source.Stmt.levelsOf read 0 :=
      (Source.Stmt.mem_levelsOf_iff read (d := 0) (k := 32)).2 h
    have hsome : ((Source.Stmt.levelsOf read 0).findIdx? (· == some 33)).isSome = true := by
      rw [List.findIdx?_isSome, List.any_eq_true]
      exact ⟨_, hmem, beq_self_eq_true _⟩
    obtain ⟨i, hi⟩ := Option.isSome_iff_exists.1 hsome
    exact ⟨i, hi, tooDeepBehind_of_fits hread hfits marker hi⟩
  refine ⟨⟨fun ⟨p, hp⟩ => ?_, fun h => ?_⟩, hdeep⟩
  · rw [← Nat.not_lt]
    intro h
    obtain ⟨i, -, c, u, report, -, -, hreport, -⟩ := hdeep h
    exact nomatch hp.symm.trans hreport
  · exact ⟨⟨Source.Stmt.trees read⟩,
      parse_eq_ok_iff_program.2 ⟨read, marker, ⟨hread, hfits, h⟩, rfl, rfl⟩⟩

/-- Of 33 minus signs in front of a name the last one opens a region too many. -/
theorem parse_derived_iff_minus :
    let minus : Source.Word Kind.Prefixes := ⟨⟨.minus, "-", 1, .none⟩, by decide⟩
    let name : Source.Expr := .atom ⟨⟨.identifier, "x", 1, .none⟩, by decide⟩
    let semicolon : Source.Mark .semicolon := ⟨⟨.semicolon, ";", 1, .none⟩, rfl⟩
    let body : List Source.Stmt :=
      [.expression ((List.replicate 33 minus).foldr .unary name) semicolon]
    body ≠ [] ∧ Source.Stmt.AllDerive body ∧
      TooDeepBehind (Source.Stmt.tokensOf body ++ [.atEnd 1]) 32 := by
  intro minus name semicolon body
  have hfits : Source.Stmt.AllFit body := by decide
  have hne : body ≠ [] := List.cons_ne_nil _ _
  obtain ⟨-, hread⟩ := parse_derived_iff hne hfits.allDerive ⟨.atEnd 1, rfl⟩
  obtain ⟨i, hi, hdeep⟩ := (hread body hfits rfl).2 (by decide)
  have hlast : (Source.Stmt.levelsOf body 0).findIdx? (· == some 33) = some 32 := by decide
  obtain rfl := Option.some.inj (hlast.symm.trans hi)
  exact ⟨hne, hfits.allDerive, hdeep⟩

end LoxFront
