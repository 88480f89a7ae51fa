/-
# The first impossible token

The first error of a pass stands at the first token that no program goes on with,
unless a region too many was opened (`first_failure_impossible`).  What stands
before it begins a program (`Runs.breaks`); and as a failure depends only on the
tokens up to it, a program that goes on with the token would fail there too, which
no program does (`tooDeep_of_derives`).
-/

import LoxFront.Proofs.Parse.Alike
import LoxFront.Proofs.Parse.Grammar
import LoxFront.Proofs.Source.StmtBreaks

namespace LoxFront

/-- What was passed where a pass fails first begins a program. -/
theorem Runs.breaks {c d : Cursor} {statements : List Stmt} {trace : List Event}
    (h : Runs c statements trace d) (hc : c.Allows maxNesting) {x : FailurePoint}
    (hx : firstFailure? trace = some x) (hne : x.complaint ≠ .tooDeep) :
    ∃ body, Source.Stmt.AllDerive body ∧ c.Begins x (Source.Stmt.tokensOf body) := by
  induction h with
  | done => exact nomatch hx
  | @next c d _ _ _ _ _ ih =>
    rw [firstFailure?_append, Option.or_eq_some_iff] at hx
    rcases hx with hx | ⟨hnone, hx⟩
    · obtain ⟨s, hs, hbegins⟩ := Rule.declaration_breaks maxNesting hc hx hne
      exact ⟨[s], ⟨hs, trivial⟩, hbegins.append _⟩
    · obtain ⟨s, -, hspan⟩ := Rule.declaration_of_reads hc ⟨⟨rfl, rfl⟩, hnone⟩
      obtain ⟨body, hbody, hbegins⟩ := ih (hc.of_passes hspan.passes) hx
      exact ⟨s :: body, ⟨hspan.fits.derives, hbody⟩, hbegins.after hspan.passes⟩

/-- **A pass over a program fails nowhere but at a region too many.** -/
theorem tooDeep_of_derives {body : List Source.Stmt} (hbody : Source.Stmt.AllDerive body)
    {marker : Token} (hm : marker.kind = .eof) {statements : List Stmt} {trace : List Event}
    {d : Cursor} (h : Runs ⟨Source.Stmt.tokensOf body, marker, 0, 0⟩ statements trace d)
    {x : FailurePoint} (hx : firstFailure? trace = some x) : x.complaint = .tooDeep := by
  obtain ⟨body, hfits, htokens⟩ := Source.Stmt.exists_allFit hbody
  rw [← htokens] at h
  let e : Cursor := ⟨[], marker, (Source.Stmt.tokensOf body).length, 0⟩
  have hpasses : Cursor.Passes ⟨Source.Stmt.tokensOf body, marker, 0, 0⟩
      (Source.Stmt.tokensOf body) e := ⟨(List.append_nil _).symm, rfl, (Nat.zero_add _).symm, rfl⟩
  have hallows : Cursor.Allows ⟨Source.Stmt.tokensOf body, marker, 0, 0⟩ maxNesting :=
    ⟨hm, Nat.zero_add _⟩
  have hread := h.complete_unless hallows ⟨hfits, Nat.le_refl _, hpasses⟩ rfl
  cases hplace : Cursor.limit ⟨Source.Stmt.tokensOf body, marker, 0, 0⟩
      (Source.Stmt.levelsOf body) with
  | none =>
    rw [hplace] at hread
    exact nomatch hread.2.symm.trans hx
  | some p =>
    rw [hplace] at hread
    obtain ⟨t, ht⟩ := hread
    obtain rfl := Option.some.inj (hx.symm.trans ht)
    rfl

/-- No program goes on with the token where a pass fails first. -/
theorem not_prefix_of_derives {text : List Token} {marker : Token} (hm : marker.kind = .eof)
    {statements : List Stmt} {trace : List Event} {d : Cursor}
    (h : Runs ⟨text, marker, 0, 0⟩ statements trace d) {x : FailurePoint}
    (hx : firstFailure? trace = some x) (hne : x.complaint ≠ .tooDeep)
    (hlt : x.position < text.length) {body : List Source.Stmt}
    (hbody : Source.Stmt.AllDerive body) :
    ¬text.take (x.position + 1) <+: Source.Stmt.tokensOf body := by
  rintro ⟨r', hr'⟩
  have hshares : Cursor.Shares (text.drop (x.position + 1)) r' (x.position + 1)
      ⟨text, marker, 0, 0⟩ ⟨Source.Stmt.tokensOf body, marker, 0, 0⟩ := by
    refine ⟨⟨text.take (x.position + 1), (List.take_append_drop _ _).symm, hr'.symm, ?_⟩, rfl, rfl,
      hm, hm⟩
    rw [List.length_take, Nat.min_eq_left hlt, Nat.zero_add]
  obtain ⟨statements', d', -, h'⟩ :=
    runs_pass (c := ⟨Source.Stmt.tokensOf body, marker, 0, 0⟩) hm
  have hx' := h.failsFirst h' hshares hx (Nat.lt_succ_self _)
  exact hne (tooDeep_of_derives hbody hm h' hx')

/-- **The first error stands at the first impossible token.**  If the first error of
a pass is not that a region too many is opened, then the tokens before the one it
stands at begin a program, and no program goes on with that token; if it is the end
marker, the tokens before it are no program.  Programs are those that the grammar
derives, however many regions stand in one another. -/
theorem first_failure_impossible {tokens : List Token} {c : Cursor} {x : FailurePoint}
    (hc : Cursor.ofTokens tokens = .ok c) (hx : firstFailure? (pass c).trace = some x)
    (hne : x.complaint ≠ .tooDeep) :
    tokens[x.position]? = some x.token ∧
      (∃ body, Source.Stmt.AllDerive body ∧
        tokens.take x.position <+: Source.Stmt.tokensOf body) ∧
      ∀ body, Source.Stmt.AllDerive body →
        ¬tokens.take (x.position + 1) <+: Source.Stmt.tokensOf body ∧
          (x.token.kind = .eof → Source.Stmt.tokensOf body ≠ tokens.take x.position) := by
  obtain ⟨text, marker, hsound, rfl, rfl⟩ := Cursor.ofTokens_eq_ok_iff.1 hc
  have hm := hsound.marker_kind
  obtain ⟨statements, d, -, hruns⟩ := runs_pass (c := ⟨text, marker, 0, 0⟩) hm
  obtain ⟨m, hreaches, hposition, htoken⟩ := exists_of_firstFailure? hruns.tells hx
  have hget : (text ++ [marker])[x.position]? = some x.token := by
    rw [hposition, htoken]
    exact Cursor.getElem?_position hc hreaches
  refine ⟨hget, ?_, fun body hbody => ⟨fun hprefix => ?_, fun hend heq => ?_⟩⟩
  · obtain ⟨body, hbody, p, i, hp, hi, hprefix⟩ := hruns.breaks hsound.allows hx hne
    have htake : (text ++ [marker]).take x.position = p := by
      have hlen : x.position = p.length := hi.symm.trans (hp.position.trans (Nat.zero_add _))
      have hrest : text = p ++ i.rest := hp.rest
      rw [hlen, hrest, List.append_assoc, List.take_left]
    exact ⟨body, hbody, htake ▸ hprefix⟩
  · rcases Nat.lt_or_ge x.position text.length with hlt | hge
    · rw [List.take_append_of_le_length hlt] at hprefix
      exact not_prefix_of_derives hm hruns hx hne hlt hbody hprefix
    · -- no end marker stands in a program
      have hmem : marker ∈ Source.Stmt.tokensOf body := by
        refine hprefix.subset ?_
        rw [List.take_of_length_le (by simp; omega)]
        simp
      exact Source.Stmt.tokensOf_ne_eof body marker hmem hm
  · rcases Nat.lt_or_ge x.position text.length with hlt | hge
    · rw [List.getElem?_append_left hlt] at hget
      exact hsound.body_ne_eof x.token (List.mem_of_getElem? hget) hend
    · have hlen := (List.getElem?_eq_some_iff.1 hget).1
      obtain rfl : text = Source.Stmt.tokensOf body := by
        rw [heq, List.take_append_of_le_length (by simp at hlen; omega), List.take_of_length_le hge]
      exact hne (tooDeep_of_derives hbody hm hruns hx)

/-- After `a +` no program goes on with a semicolon. -/
theorem first_failure_impossible_sum :
    let name : Token := ⟨.identifier, "a", 1, .none⟩
    let semicolon : Token := ⟨.semicolon, ";", 1, .none⟩
    let tokens := [name, ⟨.plus, "+", 1, .none⟩, semicolon, .atEnd 1]
    let c : Cursor := ⟨tokens.dropLast, .atEnd 1, 0, 0⟩
    let x : FailurePoint := ⟨2, .noExpression, semicolon⟩
    Cursor.ofTokens tokens = .ok c ∧ firstFailure? (pass c).trace = some x ∧
      x.complaint ≠ .tooDeep ∧ tokens[x.position]? = some x.token ∧
        (∃ body, Source.Stmt.AllDerive body ∧
          tokens.take x.position <+: Source.Stmt.tokensOf body) ∧
        ∀ body, Source.Stmt.AllDerive body →
          ¬tokens.take (x.position + 1) <+: Source.Stmt.tokensOf body ∧
            (x.token.kind = .eof → Source.Stmt.tokensOf body ≠ tokens.take x.position) := by
  intro name semicolon tokens c x
  have hc : Cursor.ofTokens tokens = .ok c := rfl
  have hx : firstFailure? (pass c).trace = some x := by decide +kernel +zetaReduce
  have hne : x.complaint ≠ .tooDeep := by decide
  exact ⟨hc, hx, hne, first_failure_impossible hc hx hne⟩

end LoxFront
