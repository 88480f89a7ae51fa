/-
# The errors of a report

The errors of a report come from failures of the pass, one behind the other, with a
semicolon between any two of them but at the end, and there are not many more than
semicolons (`report_spaced`).
-/

import LoxFront.Proofs.Parse.Faults
import LoxFront.Proofs.Parse.Lost
import LoxFront.Proofs.Rule.Spaced

namespace LoxFront

/-- The error of a failure. -/
def FailurePoint.error (x : FailurePoint) : ParseError := x.complaint.about x.token

/-- An event has an error exactly if it is a failure, and then that of the failure. -/
theorem Event.error?_eq (e : Event) : e.error? = e.failure?.map FailurePoint.error := by
  cases e <;> rfl

/-- The errors that are created in a pass are those of its failures, in their order. -/
theorem created_eq_map_failures (trace : List Event) :
    created trace = (failures trace).map FailurePoint.error := by
  rw [created, failures, List.map_filterMap, funext Event.error?_eq]

/-- A failure that events tell of is at its token. -/
theorem Runs.token_of_failure {tokens : List Token} {c d : Cursor} {body : List Stmt}
    {trace : List Event} (h : Runs c body trace d) (hc : Cursor.ofTokens tokens = .ok c) :
    ∀ x ∈ failures trace, tokens[x.position]? = some x.token := by
  intro x hx
  obtain ⟨e, he, hfailure⟩ := List.mem_filterMap.1 hx
  obtain ⟨m, hm, hat⟩ := h.tells e he
  cases e with
  | failed position complaint token =>
    obtain rfl := Option.some.inj hfailure
    obtain ⟨rfl, rfl⟩ := hat
    exact Cursor.getElem?_position hc hm
  | entered | panicked | resumed | returned => exact nomatch hfailure

/-- The failures of a run are spaced. -/
theorem Runs.spaced {tokens : List Token} {c d : Cursor} {body : List Stmt} {trace : List Event}
    (h : Runs c body trace d) (hc : c.Allows maxNesting) (ho : c.On tokens) :
    Rule.Spaced tokens (maxNesting + 1) c d (failedAt trace) := by
  induction h with
  | done => exact .nil (.refl _)
  | @next c d rest trace _ _ hrest ih =>
    have hreach := topDeclaration_reaches c
    have hfirst : Rule.Spaced tokens (maxNesting + 1) c (topDeclaration c).cursor
        (failedAt (topDeclaration c).trace) :=
      Rule.declaration_spaced ho (Rule.item_spaces
        ((Rule.statement_spaces tokens maxNesting).1 c hc ho))
    have hlater := ih (hc.of_reaches hreach) (ho.of_reaches hreach)
    rw [failedAt_append]
    cases hend : (topDeclaration c).cursor.isAtEnd with
    | true =>
      obtain ⟨-, rfl, rfl⟩ := hrest.unique (.done hend)
      show Rule.Spaced tokens _ c _ (_ ++ [])
      rwa [List.append_nil]
    | false =>
      have hreach' := hrest.reaches
      exact hfirst.append hlater hend hreach hreach' (ho.of_reaches (hreach.trans hreach'))

/-- A report is of failures of the pass, each at its token. -/
theorem exists_failures {tokens : List Token} {report : Report}
    (h : parse tokens = .error (.rejected report)) :
    ∃ c d body, Cursor.ofTokens tokens = .ok c ∧ Runs c body (pass c).trace d ∧
      ∃ points : List FailurePoint, points.Sublist (failures (pass c).trace) ∧
        report.errors = points.map FailurePoint.error := by
  cases hc : Cursor.ofTokens tokens with
  | error f => exact nomatch (parse_of_error hc).symm.trans h
  | ok c =>
    obtain ⟨text, marker, hsound, -, rfl⟩ := Cursor.ofTokens_eq_ok_iff.1 hc
    obtain ⟨body, d, hbody, hruns⟩ := runs_pass hsound.allows.marker_kind
    have hreported : report.errors = Stmt.errorsOf body := by
      rw [← reported_of_pass hc hbody, reported, h]
      rfl
    have haccount := (hruns.account hsound.allows).sublist
    rw [← hreported, created_eq_map_failures, List.sublist_map_iff] at haccount
    obtain ⟨points, hpoints, herrors⟩ := haccount
    exact ⟨_, d, body, rfl, hruns, points, hpoints, herrors⟩

/-- **The errors of a report are spaced.**  They come from failures of the pass, each at a token of
the list; one is behind the other, and only at the end can two be at the same token.  Between two
of them, if the later one is not at the end, stands a semicolon, at the token of the earlier one
or behind it.  There are no more of them than semicolons, but for one and for as many as there
can be regions in one another. -/
theorem report_spaced {tokens : List Token} {report : Report}
    (h : parse tokens = .error (.rejected report)) :
    ∃ (c : Cursor) (points : List FailurePoint), Cursor.ofTokens tokens = .ok c ∧
      points.Sublist (failures (pass c).trace) ∧ report.errors = points.map FailurePoint.error ∧
      (∀ x ∈ points, tokens[x.position]? = some x.token) ∧
      points.Pairwise (fun x y => x.position < y.position ∨
        x.position = y.position ∧ y.position + 1 = tokens.length) ∧
      points.Pairwise (fun x y => y.position + 1 < tokens.length →
        SemicolonIn tokens x.position y.position) ∧
      report.errors.length ≤ tokens.countP (fun t => t.kind == .semicolon) + maxNesting + 1 := by
  obtain ⟨c, d, body, hc, hruns, points, hpoints, herrors⟩ := exists_failures h
  obtain ⟨text, marker, hsound, rfl, rfl⟩ := Cursor.ofTokens_eq_ok_iff.1 hc
  have hspaced := hruns.spaced hsound.allows (show Cursor.On _ _ from rfl)
  have hparted : points.Pairwise fun x y => Parted (text ++ [marker]) x.position y.position :=
    (List.pairwise_map.1 hspaced.pairwise).sublist hpoints
  refine ⟨_, points, hc, hpoints, herrors, fun x hx => ?_, hparted.imp fun hxy => ?_,
    hparted.imp fun hxy hlt => ?_, ?_⟩
  · exact hruns.token_of_failure hc x (hpoints.subset hx)
  · rcases hxy with ⟨s, t, hx, hy, -⟩ | ⟨hle, hlast⟩
    · exact .inl (by omega)
    · rcases Nat.lt_or_eq_of_le hle with hlt | heq
      · exact .inl hlt
      · exact .inr ⟨heq, hlast⟩
  · exact hxy.resolve_right fun hlast => by omega
  · have hcount := hspaced.count
    have hend := hruns.isAtEnd
    have hlen := hpoints.length_le
    rw [Cursor.semicolons_of_isAtEnd hend, hend, if_pos rfl, failedAt, List.length_map]
      at hcount
    dsimp only [Cursor.semicolons] at hcount
    rw [herrors, List.length_map, List.countP_append]
    omega

/-- The tokens of `a + ; { {`: an expression without its second operand, and two blocks that are
not closed. -/
def openBlocks : List Token :=
  [⟨.identifier, "a", 1, .none⟩, ⟨.plus, "+", 1, .none⟩, ⟨.semicolon, ";", 1, .none⟩,
    ⟨.leftBrace, "\x7b", 1, .none⟩, ⟨.leftBrace, "\x7b", 1, .none⟩, .atEnd 1]

/-- The missing operand is reported at the semicolon, and each of the open blocks at the end
marker. -/
theorem report_spaced_openBlocks :
    let report : Report := ⟨[Complaint.noExpression.about ⟨.semicolon, ";", 1, .none⟩,
      Complaint.openBlock.about (.atEnd 1), Complaint.openBlock.about (.atEnd 1)]⟩
    parse openBlocks = .error (.rejected report) ∧
      ∃ (c : Cursor) (points : List FailurePoint), Cursor.ofTokens openBlocks = .ok c ∧
        points.Sublist (failures (pass c).trace) ∧ report.errors = points.map FailurePoint.error ∧
        (∀ x ∈ points, openBlocks[x.position]? = some x.token) ∧
        points.Pairwise (fun x y => x.position < y.position ∨
          x.position = y.position ∧ y.position + 1 = openBlocks.length) ∧
        points.Pairwise (fun x y => y.position + 1 < openBlocks.length →
          SemicolonIn openBlocks x.position y.position) ∧
        report.errors.length ≤
          openBlocks.countP (fun t => t.kind == .semicolon) + maxNesting + 1 :=
  ⟨rfl, report_spaced rfl⟩

end LoxFront
