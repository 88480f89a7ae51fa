/-
# Recovery is local

Tokens that are a program, or that fail before their end and have a semicolon as
the last of them, lead a pass over a longer list to their end, as if they stood
alone (`Runs.append`); what follows is then read as if it stood alone.  So the
errors of the longer list are the errors of its two parts (`reported_append`).
-/

import LoxFront.Proofs.Parse.Alike
import LoxFront.Proofs.Parse.Lost
import LoxFront.Proofs.Rule.Local

namespace LoxFront

variable {c d e : Cursor} {body body' : List Stmt} {trace trace' : List Event}
  {more : List Token} {limit : Nat}

/-- The statements of a run are read from a longer list too, and behind them the
run goes on from a cursor where the rest is left. -/
theorem Runs.append (helse : ∀ t ∈ more.head?, t.kind ≠ .elseWord) (h : Runs c body trace e)
    (hcd : c.Shares [] more limit d) (he : BeforeEnd (Stmt.errorsOf body))
    (hlast : Stmt.errorsOf body = [] ∨ ∀ t ∈ c.rest.getLast?, t.kind = .semicolon) :
    ∃ d', d.Reaches d' ∧ e.Shares [] more limit d' ∧
      ∀ body' trace' e', Runs d' body' trace' e' →
        ∃ trace'', Runs d (body ++ body') trace'' e' := by
  induction h generalizing d with
  | done => exact ⟨d, .refl d, hcd, fun body' trace' e' k => ⟨trace', k⟩⟩
  | @next c e body trace hne hlt _ ih =>
    rw [Stmt.errorsOf_cons, BeforeEnd.append] at he
    rw [Stmt.errorsOf_cons, List.append_eq_nil_iff] at hlast
    obtain ⟨hv, hshares⟩ := Rule.declaration_local helse hcd he.1 (hlast.imp_left And.left)
    have hreach := topDeclaration_reaches c
    have hrest : Stmt.errorsOf body = [] ∨
        ∀ t ∈ (topDeclaration c).cursor.rest.getLast?, t.kind = .semicolon := by
      refine hlast.imp And.right fun hall t ht => hall t ?_
      obtain ⟨p, hp⟩ := hreach
      rw [hp.rest, List.getLast?_append, ht]
      rfl
    obtain ⟨d', hd, hd', hruns⟩ := ih hshares he.2 hrest
    refine ⟨d', (topDeclaration_reaches d).trans hd, hd', fun body' trace' e' k => ?_⟩
    obtain ⟨trace'', k⟩ := hruns body' trace' e' k
    have hdne := (hcd.peek_of hne).2
    have hvalue : (topDeclaration c).value = (topDeclaration d).value := hv.symm
    rw [List.cons_append, hvalue]
    exact ⟨_, .next hdne (Rule.declaration_advances maxNesting hcd.marker' hdne) k⟩

/-! ### Reports -/

/-- What parsing says of a sound list, by the errors that stand in the statements. -/
theorem parse_eq_of_runs {text : List Token} {marker : Token} (h : Cursor.Sound text marker)
    (k : Runs ⟨text, marker, 0, 0⟩ body trace e) :
    parse (text ++ [marker]) = if Stmt.errorsOf body = [] then .ok ⟨body⟩
      else .error (.rejected ⟨Stmt.errorsOf body⟩) := by
  obtain ⟨body', d, hbody, hruns⟩ := runs_pass (c := ⟨text, marker, 0, 0⟩) h.marker_kind
  obtain ⟨rfl, -⟩ := hruns.unique k
  exact parse_of_pass (Cursor.ofTokens_concat h) hbody

/-- Parsing comes to the end of the tokens without an error there: they are a
program, or all errors are before the end marker and the last token is a semicolon,
where panic mode ends. -/
def Recovered (text : List Token) (marker : Token) : Prop :=
  (∃ p, parse (text ++ [marker]) = .ok p) ∨
    ∃ report, parse (text ++ [marker]) = .error (.rejected report) ∧ BeforeEnd report.errors ∧
      ∃ t, text.getLast? = some t ∧ t.kind = .semicolon

/-- A text that the parser recovers from reports before its end, and ends with a semicolon if
it reports at all. -/
theorem Recovered.of_runs {text : List Token} {marker : Token} (h : Cursor.Sound text marker)
    (k : Runs ⟨text, marker, 0, 0⟩ body trace e) (hr : Recovered text marker) :
    BeforeEnd (Stmt.errorsOf body) ∧
      (Stmt.errorsOf body = [] ∨ ∀ t ∈ text.getLast?, t.kind = .semicolon) := by
  rw [Recovered, parse_eq_of_runs h k] at hr
  by_cases he : Stmt.errorsOf body = []
  · rw [he]
    exact ⟨List.forall_mem_nil _, .inl rfl⟩
  · rw [if_neg he] at hr
    rcases hr with ⟨p, hp⟩ | ⟨report, hreport, hbefore, t, ht, hk⟩
    · exact nomatch hp
    · obtain rfl := Failure.rejected.inj (Except.error.inj hreport)
      refine ⟨hbefore, .inr fun s hs => ?_⟩
      rw [← Option.some.inj (ht.symm.trans hs)]
      exact hk

/-- What is reported about a text are the errors in the trees of its run. -/
theorem reported_eq_of_runs {text : List Token} {marker : Token} (h : Cursor.Sound text marker)
    (k : Runs ⟨text, marker, 0, 0⟩ body trace e) :
    reported (text ++ [marker]) = Stmt.errorsOf body := by
  obtain ⟨body', d, hbody, hruns⟩ := runs_pass (c := ⟨text, marker, 0, 0⟩) h.marker_kind
  obtain ⟨rfl, -⟩ := hruns.unique k
  exact reported_of_pass (Cursor.ofTokens_concat h) hbody

/-- **Recovery is local to statements.**  Tokens that are a program, or that fail
before their end and close with a semicolon, do not change how what follows is
read, unless it begins with `else`: the errors of both together are those of the
one before those of the other, and two programs one after another are a program
with the statements of both. -/
theorem reported_append {a b : List Token} {marker marker' : Token}
    (ha : Cursor.Sound a marker) (hb : Cursor.Sound b marker')
    (helse : ∀ t ∈ b.head?, t.kind ≠ .elseWord) (hr : Recovered a marker) :
    (∀ cause, parse (a ++ b ++ [marker']) ≠ .error (.fatal cause)) ∧
      reported (a ++ b ++ [marker']) = reported (a ++ [marker]) ++ reported (b ++ [marker']) ∧
      ∀ p q, parse (a ++ [marker]) = .ok p → parse (b ++ [marker']) = .ok q →
        parse (a ++ b ++ [marker']) = .ok ⟨p.statements ++ q.statements⟩ := by
  have hab : Cursor.Sound (a ++ b) marker' :=
    ⟨fun h => ha.body_ne_nil (List.append_eq_nil_iff.1 h).1,
      List.forall_mem_append.2 ⟨ha.body_ne_eof, hb.body_ne_eof⟩, hb.marker_kind⟩
  obtain ⟨bodyA, e, -, hA⟩ := runs_pass (c := ⟨a, marker, 0, 0⟩) ha.marker_kind
  obtain ⟨bodyB, f, -, hB⟩ := runs_pass (c := ⟨b, marker', 0, 0⟩) hb.marker_kind
  obtain ⟨hbefore, hlast⟩ := hr.of_runs ha hA
  have hshares : Cursor.Shares [] b a.length ⟨a, marker, 0, 0⟩ ⟨a ++ b, marker', 0, 0⟩ :=
    ⟨⟨a, (List.append_nil a).symm, rfl, Nat.zero_add _⟩, rfl, rfl, ha.marker_kind, hb.marker_kind⟩
  obtain ⟨d', hreach, hd', hruns⟩ := hA.append helse hshares hbefore hlast
  -- behind the first part the second is left
  have hrest : d'.rest = b := by
    obtain ⟨u, hu, hdu, -⟩ := hd'.text
    rw [Cursor.rest_eq_nil hA.isAtEnd, List.append_nil] at hu
    rw [hdu, ← hu, List.nil_append]
  obtain ⟨bodyB', f', -, hB'⟩ := runs_pass (c := d') hd'.marker'
  obtain rfl := hB.eq_of_tokens hB' hrest hreach.marker hb.marker_kind hreach.depth
  obtain ⟨trace, hAB⟩ := hruns _ _ _ hB'
  rw [reported_eq_of_runs ha hA, reported_eq_of_runs hb hB, reported_eq_of_runs hab hAB,
    parse_eq_of_runs ha hA, parse_eq_of_runs hb hB, parse_eq_of_runs hab hAB]
  refine ⟨fun cause h => ?_, Stmt.errorsOf_append _ _, fun p q hp hq => ?_⟩
  · split at h <;> simp at h
  · split at hp
    · next hpe =>
      split at hq
      · next hqe =>
        obtain rfl := Except.ok.inj hp
        obtain rfl := Except.ok.inj hq
        rw [Stmt.errorsOf_append, hpe, hqe]
        rfl
      · exact nomatch hq
    · exact nomatch hp

/-- The tokens of `1 + ;`. -/
def brokenSum : List Token :=
  [⟨.number, "1", 1, .number (.ofNat 1)⟩, ⟨.plus, "+", 1, .none⟩, ⟨.semicolon, ";", 1, .none⟩]

/-- The tokens of `var ;`. -/
def namelessVar : List Token := [⟨.varWord, "var", 2, .none⟩, ⟨.semicolon, ";", 2, .none⟩]

/-- The witness is such a text: its error is followed by a semicolon. -/
theorem brokenSum_recovered : Recovered brokenSum (.atEnd 1) :=
  .inr ⟨⟨[Complaint.noExpression.about ⟨.semicolon, ";", 1, .none⟩]⟩, rfl,
    List.forall_mem_singleton.2 (by decide), _, rfl, rfl⟩

/-- The errors of `1 + ;` and of `var ;` on the next line, both of them. -/
theorem reported_append_brokenSum :
    Cursor.Sound brokenSum (.atEnd 1) ∧ Cursor.Sound namelessVar (.atEnd 2) ∧
      (∀ t ∈ namelessVar.head?, t.kind ≠ .elseWord) ∧ Recovered brokenSum (.atEnd 1) ∧
      reported (brokenSum ++ namelessVar ++ [.atEnd 2]) =
        [Complaint.noExpression.about ⟨.semicolon, ";", 1, .none⟩,
          Complaint.noName.about ⟨.semicolon, ";", 2, .none⟩] := by
  have ha : Cursor.Sound brokenSum (.atEnd 1) := ⟨by decide, by decide, rfl⟩
  have hb : Cursor.Sound namelessVar (.atEnd 2) := ⟨by decide, by decide, rfl⟩
  have helse : ∀ t ∈ namelessVar.head?, t.kind ≠ .elseWord := by decide
  refine ⟨ha, hb, helse, brokenSum_recovered, ?_⟩
  exact (reported_append ha hb helse brokenSum_recovered).2.1.trans rfl

end LoxFront
