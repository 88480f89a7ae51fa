/-
# Parsing looks at kinds only

Two lists with tokens of the same kinds, place by place, have the same outcome: both
are refused, or both are the same program but for what the tokens hold, or both have as
many errors, each of which says the same at a token of the same kind
(`parse_of_kinds`).  The one message that quotes its token differs in that text.
-/

import LoxFront.Proofs.Parse.Alike
import LoxFront.Proofs.Tree.Bare

namespace LoxFront

/-- Two tokens of the same kind. -/
def Token.SameKind (s t : Token) : Prop := s.kind = t.kind

/-- Tokens of one kind are alike to every rule, which sees kinds only. -/
theorem Token.sameKind_law : TokenLaw Token.SameKind := ⟨fun _ => rfl, id, fun _ => rfl⟩

/-- The two errors are at tokens of the same kind and say the same, but that each quotes
its own token if the message is about what stands behind a declared name. -/
structure ParseError.SameButText (d e : ParseError) : Prop where
  kind : d.token.kind = e.token.kind
  message : d.message = e.message ∨
    d.message = "Unexpected token '" ++ d.token.lexeme ++ "' after variable name." ∧
      e.message = "Unexpected token '" ++ e.token.lexeme ++ "' after variable name."

/-- A complaint says the same about tokens of the same kind, but for a quoted text. -/
theorem Complaint.about_sameButText (k : Complaint) {s t : Token} (h : s.kind = t.kind) :
    (k.about s).SameButText (k.about t) := by
  refine ⟨h, ?_⟩
  cases k with
  | afterName =>
    show message s afterName = message t afterName ∨
      message s afterName = "Unexpected token '" ++ s.lexeme ++ "' after variable name." ∧
        message t afterName = "Unexpected token '" ++ t.lexeme ++ "' after variable name."
    rw [message, message, h]
    split
    · exact .inl rfl
    · exact .inr ⟨rfl, rfl⟩
  | _ => exact .inl rfl

/-- Errors about tokens of one kind differ at most in the text of the token. -/
theorem ParseError.Like.sameButText {d e : ParseError} (h : d.Like Token.SameKind e) :
    d.SameButText e := by
  cases h with
  | refl => exact ⟨rfl, .inl rfl⟩
  | about k h => exact k.about_sameButText h

/-! ### Lists of the same kinds -/

variable {s t body : List Token} {marker : Token}

/-- Lists with the same kinds have tokens of one kind at each place. -/
theorem forall₂_sameKind (h : s.map Token.kind = t.map Token.kind) :
    List.Forall₂ Token.SameKind s t := by
  have heq : List.Forall₂ Eq (s.map Token.kind) (t.map Token.kind) :=
    List.forall₂_eq_eq_eq ▸ h
  rw [List.forall₂_map_left_iff, List.forall₂_map_right_iff] at heq
  exact heq

/-- A list of the kinds of a sound list is sound, and the cursors are compared. -/
theorem Cursor.Sound.of_kinds (hs : Sound body marker)
    (h : (body ++ [marker]).map Token.kind = t.map Token.kind) :
    ∃ body' marker', t = body' ++ [marker'] ∧ Sound body' marker' ∧
      (Comparison.byTokens Token.SameKind).cursors ⟨body, marker, 0, 0⟩
        ⟨body', marker', 0, 0⟩ := by
  rw [List.map_append, eq_comm, List.map_eq_append_iff] at h
  obtain ⟨body', last, rfl, hbody, hlast⟩ := h
  obtain ⟨marker', rfl, hmarker⟩ := List.map_eq_singleton_iff.1 hlast
  refine ⟨body', marker', rfl, ⟨?_, ?_, hmarker.trans hs.marker_kind⟩,
    forall₂_sameKind hbody.symm, hmarker.symm, hs.marker_kind, rfl⟩
  · rintro rfl
    exact hs.body_ne_nil (List.map_eq_nil_iff.1 hbody.symm)
  · intro u hu hk
    obtain ⟨v, hv, hvk⟩ := List.mem_map.1 (hbody ▸ List.mem_map_of_mem hu)
    exact hs.body_ne_eof v hv (hvk.trans hk)

/-- What has a cursor is told by the kinds. -/
theorem Cursor.exists_error_of_kinds (h : s.map Token.kind = t.map Token.kind) {f : Fault}
    (hf : Cursor.ofTokens s = .error f) : ∃ f', Cursor.ofTokens t = .error f' := by
  cases hc : Cursor.ofTokens t with
  | error f' => exact ⟨f', rfl⟩
  | ok c =>
    obtain ⟨body, marker, hsound, rfl, -⟩ := Cursor.ofTokens_eq_ok_iff.1 hc
    obtain ⟨body', marker', rfl, hsound', -⟩ := hsound.of_kinds h.symm
    rw [Cursor.ofTokens_concat hsound'] at hf
    exact nomatch hf

/-- **Parsing depends on the kinds of tokens only.**  Two lists that have tokens of the
same kinds, place by place, are both programs, with the same tree but for the texts, lines
and values of tokens; or both are rejected, with as many errors, which are at tokens of the
same kinds and say the same but for a quoted text; or both are refused outright. -/
theorem parse_of_kinds (h : s.map Token.kind = t.map Token.kind) :
    (∃ p q, parse s = .ok p ∧ parse t = .ok q ∧ p.bare = q.bare) ∨
      (∃ r r', parse s = .error (.rejected r) ∧ parse t = .error (.rejected r') ∧
        r.errors ≠ [] ∧ List.Forall₂ ParseError.SameButText r.errors r'.errors) ∨
      ∃ cause cause', parse s = .error (.fatal cause) ∧ parse t = .error (.fatal cause') := by
  cases hc : Cursor.ofTokens s with
  | error f =>
    obtain ⟨f', hf'⟩ := Cursor.exists_error_of_kinds h hc
    exact .inr (.inr ⟨_, _, parse_of_error hc, parse_of_error hf'⟩)
  | ok c =>
    obtain ⟨text, marker, hsound, rfl, rfl⟩ := Cursor.ofTokens_eq_ok_iff.1 hc
    obtain ⟨text', marker', rfl, hsound', hcursors⟩ := hsound.of_kinds h
    obtain ⟨body, e, hbody, hruns⟩ := runs_pass (c := ⟨text, marker, 0, 0⟩) hsound.marker_kind
    obtain ⟨body', e', hbody', hruns'⟩ :=
      runs_pass (c := ⟨text', marker', 0, 0⟩) hsound'.marker_kind
    have hlike : Stmt.AllLike Token.SameKind body body' :=
      (hruns.alike (Comparison.byTokens_lawful Token.sameKind_law) hruns' hcursors).elim
        And.left False.elim
    have herrors := hlike.errorsOf
    rw [parse_of_pass hc hbody, parse_of_pass (Cursor.ofTokens_concat hsound') hbody']
    by_cases he : Stmt.errorsOf body = []
    · have he' : Stmt.errorsOf body' = [] := by
        rw [he] at herrors
        exact List.forall₂_nil_left_iff.1 herrors
      rw [if_pos he, if_pos he']
      exact .inl ⟨_, _, rfl, rfl, congrArg Program.mk (hlike.bare_eq id he)⟩
    · have he' : Stmt.errorsOf body' ≠ [] := fun hnil => he <| by
        rw [hnil] at herrors
        exact List.forall₂_nil_right_iff.1 herrors
      rw [if_neg he, if_neg he']
      exact .inr (.inl ⟨_, _, rfl, rfl, he, herrors.imp fun _ _ => ParseError.Like.sameButText⟩)

/-- The tokens of `var x x;` on a line, with some name for `x`. -/
def declaredTwice (name : String) (line : Nat) : List Token :=
  [⟨.varWord, "var", line, .none⟩, ⟨.identifier, name, line, .none⟩,
    ⟨.identifier, name, line, .none⟩, ⟨.semicolon, ";", line, .none⟩, .atEnd line]

/-- `var a a;` and `var b b;` on the next line: each error quotes its own name. -/
theorem parse_of_kinds_declaredTwice :
    (declaredTwice "a" 1).map Token.kind = (declaredTwice "b" 2).map Token.kind ∧
      ∃ r r', parse (declaredTwice "a" 1) = .error (.rejected r) ∧
        parse (declaredTwice "b" 2) = .error (.rejected r') ∧ r ≠ r' ∧
        List.Forall₂ ParseError.SameButText r.errors r'.errors := by
  have hkinds : (declaredTwice "a" 1).map Token.kind = (declaredTwice "b" 2).map Token.kind := rfl
  have ha : parse (declaredTwice "a" 1) =
      .error (.rejected ⟨[Complaint.afterName.about ⟨.identifier, "a", 1, .none⟩]⟩) := rfl
  have hb : parse (declaredTwice "b" 2) =
      .error (.rejected ⟨[Complaint.afterName.about ⟨.identifier, "b", 2, .none⟩]⟩) := rfl
  refine ⟨hkinds, _, _, ha, hb, by decide, ?_⟩
  rcases parse_of_kinds hkinds with ⟨p, -, hp, -⟩ | ⟨r, r', hr, hr', -, hsame⟩ | ⟨cause, -, hf, -⟩
  · exact nomatch ha.symm.trans hp
  · obtain rfl := Failure.rejected.inj (Except.error.inj (ha.symm.trans hr))
    obtain rfl := Failure.rejected.inj (Except.error.inj (hb.symm.trans hr'))
    exact hsame
  · exact nomatch ha.symm.trans hf

end LoxFront
