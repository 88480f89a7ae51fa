/-
# Cursors over a list of tokens

A list of tokens is sound if it ends in an end marker, has no other and something
before it; these are the lists that have a cursor (`Cursor.ofTokens_eq_ok_iff`).
Every cursor that is reached from there by single steps stands at a token of the
list (`Cursor.getElem?_position`), and panic mode is made of such steps
(`Cursor.moves_resume`).
-/

import LoxFront.Proofs.Cursor.Passes

namespace LoxFront
namespace Cursor

/-- The tokens before the end marker: one at least, and no other end marker. -/
structure Sound (body : List Token) (marker : Token) : Prop where
  body_ne_nil : body ≠ []
  body_ne_eof : ∀ t ∈ body, t.kind ≠ .eof
  marker_kind : marker.kind = .eof

/-- At the start of a sound list all regions can still be opened. -/
theorem Sound.allows {body : List Token} {marker : Token} (h : Sound body marker) :
    Allows ⟨body, marker, 0, 0⟩ maxNesting :=
  ⟨h.marker_kind, Nat.zero_add _⟩

/-- The search for an end marker among the tokens before the last fails exactly if there is
none. -/
theorem findIdx?_eof_eq_none_iff {body : List Token} :
    body.findIdx? (fun t => t.kind == .eof) = none ↔ ∀ t ∈ body, t.kind ≠ .eof := by
  simp

/-- On a sound list a cursor is made: at the first token, at depth zero. -/
theorem ofTokens_concat {body : List Token} {marker : Token} (h : Sound body marker) :
    ofTokens (body ++ [marker]) = .ok ⟨body, marker, 0, 0⟩ := by
  have hnone := findIdx?_eof_eq_none_iff.2 h.body_ne_eof
  cases body with
  | nil => exact absurd rfl h.body_ne_nil
  | cons t rest =>
    simp only [ofTokens, List.getLast?_concat, List.dropLast_concat, h.marker_kind, if_true]
    rw [hnone]

/-- **The sound lists of tokens are those that have a cursor.** -/
theorem ofTokens_eq_ok_iff {tokens : List Token} {c : Cursor} :
    ofTokens tokens = .ok c ↔
      ∃ body marker, Sound body marker ∧ tokens = body ++ [marker] ∧ c = ⟨body, marker, 0, 0⟩ := by
  constructor
  · intro h
    rcases List.eq_nil_or_concat tokens with rfl | ⟨body, marker, rfl⟩
    · simp [ofTokens] at h
    rw [List.concat_eq_append] at h ⊢
    simp only [ofTokens, List.getLast?_concat, List.dropLast_concat] at h
    split at h
    · next hm =>
      split at h
      · simp at h
      · next hne =>
        split at h
        · simp at h
        · next hnone =>
          refine ⟨body, marker, ⟨?_, findIdx?_eof_eq_none_iff.1 hnone, hm⟩, rfl, ?_⟩
          · rintro rfl
            exact hne rfl
          · exact (Except.ok.inj h).symm
    · simp at h
  · rintro ⟨body, marker, h, rfl, rfl⟩
    exact ofTokens_concat h

/-- The three ways in which a list with a last token can fail to be sound. -/
theorem not_sound_iff {body : List Token} {marker : Token} :
    ¬Sound body marker ↔ marker.kind ≠ .eof ∨ body = [] ∨ ∃ t ∈ body, t.kind = .eof := by
  constructor
  · intro h
    by_cases hm : marker.kind = .eof
    · by_cases hb : body = []
      · exact .inr (.inl hb)
      · refine .inr (.inr (Classical.byContradiction fun hno => h ⟨hb, fun t ht hk => ?_, hm⟩))
        exact hno ⟨t, ht, hk⟩
    · exact .inl hm
  · rintro (hm | rfl | ⟨t, ht, hk⟩) h
    · exact hm h.marker_kind
    · exact h.body_ne_nil rfl
    · exact h.body_ne_eof t ht hk

/-- No other list gets a cursor: the checks refuse exactly what is not sound. -/
theorem ofTokens_concat_eq_error_iff {body : List Token} {marker : Token} :
    (∃ f, ofTokens (body ++ [marker]) = .error f) ↔ ¬Sound body marker := by
  constructor
  · rintro ⟨f, hf⟩ h
    rw [ofTokens_concat h] at hf
    simp at hf
  · intro h
    cases hc : ofTokens (body ++ [marker]) with
    | error f => exact ⟨f, rfl⟩
    | ok c =>
      obtain ⟨body', marker', hsound, heq, -⟩ := ofTokens_eq_ok_iff.1 hc
      obtain ⟨rfl, hmarker⟩ := List.append_inj' heq rfl
      obtain rfl := List.head_eq_of_cons_eq hmarker
      exact absurd hsound h

/-- A list has no cursor if it is empty, does not end in an end marker, is an end
marker alone or has one before its last token. -/
theorem ofTokens_eq_error_iff {tokens : List Token} :
    (∃ f, ofTokens tokens = .error f) ↔
      tokens = [] ∨ (∃ t, tokens.getLast? = some t ∧ t.kind ≠ .eof) ∨
        (∃ t, tokens = [t] ∧ t.kind = .eof) ∨ ∃ t ∈ tokens.dropLast, t.kind = .eof := by
  rcases List.eq_nil_or_concat tokens with rfl | ⟨body, marker, rfl⟩
  · simp [ofTokens]
  rw [List.concat_eq_append, ofTokens_concat_eq_error_iff, not_sound_iff, List.dropLast_concat]
  constructor
  · rintro (hm | rfl | hmany)
    · exact .inr (.inl ⟨marker, List.getLast?_concat, hm⟩)
    · by_cases hm : marker.kind = .eof
      · exact .inr (.inr (.inl ⟨marker, rfl, hm⟩))
      · exact .inr (.inl ⟨marker, rfl, hm⟩)
    · exact .inr (.inr (.inr hmany))
  · rintro (h | ⟨t, ht, hk⟩ | ⟨t, ht, -⟩ | hmany)
    · simp at h
    · rw [List.getLast?_concat] at ht
      exact .inl (Option.some.inj ht ▸ hk)
    · exact .inr (.inl (by simpa using congrArg List.length ht))
    · exact .inr (.inr hmany)

/-! ### Single steps -/

/-- The cursor `d` comes from `c` by steps over one token, none of them refused. -/
inductive Moves : Cursor → Cursor → Prop where
  | stay (c : Cursor) : Moves c c
  | advance {c d e : Cursor} {t : Token} : c.advance = .ok (t, d) → Moves d e → Moves c e

/-- Before the end a cursor always advances. -/
theorem advance_eq_ok {c : Cursor} (h : c.isAtEnd = false) : c.advance = .ok (c.peek, c.next) := by
  rw [advance, h]; rfl

/-- What is reached is reached by single steps. -/
theorem Reaches.moves {c d : Cursor} (h : c.Reaches d) : c.Moves d := by
  obtain ⟨passed, hp⟩ := h
  induction passed generalizing c with
  | nil => exact passes_nil_iff.1 hp ▸ .stay c
  | cons t passed ih =>
    obtain ⟨m, ht, hm⟩ := passes_cons_iff.1 hp
    have hnext : m = c.next := (passes_singleton_iff.1 ht).2
    exact .advance (advance_eq_ok ht.isAtEnd) (ih (hnext ▸ hm))

/-- Resuming only moves the cursor; no region is opened or closed by it. -/
theorem moves_resume (c : Cursor) : c.Moves c.resume := (reaches_resume c).moves

/-- **A cursor stands at a token of its list**, whatever regions are open. -/
theorem getElem?_position {tokens : List Token} {s c : Cursor} (hs : ofTokens tokens = .ok s)
    (h : s.Reaches c) : tokens[c.position]? = some c.peek := by
  obtain ⟨body, marker, -, rfl, rfl⟩ := ofTokens_eq_ok_iff.1 hs
  obtain ⟨passed, hp⟩ := h
  have hbody : body = passed ++ c.rest := hp.rest
  have hposition : c.position = passed.length := hp.position.trans (Nat.zero_add _)
  rw [hbody, hposition, List.append_assoc, List.getElem?_append_right (Nat.le_refl _), Nat.sub_self,
    peek, hp.marker]
  cases c.rest <;> rfl

end Cursor
end LoxFront
