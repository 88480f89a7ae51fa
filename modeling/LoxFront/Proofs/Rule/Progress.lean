/-
# Every declaration takes a token

A statement that is read takes its keyword or its semicolon, and a declaration
that fails drops a token in panic mode unless none is left
(`Rule.declaration_advances`).  So declarations one after another stop at a
closing brace or at the end, and the bound on their number is never felt
(`Rule.declarations_stop`).
-/

import LoxFront.Proofs.Rule.Frame

namespace LoxFront
namespace Rule

variable {α : Type} {n : Nat} {c d : Cursor}

/-- A rule that begins with a token other than the end marker takes it. -/
theorem advances_of_take {f : Token → Rule α} {a : α} (hm : c.marker.kind = .eof)
    (hk : c.peek.kind ≠ .eof) (hf : ∀ t, (f t).Obeys frame) (h : (take >>= f).Yields c a d) :
    c.position < d.position := by
  obtain ⟨t, m, ht, h⟩ := yields_bind.1 h
  obtain ⟨-, rfl⟩ := yields_take.1 ht
  have hnext := Cursor.position_lt_next (Cursor.isAtEnd_eq_false hm hk)
  have hle := (h.reaches (hf t)).position_le
  omega

/-- An expression as a statement takes a semicolon at least. -/
theorem expressionStatement_advances {t : Stmt}
    (h : (expressionStatement (.upTo n)).Yields c t d) : c.position < d.position := by
  obtain ⟨v, m, hv, h⟩ := yields_bind.1 h
  obtain ⟨s, i, hs, h⟩ := yields_bind.1 h
  obtain ⟨-, rfl⟩ := yields_pure.1 h
  have hle := (hv.reaches (expression_obeys frame_composes n)).position_le
  have hsemicolon := (yields_expect.1 hs).2.position
  rw [List.length_singleton] at hsemicolon
  omega

/-- A statement that is read has taken a token. -/
theorem statement_advances {t : Stmt} (hm : c.marker.kind = .eof)
    (h : (statement (.upTo n)).Yields c t d) : c.position < d.position := by
  have hL := frame_composes
  have hx := expression_obeys hL n
  have hr := Region.obeys_upTo frame_recovers n
  rw [statement, yields_kind_bind] at h
  split at h
  · next hk =>
    exact advances_of_take hm (by rw [hk]; decide) (fun _ => obeys_printStatement hL hx) h
  · next hk =>
    exact advances_of_take hm (by rw [hk]; decide) (fun _ => obeys_nested hL hr.block) h
  · next hk =>
    exact advances_of_take hm (by rw [hk]; decide)
      (fun _ => obeys_ifStatement hL hx hr.statement) h
  · next hk =>
    exact advances_of_take hm (by rw [hk]; decide)
      (fun t => obeys_forStatement hL hx hr.statement t) h
  · next hk =>
    exact advances_of_take hm (by rw [hk]; decide)
      (fun _ => obeys_whileStatement hL hx hr.statement) h
  · exact expressionStatement_advances h

/-- So has a declaration. -/
theorem item_advances {t : Stmt} (hm : c.marker.kind = .eof)
    (h : (item (.upTo n)).Yields c t d) : c.position < d.position := by
  have hL := frame_composes
  rw [item, yields_kind_bind] at h
  split at h
  · next b hb =>
    exact advances_of_take hm (ne_eof_of_binding? hb)
      (fun _ => obeys_bindingStatement hL (expression_obeys hL n) b) h
  · exact statement_advances hm h

/-- **Every declaration takes a token**, whether it fails or not. -/
theorem declaration_advances (n : Nat) (hm : c.marker.kind = .eof) (he : c.isAtEnd = false) :
    c.position < (declaration (.upTo n) c).cursor.position := by
  have hreach := item_obeys frame_recovers n c
  rw [declaration_eq]
  cases hv : (item (.upTo n) c).value with
  | ok t =>
    rw [recover_of_ok hv]
    exact item_advances hm ⟨hv, rfl⟩
  | error e =>
    rw [recover_of_error hv]
    show c.position < (item (.upTo n) c).cursor.resume.position
    have hle := hreach.position_le
    cases hend : (item (.upTo n) c).cursor.isAtEnd with
    | false =>
      have hlt := Cursor.position_lt_resume hend
      omega
    | true =>
      -- all tokens were taken before the error
      have hlt := hreach.position_lt_of_isAtEnd he hend
      have hresume := (Cursor.reaches_resume (item (.upTo n) c).cursor).position_le
      omega

/-! ### Declarations one after another -/

/-- **Declarations go on to a closing brace or to the end.**  Their bound, which
is the number of tokens left, is not what stops them. -/
theorem declarations_stop (n : Nat) {more : List Token} (hm : c.marker.kind = .eof)
    (hlen : c.rest.length ≤ more.length) :
    let d := (declarations (declaration (.upTo n)) more c).cursor
    d.isAtEnd = true ∨ d.check .rightBrace = true := by
  induction more generalizing c with
  | nil =>
    rw [declarations]
    exact .inl (Cursor.isAtEnd_of_length_le hlen)
  | cons t more ih =>
    rw [declarations]
    split
    · next hend => simpa using hend
    · next hend =>
      have he : c.isAtEnd = false := by
        rw [Bool.or_eq_true, not_or, Bool.not_eq_true] at hend
        exact hend.1
      have hreach := declaration_obeys frame_recovers n c
      have hadd := hreach.position_add
      have hlt := declaration_advances n hm he
      rw [List.length_cons] at hlen
      exact ih (by rw [hreach.marker, hm]) (by omega)

end Rule
end LoxFront
