/-
# Runs over lists that begin alike

Two cursors share a stretch of tokens if the same tokens stand at both up to a
limit, whatever comes behind (`Cursor.Shares`).  A rule that stops before the limit
gives the same on both sides (`Rule.Alike.agree`), and two runs come apart only where
one of them passes it (`Comparison.upTo`).  Where the cursors are no more than places
in the same list, all goes the same way (`Comparison.byTokens`).
-/

import LoxFront.Proofs.Rule.Alike
import LoxFront.Proofs.Rule.First
import Mathlib.Data.List.Forall2

namespace LoxFront
namespace Cursor

/-- The same tokens stand at both cursors up to the limit, and then `r` and `r'`. -/
structure Shares (r r' : List Token) (limit : Nat) (c d : Cursor) : Prop where
  text : ∃ u, c.rest = u ++ r ∧ d.rest = u ++ r' ∧ c.position + u.length = limit
  position : d.position = c.position
  depth : d.depth = c.depth
  marker : c.marker.kind = .eof
  marker' : d.marker.kind = .eof

variable {r r' : List Token} {limit : Nat} {c d : Cursor}

/-- Before the limit the same token is at hand. -/
theorem Shares.exists_cons (h : c.Shares r r' limit d) (hlt : c.position < limit) :
    ∃ t u, c.rest = t :: (u ++ r) ∧ d.rest = t :: (u ++ r') ∧
      c.position + u.length + 1 = limit := by
  obtain ⟨u, hc, hd, hlen⟩ := h.text
  cases u with
  | nil => rw [List.length_nil] at hlen; omega
  | cons t u => exact ⟨t, u, hc, hd, by rw [← hlen, List.length_cons]; omega⟩

/-- Before the limit the same token stands at both cursors. -/
theorem Shares.peek (h : c.Shares r r' limit d) (hlt : c.position < limit) : c.peek = d.peek := by
  obtain ⟨t, u, hc, hd, -⟩ := h.exists_cons hlt
  rw [Cursor.peek, Cursor.peek, hc, hd]
  rfl

/-- Before the limit neither cursor is at the end. -/
theorem Shares.isAtEnd (h : c.Shares r r' limit d) (hlt : c.position < limit) :
    c.isAtEnd = false ∧ d.isAtEnd = false := by
  obtain ⟨t, u, hc, hd, -⟩ := h.exists_cons hlt
  rw [Cursor.isAtEnd, Cursor.isAtEnd, hc, hd]
  exact ⟨rfl, rfl⟩

/-- Behind a token before the limit the cursors share what is left. -/
theorem Shares.next (h : c.Shares r r' limit d) (hlt : c.position < limit) :
    c.next.Shares r r' limit d.next := by
  obtain ⟨t, u, hc, hd, hlen⟩ := h.exists_cons hlt
  rw [Cursor.next, Cursor.next, hc, hd]
  exact ⟨⟨u, rfl, rfl, by show c.position + 1 + u.length = limit; omega⟩,
    congrArg (· + 1) h.position, h.depth, h.marker, h.marker'⟩

/-- Cursors that share a stretch do so one region deeper. -/
theorem Shares.deeper (h : c.Shares r r' limit d) : c.deeper.Shares r r' limit d.deeper :=
  ⟨h.text, h.position, congrArg (· + 1) h.depth, h.marker, h.marker'⟩

/-- Cursors that share a stretch do so with a region closed. -/
theorem Shares.ascend (h : c.Shares r r' limit d) : c.ascend.Shares r r' limit d.ascend :=
  ⟨h.text, h.position, congrArg (· - 1) h.depth, h.marker, h.marker'⟩

/-- A stretch that ends at the end of the list leaves nothing at the limit. -/
theorem Shares.position_lt_iff (h : c.Shares [] r' limit d) :
    c.position < limit ↔ c.isAtEnd = false := by
  obtain ⟨u, hc, -, hlen⟩ := h.text
  rw [List.append_nil] at hc
  rw [Cursor.isAtEnd, hc]
  cases u with
  | nil => simp at hlen; simp [hlen]
  | cons t u => rw [List.length_cons] at hlen; simp; omega

/-! ### Semicolons -/

/-- The way to a semicolon is the same whatever stands behind the semicolon. -/
theorem toSemicolon_append_of_mem {u : List Token} (h : ∃ t ∈ u, t.kind = .semicolon)
    (r : List Token) : toSemicolon (u ++ r) = toSemicolon u ∧ toSemicolon u ≤ u.length := by
  induction u with
  | nil => exact absurd h (by simp)
  | cons t u ih =>
    rw [List.cons_append, toSemicolon, toSemicolon, List.length_cons]
    by_cases ht : t.kind = .semicolon
    · rw [if_pos ht, if_pos ht]
      exact ⟨rfl, by omega⟩
    · obtain ⟨s, hs, hk⟩ := h
      rcases List.mem_cons.1 hs with rfl | hs
      · exact absurd hk ht
      · obtain ⟨heq, hle⟩ := ih ⟨s, hs, hk⟩
        rw [if_neg ht, if_neg ht, heq]
        exact ⟨rfl, by omega⟩

/-- Without a semicolon the way leads through all tokens at least. -/
theorem length_le_toSemicolon_append {u : List Token} (h : ∀ t ∈ u, t.kind ≠ .semicolon)
    (r : List Token) : u.length ≤ toSemicolon (u ++ r) := by
  induction u with
  | nil => exact Nat.zero_le _
  | cons t u ih =>
    have hrest := ih fun s hs => h s (List.mem_cons_of_mem t hs)
    rw [List.cons_append, toSemicolon, if_neg (h t List.mem_cons_self), List.length_cons]
    omega

/-- Panic mode stops at the same semicolon if there is one before the limit. -/
theorem Shares.resume {u : List Token} (h : c.Shares r r' limit d) (hc : c.rest = u ++ r)
    (hs : ∃ t ∈ u, t.kind = .semicolon) : c.resume.Shares r r' limit d.resume := by
  obtain ⟨v, hv, hd, hlen⟩ := h.text
  obtain rfl : u = v := List.append_cancel_right (hc.symm.trans hv)
  obtain ⟨hcs, hle⟩ := toSemicolon_append_of_mem hs r
  obtain ⟨hds, -⟩ := toSemicolon_append_of_mem hs r'
  have hdrop (x : List Token) : (u ++ x).drop (toSemicolon u) = u.drop (toSemicolon u) ++ x :=
    List.drop_append_of_le_length hle
  rw [Cursor.resume, Cursor.resume, hc, hd, hcs, hds, hdrop, hdrop]
  refine ⟨⟨u.drop (toSemicolon u), rfl, rfl, ?_⟩, congrArg (· + toSemicolon u) h.position, h.depth,
    h.marker, h.marker'⟩
  show c.position + toSemicolon u + (u.drop (toSemicolon u)).length = limit
  rw [List.length_drop]
  omega

/-- Panic mode goes to places that are shared again, or passes the limit. -/
theorem Shares.resume_or (h : c.Shares r r' limit d) :
    c.resume.Shares r r' limit d.resume ∨ limit ≤ c.resume.position := by
  obtain ⟨u, hc, hd, hlen⟩ := h.text
  by_cases hs : ∃ t ∈ u, t.kind = .semicolon
  · exact .inl (h.resume hc hs)
  · have hle := length_le_toSemicolon_append (fun t ht hk => hs ⟨t, ht, hk⟩) r
    rw [← hc] at hle
    refine .inr ?_
    show limit ≤ c.position + toSemicolon c.rest
    omega

end Cursor

/-! ### The comparison up to a limit -/

namespace Comparison

/-- Runs from cursors that share a stretch, as long as they are before its limit.
Behind it only this is known, that a failure before the limit is the same. -/
def upTo (r r' : List Token) (limit : Nat) : Comparison where
  tokens := Eq
  cursors c d := c.Shares r r' limit d ∧ c.position < limit
  traces := Eq
  apart t d t' := limit ≤ d.position ∧
    ∀ x, firstFailure? t = some x → x.position < limit → firstFailure? t' = some x

variable {r r' : List Token} {limit : Nat}

/-- Single steps keep the comparison of cursors that share a stretch. -/
theorem upTo_lawful : (upTo r r' limit).Lawful where
  refl _ := rfl
  kind h := congrArg Token.kind h
  line h := by rw [upTo, h]
  peek h := h.1.peek h.2
  isAtEnd h := (h.1.isAtEnd h.2).2.trans (h.1.isAtEnd h.2).1.symm
  depth h := h.1.depth
  marker h := ⟨h.1.marker, h.1.marker'⟩
  deeper h := ⟨h.1.deeper, h.2⟩
  ascend h := ⟨h.1.ascend, h.2⟩
  next {c d} h := by
    rcases Nat.lt_or_ge c.next.position limit with hlt | hge
    · exact .inl ⟨h.1.next h.2, hlt⟩
    · exact .inr ⟨hge, fun x hx => nomatch hx⟩
  resume {c d} h := by
    rcases Nat.lt_or_ge c.resume.position limit with hlt | hge
    · have hshares := h.1.resume_or.resolve_right (by omega)
      refine .inl ⟨⟨hshares, hlt⟩, ?_⟩
      rw [upTo, hshares.position, h.1.position]
    · exact .inr ⟨hge, fun x hx => nomatch hx⟩
  nil := rfl
  event f {c d} h := by rw [upTo, h.1.position, h.1.peek h.2]
  append h k := by rw [upTo, h, k]
  before {t t' u u' d} h k := by
    obtain rfl : t = t' := h
    refine ⟨k.1, fun x hx hlt => ?_⟩
    rw [firstFailure?_append, Option.or_eq_some_iff] at hx ⊢
    exact hx.imp_right fun ⟨hnone, hu⟩ => ⟨hnone, k.2 x hu hlt⟩
  after {t t' u u' d e} h k := by
    refine ⟨Nat.le_trans h.1 k.1.position_le, fun x hx hlt => ?_⟩
    rw [firstFailure?_append, Option.or_eq_some_iff] at hx ⊢
    refine .inl ?_
    rcases hx with ht | ⟨-, hu⟩
    · exact h.2 x ht hlt
    · -- what fails later fails behind the limit
      have hle := position_le_of_telling k hu
      have hge := h.1
      omega
  apart_ascend h := h

end Comparison

namespace Rule

variable {α : Type} [Likeness α] {rule : Rule α} {r r' : List Token} {limit : Nat} {c d : Cursor}

/-- A rule that stops before the limit gives the same on both sides. -/
theorem Alike.agree (hr : rule.Alike (.upTo r r' limit) rule) (h : c.Shares r r' limit d)
    (hlt : (rule c).cursor.position < limit) :
    (rule d).value = (rule c).value ∧ (rule c).cursor.Shares r r' limit (rule d).cursor := by
  have hle := (hr.telling c).1.position_le
  rcases hr.run ⟨h, by omega⟩ with ⟨hv, hcursor, -⟩ | hapart
  · exact ⟨(Likeness.eq hv).symm, hcursor.1⟩
  · have hge := hapart.1
    omega

/-- What is read before the limit is read on both sides. -/
theorem Alike.yields (hr : rule.Alike (.upTo r r' limit) rule) (h : c.Shares r r' limit d) {a : α}
    {m : Cursor} (hm : rule.Yields c a m) (hlt : m.position < limit) :
    ∃ m', rule.Yields d a m' ∧ m.Shares r r' limit m' := by
  obtain ⟨hv, rfl⟩ := hm
  obtain ⟨hv', hshares⟩ := hr.agree h hlt
  exact ⟨_, ⟨hv'.trans hv, rfl⟩, hshares⟩

end Rule

/-! ### The comparison token by token -/

/-- Tokens that stand for one another are of one kind, and so are the conditions
that are made for loops on their lines. -/
structure TokenLaw (T : Token → Token → Prop) : Prop where
  refl (t : Token) : T t t
  kind {s t : Token} : T s t → s.kind = t.kind
  line {s t : Token} : T s t →
    T ⟨.trueWord, "true", s.line, .none⟩ ⟨.trueWord, "true", t.line, .none⟩

/-- Equal tokens obey the law. -/
theorem TokenLaw.eq : TokenLaw Eq := ⟨Eq.refl, congrArg _, fun h => by rw [h]⟩

namespace Comparison

/-- Runs over lists of which one has a token for each token of the other, from
whatever position on. -/
def byTokens (T : Token → Token → Prop) : Comparison where
  tokens := T
  cursors c d := List.Forall₂ T c.rest d.rest ∧ T c.marker d.marker ∧ c.marker.kind = .eof ∧
    d.depth = c.depth
  traces _ _ := True
  apart _ _ _ := False

variable {T : Token → Token → Prop} {c d : Cursor}

/-- Panic mode drops as many tokens on both sides. -/
theorem forall₂_resume (hT : TokenLaw T) {s t : List Token} (h : List.Forall₂ T s t) :
    Cursor.toSemicolon s = Cursor.toSemicolon t := by
  induction h with
  | nil => rfl
  | cons h _ ih => rw [Cursor.toSemicolon, Cursor.toSemicolon, hT.kind h, ih]

/-- The next tokens are related. -/
theorem byTokens_peek (h : (byTokens T).cursors c d) : T c.peek d.peek := by
  obtain ⟨rest, marker, _, _⟩ := c
  obtain ⟨rest', marker', _, _⟩ := d
  obtain ⟨hrest, hmarker, -⟩ := h
  cases hrest with
  | nil => exact hmarker
  | cons ht => exact ht

/-- The end comes on both sides at once. -/
theorem byTokens_isAtEnd (h : (byTokens T).cursors c d) : d.isAtEnd = c.isAtEnd := by
  obtain ⟨rest, _, _, _⟩ := c
  obtain ⟨rest', _, _, _⟩ := d
  cases h.1 <;> rfl

/-- Behind the next tokens the others are related. -/
theorem byTokens_next (h : (byTokens T).cursors c d) : (byTokens T).cursors c.next d.next := by
  obtain ⟨rest, _, _, _⟩ := c
  obtain ⟨rest', _, _, _⟩ := d
  obtain ⟨hrest, h⟩ := h
  cases hrest with
  | nil => exact ⟨.nil, h⟩
  | cons _ hrest => exact ⟨hrest, h⟩

/-- Single steps keep the comparison token by token. -/
theorem byTokens_lawful (hT : TokenLaw T) : (byTokens T).Lawful where
  refl := hT.refl
  kind := hT.kind
  line := hT.line
  peek := byTokens_peek
  isAtEnd := byTokens_isAtEnd
  depth h := h.2.2.2
  marker h := ⟨h.2.2.1, (hT.kind h.2.1).symm.trans h.2.2.1⟩
  deeper h := ⟨h.1, h.2.1, h.2.2.1, congrArg (· + 1) h.2.2.2⟩
  ascend h := ⟨h.1, h.2.1, h.2.2.1, congrArg (· - 1) h.2.2.2⟩
  next h := .inl (byTokens_next h)
  resume {c d} h := by
    refine .inl ⟨⟨?_, h.2⟩, trivial⟩
    show List.Forall₂ T (c.rest.drop _) (d.rest.drop _)
    rw [forall₂_resume hT h.1]
    exact List.forall₂_drop _ h.1
  nil := trivial
  event _ _ _ _ := trivial
  append _ _ := trivial
  before _ h := h
  after h _ := h.elim
  apart_ascend h := h

end Comparison
end LoxFront
