/-
# Rules never go back

Every rule stops at the cursor where it began or behind it, over the same tokens
and with the same regions open (`Rule.frame`).  So the operators of a chain are
fewer than the tokens left, and the chain reads on until no operator of its
level is at hand (`Rule.yields_tail_of_accepts`, `Rule.yields_tail_of_refuses`).
-/

import LoxFront.Proofs.Rule.Law

namespace LoxFront
namespace Rule

/-- A rule stops where it began or behind, with the same regions open. -/
def frame : Law := fun c _ d _ => c.Reaches d

/-- Panic mode goes forward too. -/
theorem frame_recovers : Law.Recovers frame where
  stay := .refl
  step := Cursor.reaches_next
  returned := Cursor.reaches_next
  failed c _ := .refl c
  trans := .trans
  region _ h := h.ascend
  entered h := h
  panicked h := h.trans (Cursor.reaches_resume _)
  unclosed := .refl

/-- Going forward is kept by single steps and put together by binds and regions. -/
theorem frame_composes : Law.Composes frame := frame_recovers.toComposes

variable {α β : Type}

/-- What is yielded by a rule that goes forward ends at a place that the cursor reaches. -/
theorem Yields.reaches {r : Rule α} {c d : Cursor} {a : α} (h : r.Yields c a d)
    (hr : r.Obeys frame) : c.Reaches d := h.2 ▸ hr c

/-! ### Chains without a bound -/

/-- The operators and operands behind `left`. -/
def tail (p : Kind → Bool) (operand : Rule Expr) (left : Expr) : Rule Expr :=
  fun c => links p operand c.rest left c

/-- A chain ends where no operator of its level stands, given any number of rounds. -/
theorem links_of_refuses {p : Kind → Bool} {operand : Rule Expr} {c : Cursor} (left : Expr)
    (h : c.isAtEnd = true ∨ p c.peek.kind = false) (more : List Token) :
    links p operand more left c = (pure left : Rule Expr) c := by
  cases more with
  | nil => rfl
  | cons t more =>
    rw [links]
    exact bind_of_ok (by rw [takeIf?_of_refuses h]) |>.trans (by rw [takeIf?_of_refuses h]; rfl)

/-- Where one stands the chain goes on with the operand behind it, and takes a round for it. -/
theorem links_of_accepts {p : Kind → Bool} {operand : Rule Expr} {c : Cursor} (left : Expr)
    (he : c.isAtEnd = false) (hp : p c.peek.kind = true) (t : Token) (more : List Token) :
    links p operand (t :: more) left c =
      (operand >>= fun right => links p operand more (.binary left c.peek right)) c.next := by
  rw [links]
  exact bind_of_ok (by rw [takeIf?_of_accepts he hp]) |>.trans
    (by rw [takeIf?_of_accepts he hp]; rfl)

/-- **The bound of a chain does not matter** as long as it is no less than the
number of tokens left. -/
theorem links_eq_links {p : Kind → Bool} {operand : Rule Expr} (ho : operand.Obeys frame)
    {more more' : List Token} {left : Expr} {c : Cursor} (h : c.rest.length ≤ more.length)
    (h' : c.rest.length ≤ more'.length) :
    links p operand more left c = links p operand more' left c := by
  by_cases hc : c.isAtEnd = true ∨ p c.peek.kind = false
  · rw [links_of_refuses left hc, links_of_refuses left hc]
  have he : c.isAtEnd = false := by simpa using mt Or.inl hc
  have hp : p c.peek.kind = true := by simpa using mt Or.inr hc
  have hlen := (Cursor.passes_next he).length
  induction more generalizing more' left c with
  | nil => simp only [List.length_nil, List.length_singleton] at h hlen; omega
  | cons t more ih =>
    cases more' with
    | nil => simp only [List.length_nil, List.length_singleton] at h' hlen; omega
    | cons t' more' =>
      rw [links_of_accepts left he hp, links_of_accepts left he hp]
      refine bind_congr fun right d hd => ?_
      have hadd := (hd.reaches ho).position_add
      have hle := (hd.reaches ho).position_le
      simp only [List.length_cons, List.length_nil] at h h' hlen
      by_cases hc : d.isAtEnd = true ∨ p d.peek.kind = false
      · rw [links_of_refuses _ hc, links_of_refuses _ hc]
      have he : d.isAtEnd = false := by simpa using mt Or.inl hc
      exact ih (by omega) (by omega) hc he (by simpa using mt Or.inr hc)
        (Cursor.passes_next he).length

/-- Without an operator the tail of a chain is its left operand. -/
theorem yields_tail_of_refuses {p : Kind → Bool} {operand : Rule Expr} {left e : Expr}
    {c d : Cursor} (h : c.isAtEnd = true ∨ p c.peek.kind = false) :
    (tail p operand left).Yields c e d ↔ e = left ∧ d = c :=
  (yields_congr (links_of_refuses left h c.rest)).trans yields_pure

/-- Behind an operator of its level a chain reads an operand and goes on. -/
theorem tail_of_accepts {p : Kind → Bool} {operand : Rule Expr} (ho : operand.Obeys frame)
    {left : Expr} {c : Cursor} (he : c.isAtEnd = false) (hp : p c.peek.kind = true) :
    tail p operand left c =
      (operand >>= fun right => tail p operand (.binary left c.peek right)) c.next := by
  have hlen := (Cursor.passes_next he).length
  cases hr : c.rest with
  | nil => rw [hr] at hlen; simp only [List.length_nil, List.length_singleton] at hlen; omega
  | cons t more =>
    rw [tail, hr, links_of_accepts left he hp]
    refine bind_congr fun right m hm => ?_
    have hadd := (hm.reaches ho).position_add
    have hle := (hm.reaches ho).position_le
    rw [hr] at hlen
    simp only [List.length_cons, List.length_nil] at hlen
    exact links_eq_links ho (by omega) (Nat.le_refl _)

/-- With one it is the tail behind the operation of the two operands. -/
theorem yields_tail_of_accepts {p : Kind → Bool} {operand : Rule Expr} (ho : operand.Obeys frame)
    {left e : Expr} {c d : Cursor} (he : c.isAtEnd = false) (hp : p c.peek.kind = true) :
    (tail p operand left).Yields c e d ↔
      ∃ right m, operand.Yields c.next right m ∧
        (tail p operand (.binary left c.peek right)).Yields m e d := by
  rw [Yields, tail_of_accepts ho he hp]
  exact yields_bind

/-- A chain goes on until no operator of its level is at hand. -/
theorem tail_stops {p : Kind → Bool} {operand : Rule Expr} (ho : operand.Obeys frame)
    {left e : Expr} {c d : Cursor} (h : (tail p operand left).Yields c e d) :
    d.isAtEnd = true ∨ p d.peek.kind = false := by
  -- each operator leaves fewer tokens
  induction hn : c.rest.length using Nat.strongRecOn generalizing left c with
  | ind n ih =>
    by_cases hc : c.isAtEnd = true ∨ p c.peek.kind = false
    · obtain ⟨-, rfl⟩ := (yields_tail_of_refuses hc).1 h
      exact hc
    · have he : c.isAtEnd = false := by simpa using mt Or.inl hc
      have hp : p c.peek.kind = true := by simpa using mt Or.inr hc
      obtain ⟨right, m, hm, h⟩ := (yields_tail_of_accepts ho he hp).1 h
      have hlen := (Cursor.passes_next he).length
      have hadd := (hm.reaches ho).position_add
      have hle := (hm.reaches ho).position_le
      rw [List.length_singleton] at hlen
      exact ih m.rest.length (by omega) h rfl

end Rule
end LoxFront
