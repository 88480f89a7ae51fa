/-
# First failures and created errors

There is a first failure if and only if an error is created
(`firstFailure?_eq_none_iff`), and the error is then the first one (`head?_created`).
It is at a token where the rule began or behind (`exists_of_firstFailure?`).
-/

import LoxFront.Proofs.Parse.Faults
import LoxFront.Proofs.Rule.Account
import LoxFront.Proofs.Rule.Fails

namespace LoxFront

/-- There is a first failure if and only if an error is created. -/
theorem firstFailure?_eq_none_iff {t : List Event} : firstFailure? t = none ↔ created t = [] := by
  induction t with
  | nil => exact ⟨fun _ => rfl, fun _ => rfl⟩
  | cons e t ih =>
    rw [← List.singleton_append, firstFailure?_append, created_append, Option.or_eq_none_iff,
      List.append_eq_nil_iff, ih]
    refine and_congr_left fun _ => ?_
    cases e <;> simp [firstFailure?, created, Event.failure?, Event.error?]

/-- The first error created is that of the first failure. -/
theorem head?_created (t : List Event) :
    (created t).head? = (firstFailure? t).map fun x => x.complaint.about x.token := by
  rw [created, List.head?_filterMap, firstFailure?, List.map_findSome?]
  refine congrArg (List.findSome? · t) (funext fun e => ?_)
  cases e <;> rfl

/-- The first failure is at a token that is reached. -/
theorem exists_of_firstFailure? {c : Cursor} {t : List Event} {x : FailurePoint}
    (h : ∀ e ∈ t, ∃ m, c.Reaches m ∧ e.At m) (hx : firstFailure? t = some x) :
    ∃ m, c.Reaches m ∧ x.position = m.position ∧ x.token = m.peek := by
  obtain ⟨e, he, hex⟩ := List.exists_of_findSome?_eq_some hx
  obtain ⟨m, hm, hat⟩ := h e he
  cases e with
  | failed position k token =>
    obtain rfl := Option.some.inj hex
    exact ⟨m, hm, hat⟩
  | entered | panicked | resumed | returned => exact nomatch hex

/-- What is told of from a place on has failed there or behind. -/
theorem position_le_of_telling {c d : Cursor} {o : Option ParseError} {t : List Event}
    {x : FailurePoint} (h : Rule.telling c o d t) (hx : firstFailure? t = some x) :
    c.position ≤ x.position := by
  obtain ⟨m, hm, hposition, -⟩ := exists_of_firstFailure? h.2 hx
  rw [hposition]
  exact hm.position_le

end LoxFront
