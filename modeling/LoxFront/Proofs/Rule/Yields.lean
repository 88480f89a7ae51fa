/-
# What a rule gives

`Rule.Yields` says that a rule reads a value between two cursors.  A rule made
of others gives what its parts give one after another (`Rule.yields_bind`), and
the bound on a chain of operators is never felt: a rule that never goes back
leaves the chain with tokens enough (`Rule.tail_eq`).
-/

import LoxFront.Rule.Expr
import LoxFront.Proofs.Cursor.Passes

namespace LoxFront

/-- A result with events before its own. -/
def Parsed.after {α : Type} (p : Parsed α) (trace : List Event) : Parsed α :=
  { p with trace := trace ++ p.trace }

namespace Rule

variable {α β : Type}

/-- From `c` the rule reads the value `a` and stops at `d`. -/
def Yields (r : Rule α) (c : Cursor) (a : α) (d : Cursor) : Prop :=
  (r c).value = .ok a ∧ (r c).cursor = d

/-! ### One rule after another -/

/-- Behind a rule that reads something the next one goes on, with what was told before. -/
theorem bind_of_ok {r : Rule α} {f : α → Rule β} {c : Cursor} {a : α} (h : (r c).value = .ok a) :
    (r >>= f) c = (f a (r c).cursor).after (r c).trace := by
  show andThen r f c = _
  rw [andThen]
  rcases hr : r c with ⟨value, d, trace⟩
  obtain rfl : value = .ok a := by rw [hr] at h; exact h
  rfl

/-- Behind a rule that ends with an error there is nothing more. -/
theorem bind_of_error {r : Rule α} {f : α → Rule β} {c : Cursor} {e : ParseError}
    (h : (r c).value = .error e) : (r >>= f) c = ⟨.error e, (r c).cursor, (r c).trace⟩ := by
  show andThen r f c = _
  rw [andThen]
  rcases hr : r c with ⟨value, d, trace⟩
  obtain rfl : value = .error e := by rw [hr] at h; exact h
  rfl

/-- What stands behind a rule matters only for what the rule gives. -/
theorem bind_congr {r : Rule α} {f g : α → Rule β} {c : Cursor}
    (h : ∀ a d, r.Yields c a d → f a d = g a d) : (r >>= f) c = (r >>= g) c := by
  cases hv : (r c).value with
  | error e => rw [bind_of_error hv, bind_of_error hv]
  | ok a => rw [bind_of_ok hv, bind_of_ok hv, h a _ ⟨hv, rfl⟩]

/-- Asking for a kind leaves the cursor where it is. -/
@[simp] theorem nextIs_bind {k : Kind} {f : Bool → Rule β} {c : Cursor} :
    (nextIs k >>= f) c = f (c.check k) c := rfl

/-- Taking a token gives it to the rest, which goes on behind it. -/
@[simp] theorem take_bind {f : Token → Rule β} {c : Cursor} :
    (take >>= f) c = f c.peek c.next := rfl

/-- A value is given to the rest at once. -/
@[simp] theorem pure_bind {a : α} {f : α → Rule β} : (pure a >>= f) = f a := rfl

/-- It does not matter how three rules are put together. -/
@[simp] theorem bind_assoc {γ : Type} {r : Rule α} {f : α → Rule β} {g : β → Rule γ} :
    (r >>= f >>= g) = (r >>= fun a => f a >>= g) := by
  funext c
  cases hv : (r c).value with
  | error e =>
    have hb : ((r >>= f) c).value = .error e := by rw [bind_of_error hv]
    rw [bind_of_error hv, bind_of_error hb, bind_of_error hv]
  | ok a =>
    rw [bind_of_ok hv]
    cases hw : (f a (r c).cursor).value with
    | error e =>
      have hb : ((r >>= f) c).value = .error e := by rw [bind_of_ok hv]; exact hw
      rw [bind_of_error hb, bind_of_ok hv, bind_of_error hw]
      rfl
    | ok b =>
      have hb : ((r >>= f) c).value = .ok b := by rw [bind_of_ok hv]; exact hw
      rw [bind_of_ok hb, bind_of_ok hv, bind_of_ok hw]
      simp [Parsed.after]

/-! ### What the parts give -/

/-- A value is yielded where the cursor is. -/
@[simp] theorem yields_pure {a b : α} {c d : Cursor} :
    (pure a : Rule α).Yields c b d ↔ b = a ∧ d = c := by
  constructor
  · rintro ⟨h, rfl⟩
    exact ⟨(Except.ok.inj h).symm, rfl⟩
  · rintro ⟨rfl, rfl⟩
    exact ⟨rfl, rfl⟩

/-- Two rules yield if the first one does and the second from there on. -/
@[simp] theorem yields_bind {r : Rule α} {f : α → Rule β} {c e : Cursor} {b : β} :
    (r >>= f).Yields c b e ↔ ∃ a d, r.Yields c a d ∧ (f a).Yields d b e := by
  constructor
  · rintro ⟨hv, rfl⟩
    cases hr : (r c).value with
    | error x => rw [bind_of_error hr] at hv; simp at hv
    | ok a =>
      rw [bind_of_ok hr] at hv ⊢
      exact ⟨a, _, ⟨hr, rfl⟩, hv, rfl⟩
  · rintro ⟨a, d, ⟨hv, rfl⟩, hf⟩
    rw [Yields, bind_of_ok hv]
    exact hf

/-- A rule gives one value at most. -/
theorem Yields.unique {r : Rule α} {c d e : Cursor} {a b : α} (h : r.Yields c a d)
    (k : r.Yields c b e) : a = b ∧ d = e :=
  ⟨Except.ok.inj (h.1.symm.trans k.1), h.2.symm.trans k.2⟩

/-- Rules that do the same at a cursor yield the same there. -/
theorem yields_congr {r s : Rule α} {c d : Cursor} {a : α} (h : r c = s c) :
    r.Yields c a d ↔ s.Yields c a d := by
  rw [Yields, Yields, h]

/-- Looking at the next kind yields what the rest does for it. -/
theorem yields_kind_bind {f : Kind → Rule β} {c d : Cursor} {b : β} :
    (kind >>= f).Yields c b d ↔ (f c.peek.kind).Yields c b d := yields_congr rfl

/-- Asking for a kind yields what the rest does for the answer. -/
theorem yields_nextIs_bind {k : Kind} {f : Bool → Rule β} {c d : Cursor} {b : β} :
    (nextIs k >>= f).Yields c b d ↔ (f (c.check k)).Yields c b d := yields_congr rfl

/-- The token that is taken is the next one. -/
theorem yields_take {c d : Cursor} {t : Token} : take.Yields c t d ↔ t = c.peek ∧ d = c.next := by
  constructor
  · rintro ⟨h, rfl⟩
    exact ⟨(Except.ok.inj h).symm, rfl⟩
  · rintro ⟨rfl, rfl⟩
    exact ⟨rfl, rfl⟩

/-- A complaint yields nothing. -/
@[simp] theorem not_yields_fail {k : Complaint} {c d : Cursor} {a : α} :
    ¬(fail k : Rule α).Yields c a d := by
  rintro ⟨h, -⟩
  simp [fail, complain, raise, Bind.bind, andThen] at h

/-- Telling of an event yields nothing and moves nowhere. -/
@[simp] theorem yields_note {e : Event} {c d : Cursor} {a : Unit} :
    (note e).Yields c a d ↔ d = c :=
  ⟨fun h => h.2.symm, fun h => h ▸ ⟨rfl, rfl⟩⟩

/-- A token that is expected is yielded if it is there, and passed. -/
@[simp] theorem yields_expect {k : Kind} {m : Complaint} {c d : Cursor} {t : Token} :
    (expect k m).Yields c t d ↔ t.kind = k ∧ c.Passes [t] d := by
  rw [expect, yields_nextIs_bind]
  cases hk : c.check k with
  | true =>
    obtain ⟨hend, hkind⟩ := Cursor.check_eq_true_iff.1 hk
    rw [if_pos rfl, yields_take]
    constructor
    · rintro ⟨rfl, rfl⟩
      exact ⟨hkind, Cursor.passes_next hend⟩
    · rintro ⟨-, ht⟩
      exact ⟨ht.peek.symm, ht.unique (Cursor.passes_singleton_iff.2
        ⟨(Cursor.passes_singleton_iff.1 ht).1, rfl⟩)⟩
  | false =>
    rw [if_neg Bool.false_ne_true]
    refine ⟨fun h => absurd h not_yields_fail, fun ⟨ht, hp⟩ => ?_⟩
    have : c.check k = true := Cursor.check_eq_true_iff.2 ⟨hp.isAtEnd, by rw [hp.peek, ht]⟩
    rw [hk] at this
    exact absurd this Bool.false_ne_true

/-- A token that is accepted is taken. -/
theorem takeIf?_of_accepts {p : Kind → Bool} {c : Cursor} (he : c.isAtEnd = false)
    (hp : p c.peek.kind = true) : takeIf? p c = ⟨.ok (some c.peek), c.next, []⟩ := by
  simp [takeIf?, Cursor.eatIf?, he, hp]

/-- One that is refused is left, and so is the end marker. -/
theorem takeIf?_of_refuses {p : Kind → Bool} {c : Cursor}
    (h : c.isAtEnd = true ∨ p c.peek.kind = false) : takeIf? p c = ⟨.ok none, c, []⟩ := by
  have hif : ¬((!c.isAtEnd && p c.peek.kind) = true) := by
    rcases h with h | h <;> simp [h]
  simp only [takeIf?, Cursor.eatIf?, if_neg hif]

/-- The two ways in which a token is taken under a condition, or is not. -/
theorem yields_takeIf? {p : Kind → Bool} {c d : Cursor} {o : Option Token} :
    (takeIf? p).Yields c o d ↔
      (∃ t, o = some t ∧ p t.kind = true ∧ c.Passes [t] d) ∨
        (o = none ∧ d = c ∧ (c.isAtEnd = true ∨ p c.peek.kind = false)) := by
  rw [Yields]
  by_cases h : c.isAtEnd = true ∨ p c.peek.kind = false
  · rw [takeIf?_of_refuses h]
    constructor
    · rintro ⟨ho, rfl⟩
      exact .inr ⟨(Except.ok.inj ho).symm, rfl, h⟩
    · rintro (⟨t, -, hp, ht⟩ | ⟨rfl, rfl, -⟩)
      · rw [ht.isAtEnd, ht.peek, hp] at h
        simp at h
      · exact ⟨rfl, rfl⟩
  · have he : c.isAtEnd = false := by simpa using mt Or.inl h
    have hp : p c.peek.kind = true := by simpa using mt Or.inr h
    rw [takeIf?_of_accepts he hp]
    constructor
    · rintro ⟨ho, rfl⟩
      exact .inl ⟨c.peek, (Except.ok.inj ho).symm, hp, Cursor.passes_next he⟩
    · rintro (⟨t, rfl, -, ht⟩ | ⟨-, -, h'⟩)
      · exact ⟨by rw [ht.peek], (Cursor.passes_next he).unique (ht.peek ▸ ht)⟩
      · exact absurd h' h

/-- A region too many is refused; any other is read one region deeper. -/
theorem nested_of_refuses {r : Rule α} {c : Cursor} (h : maxNesting ≤ c.depth) :
    nested r c = fail .tooDeep c := by
  rw [nested, Cursor.descend?_eq_none_iff.2 h]

/-- Below the limit a rule in a region does what it does one region deeper, and closes it. -/
theorem nested_of_allows {r : Rule α} {c : Cursor} (h : c.depth < maxNesting) :
    nested r c = { r c.deeper with cursor := (r c.deeper).cursor.ascend } := by
  rw [nested, Cursor.descend?_eq_some_iff.2 ⟨h, rfl⟩]

/-- A rule in a region yields what it does inside, below the limit. -/
theorem yields_nested {r : Rule α} {c d : Cursor} {a : α} :
    (nested r).Yields c a d ↔
      c.depth < maxNesting ∧ ∃ e, r.Yields c.deeper a e ∧ d = e.ascend := by
  rcases Nat.lt_or_ge c.depth maxNesting with h | h
  · rw [Yields, nested_of_allows h]
    constructor
    · rintro ⟨hv, rfl⟩
      exact ⟨h, _, ⟨hv, rfl⟩, rfl⟩
    · rintro ⟨-, e, ⟨hv, rfl⟩, rfl⟩
      exact ⟨hv, rfl⟩
  · rw [yields_congr (nested_of_refuses h)]
    exact ⟨fun k => absurd k not_yields_fail, fun ⟨k, _⟩ => absurd k (by omega)⟩

end Rule
end LoxFront
