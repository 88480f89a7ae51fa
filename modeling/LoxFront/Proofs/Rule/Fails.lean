/-
# Where rules fail

A rule fails first with a complaint about a token somewhere, whatever else it
tells of later (`Rule.FailsFirst`).  Of two rules one after another either the
first one fails first, or it reads a value without any failure and the other one
fails first behind it (`Rule.failsFirst_bind`).  What is written is read unless
a region too many is opened, and then the rule fails first there
(`Rule.ReadsUnless`).
-/

import LoxFront.Proofs.Rule.Law

namespace LoxFront

/-- A complaint about a token at a position. -/
structure FailurePoint where
  position : Nat
  complaint : Complaint
  token : Token
  deriving DecidableEq, Repr

/-- The failure that an event tells of. -/
def Event.failure? : Event → Option FailurePoint
  | failed position complaint token => some ⟨position, complaint, token⟩
  | _ => none

/-- The first failure that events tell of. -/
def firstFailure? (trace : List Event) : Option FailurePoint := trace.findSome? Event.failure?

/-- The first failure told in two parts is that of the one or, if it has none, of the other. -/
@[simp] theorem firstFailure?_append (t u : List Event) :
    firstFailure? (t ++ u) = (firstFailure? t).or (firstFailure? u) := List.findSome?_append

namespace Rule

variable {α β : Type} {c d m : Cursor} {x : FailurePoint}

/-- The first failure of the rule at a cursor. -/
def FailsFirst (r : Rule α) (c : Cursor) (x : FailurePoint) : Prop :=
  firstFailure? (r c).trace = some x

/-- The rule reads a value and nothing fails on the way. -/
def Reads (r : Rule α) (c : Cursor) (a : α) (d : Cursor) : Prop :=
  r.Yields c a d ∧ firstFailure? (r c).trace = none

/-- A bind fails first in its first part, or behind what that part reads without a failure. -/
theorem failsFirst_bind {r : Rule α} {f : α → Rule β} :
    (r >>= f).FailsFirst c x ↔ r.FailsFirst c x ∨ ∃ a d, r.Reads c a d ∧ (f a).FailsFirst d x := by
  cases hv : (r c).value with
  | error e =>
    rw [FailsFirst, bind_of_error hv]
    refine (or_iff_left ?_).symm
    rintro ⟨a, d, ⟨⟨ha, -⟩, -⟩, -⟩
    exact nomatch hv.symm.trans ha
  | ok a =>
    rw [FailsFirst, bind_of_ok hv]
    show firstFailure? ((r c).trace ++ (f a (r c).cursor).trace) = some x ↔ _
    rw [firstFailure?_append, Option.or_eq_some_iff]
    refine or_congr_right ⟨fun ⟨hr, hf⟩ => ⟨a, _, ⟨⟨hv, rfl⟩, hr⟩, hf⟩, ?_⟩
    rintro ⟨a', d, ⟨⟨ha, rfl⟩, hr⟩, hf⟩
    obtain rfl := Except.ok.inj (hv.symm.trans ha)
    exact ⟨hr, hf⟩

/-- A bind reads without a failure if both parts do. -/
theorem reads_bind {r : Rule α} {f : α → Rule β} {b : β} :
    (r >>= f).Reads c b d ↔ ∃ a m, r.Reads c a m ∧ (f a).Reads m b d := by
  constructor
  · rintro ⟨hy, hnone⟩
    obtain ⟨a, m, ⟨ha, rfl⟩, hb⟩ := yields_bind.1 hy
    rw [bind_of_ok ha] at hnone
    have hboth := (firstFailure?_append _ _).symm.trans hnone
    rw [Option.or_eq_none_iff] at hboth
    exact ⟨a, _, ⟨⟨ha, rfl⟩, hboth.1⟩, hb, hboth.2⟩
  · rintro ⟨a, m, ⟨⟨ha, rfl⟩, hnone⟩, hb, hnone'⟩
    refine ⟨yields_bind.2 ⟨a, _, ⟨ha, rfl⟩, hb⟩, ?_⟩
    rw [bind_of_ok ha]
    show firstFailure? ((r c).trace ++ _) = none
    rw [firstFailure?_append, hnone, hnone']
    rfl

/-- Looking at the next kind does not fail. -/
theorem failsFirst_kind_bind {f : Kind → Rule β} :
    (kind >>= f).FailsFirst c x ↔ (f c.peek.kind).FailsFirst c x := .rfl

/-- Asking for a kind does not fail. -/
theorem failsFirst_nextIs_bind {k : Kind} {f : Bool → Rule β} :
    (nextIs k >>= f).FailsFirst c x ↔ (f (c.check k)).FailsFirst c x := .rfl

/-- Taking the next token does not fail. -/
theorem failsFirst_take_bind {f : Token → Rule β} :
    (take >>= f).FailsFirst c x ↔ (f c.peek).FailsFirst c.next x := .rfl

/-- Giving a value does not fail. -/
theorem not_failsFirst_pure {a : α} : ¬(pure a : Rule α).FailsFirst c x := fun h => nomatch h

/-- A complaint fails at the next token, with its message. -/
theorem failsFirst_fail {k : Complaint} :
    (fail k : Rule α).FailsFirst c x ↔ x = ⟨c.position, k, c.peek⟩ :=
  ⟨fun h => (Option.some.inj h).symm, fun h => congrArg some h.symm⟩

/-- A token that is expected fails at another one. -/
theorem failsFirst_expect {k : Kind} {y : Complaint} :
    (expect k y).FailsFirst c x ↔ c.check k = false ∧ x = ⟨c.position, y, c.peek⟩ := by
  rw [expect, failsFirst_nextIs_bind]
  cases c.check k with
  | true =>
    rw [if_pos rfl]
    exact ⟨fun h => absurd h.symm (Option.some_ne_none x),
      fun h => absurd h.1.symm Bool.false_ne_true⟩
  | false =>
    rw [if_neg Bool.false_ne_true, failsFirst_fail]
    exact (and_iff_right rfl).symm

/-- A token that is expected is read if it is there. -/
theorem reads_expect {k : Kind} {y : Complaint} {t : Token} :
    (expect k y).Reads c t d ↔ t.kind = k ∧ c.Passes [t] d := by
  refine ⟨fun h => yields_expect.1 h.1, fun h => ⟨yields_expect.2 h, ?_⟩⟩
  have hcheck : c.check k = true :=
    Cursor.check_eq_true_iff.2 ⟨h.2.isAtEnd, by rw [h.2.peek, h.1]⟩
  rw [expect, nextIs_bind, hcheck]
  rfl

/-- Taking a token under a condition tells of nothing. -/
theorem takeIf?_trace (p : Kind → Bool) (c : Cursor) : (takeIf? p c).trace = [] := by
  by_cases h : c.isAtEnd = true ∨ p c.peek.kind = false
  · rw [takeIf?_of_refuses h]
  · rw [takeIf?_of_accepts (by simpa using mt Or.inl h) (by simpa using mt Or.inr h)]

/-- It never fails, so it reads what it yields. -/
theorem reads_takeIf? {p : Kind → Bool} {o : Option Token} :
    (takeIf? p).Reads c o d ↔ (takeIf? p).Yields c o d :=
  and_iff_left (by rw [takeIf?_trace]; rfl)

/-- A token that is missing there is no failure. -/
theorem not_failsFirst_takeIf? {p : Kind → Bool} : ¬(takeIf? p).FailsFirst c x := by
  rw [FailsFirst, takeIf?_trace]
  exact fun h => nomatch h

/-- A rule in a region fails first at the limit, or inside. -/
theorem failsFirst_nested {r : Rule α} :
    (nested r).FailsFirst c x ↔ maxNesting ≤ c.depth ∧ x = ⟨c.position, .tooDeep, c.peek⟩ ∨
      c.depth < maxNesting ∧ r.FailsFirst c.deeper x := by
  rcases Nat.lt_or_ge c.depth maxNesting with h | h
  · rw [FailsFirst, nested_of_allows h]
    refine ⟨fun hx => .inr ⟨h, hx⟩, ?_⟩
    rintro (⟨hge, -⟩ | ⟨-, hx⟩)
    · omega
    · exact hx
  · rw [FailsFirst, nested_of_refuses h]
    refine ⟨fun hx => .inl ⟨h, failsFirst_fail.1 hx⟩, ?_⟩
    rintro (⟨-, hx⟩ | ⟨hlt, -⟩)
    · exact failsFirst_fail.2 hx
    · omega

/-- Recovering changes nothing about the first failure. -/
theorem firstFailure?_recover (r : Rule Stmt) (c : Cursor) :
    firstFailure? (recover r c).trace = firstFailure? (r c).trace := by
  cases hv : (r c).value with
  | ok s =>
    rw [recover_of_ok hv]
    rfl
  | error e =>
    rw [recover_of_error hv, firstFailure?_append]
    exact Option.or_none

/-- A declaration fails first where its rule does; panic mode fails nowhere. -/
theorem failsFirst_recover {r : Rule Stmt} :
    (always (recover r)).FailsFirst c x ↔ r.FailsFirst c x := by
  show firstFailure? (Rule.recover r c).trace = some x ↔ _
  rw [firstFailure?_recover]
  rfl

/-- What is read without a failure is not recovered. -/
theorem Reads.recover {r : Rule Stmt} {s : Stmt} (h : r.Reads c s d) :
    (always (recover r)).Reads c s d := by
  refine ⟨?_, (firstFailure?_recover r c).trans h.2⟩
  rw [Yields, always, recover_of_ok h.1.1]
  exact ⟨rfl, h.1.2⟩

/-! ### Declarations one after another -/

section

variable (item : Cursor → Parsed Stmt)

/-- At a closing brace or the end no declaration is read. -/
theorem declarations_of_stops (more : List Token)
    (h : c.isAtEnd = true ∨ c.check .rightBrace = true) :
    always (declarations item more) c = (pure [] : Rule (List Stmt)) c := by
  cases more with
  | nil => rfl
  | cons t more =>
    rw [always, declarations, if_pos (by simpa using h)]
    rfl

/-- Declarations go on with one of them and others behind it. -/
theorem declarations_of_goesOn (t : Token) (more : List Token) (he : c.isAtEnd = false)
    (hbrace : c.check .rightBrace = false) :
    always (declarations item (t :: more)) c = (always item >>= fun s =>
      always (declarations item more) >>= fun rest => pure (s :: rest)) c := by
  rw [bind_of_ok (a := (item c).value) rfl]
  show _ = Parsed.after ((always (declarations item more) >>= fun rest =>
    (pure ((item c).value :: rest) : Rule (List Stmt))) (item c).cursor) (item c).trace
  rw [bind_of_ok (a := (declarations item more (item c).cursor).value) rfl, always, declarations,
    if_neg (by simp [he, hbrace])]
  show _ = Parsed.after ⟨_, _, (declarations item more (item c).cursor).trace ++ []⟩ (item c).trace
  rw [List.append_nil]
  rfl

end

/-! ### Up to the limit of regions -/

/-- The rule reads the value and nothing fails on the way, if no region too many is
opened.  If one is, the rule fails first there, at the given place. -/
def ReadsUnless (place : Option Nat) (r : Rule α) (c : Cursor) (a : α) (d : Cursor) : Prop :=
  place.elim (r.Reads c a d) fun p => ∃ t, r.FailsFirst c ⟨p, .tooDeep, t⟩

variable {place place' : Option Nat} {r : Rule α} {a : α} {b : β}

/-- Only the result of a rule matters. -/
theorem ReadsUnless.congr {s : Rule α} {c' : Cursor} (h : r.ReadsUnless place c' a d)
    (hrs : s c = r c') : s.ReadsUnless place c a d := by
  rw [ReadsUnless] at h ⊢
  simp only [Reads, Yields, FailsFirst, hrs]
  exact h

/-- Of two rules one after another the first one decides if it fails. -/
theorem ReadsUnless.bind {f : α → Rule β} (h : r.ReadsUnless place c a m)
    (k : (f a).ReadsUnless place' m b d) : (r >>= f).ReadsUnless (place.or place') c b d := by
  cases place with
  | some p =>
    obtain ⟨t, ht⟩ := h
    exact ⟨t, failsFirst_bind.2 (.inl ht)⟩
  | none =>
    cases place' with
    | none => exact reads_bind.2 ⟨a, m, h, k⟩
    | some p =>
      obtain ⟨t, ht⟩ := k
      exact ⟨t, failsFirst_bind.2 (.inr ⟨a, m, h, ht⟩)⟩

/-- A first part that may go beyond the limit, and one that reads, do so together. -/
theorem ReadsUnless.bind_reads {f : α → Rule β} (h : r.ReadsUnless place c a m)
    (k : (f a).Reads m b d) : (r >>= f).ReadsUnless place c b d := by
  rw [← Option.or_none (o := place)]
  exact h.bind k

/-- A part that reads, and one that may go beyond the limit, do so together. -/
theorem Reads.bind_unless {f : α → Rule β} (h : r.Reads c a m)
    (k : (f a).ReadsUnless place m b d) : (r >>= f).ReadsUnless place c b d := by
  rw [← Option.none_or (o := place)]
  exact ReadsUnless.bind h k

/-- Giving a value is no failure. -/
theorem reads_pure (a : α) (c : Cursor) : (pure a : Rule α).Reads c a c := ⟨⟨rfl, rfl⟩, rfl⟩

/-- Telling of an event other than a failure is none. -/
theorem reads_note {e : Event} (he : e.failure? = none) (c : Cursor) :
    (note e).Reads c () c := by
  refine ⟨⟨rfl, rfl⟩, ?_⟩
  show [e].findSome? Event.failure? = none
  rw [List.findSome?_cons, he]
  rfl

/-- Looking at the next kind has no part in the limit. -/
theorem readsUnless_kind_bind {f : Kind → Rule β} :
    (kind >>= f).ReadsUnless place c b d ↔ (f c.peek.kind).ReadsUnless place c b d := .rfl

/-- Asking for a kind has no part in the limit. -/
theorem readsUnless_nextIs_bind {k : Kind} {f : Bool → Rule β} :
    (nextIs k >>= f).ReadsUnless place c b d ↔ (f (c.check k)).ReadsUnless place c b d := .rfl

/-- A token of a matched kind is taken. -/
theorem ReadsUnless.take_bind {f : Token → Rule β} {t : Token} (ht : c.Passes [t] m)
    (h : (f t).ReadsUnless place m b d) : (take >>= f).ReadsUnless place c b d := by
  have hm : m = c.next := (Cursor.passes_singleton_iff.1 ht).2
  rw [← ht.peek, hm] at h
  exact h

/-- Behind a token that is expected and there the limit is left to the rest. -/
theorem ReadsUnless.expect_bind {k : Kind} {y : Complaint} {f : Token → Rule β} {t : Token}
    (hk : t.kind = k) (ht : c.Passes [t] m) (h : (f t).ReadsUnless place m b d) :
    (expect k y >>= f).ReadsUnless place c b d :=
  Reads.bind_unless (reads_expect.2 ⟨hk, ht⟩) h

/-- Behind a token that is expected and there the rest is read. -/
theorem Reads.expect_bind {k : Kind} {y : Complaint} {f : Token → Rule β} {t : Token}
    (hk : t.kind = k) (ht : c.Passes [t] m) (h : (f t).Reads m b d) :
    (expect k y >>= f).Reads c b d :=
  reads_bind.2 ⟨t, m, reads_expect.2 ⟨hk, ht⟩, h⟩

/-- A region is one too many if none can be opened. -/
theorem ReadsUnless.nested {n : Nat} (hc : c.Allows n)
    (h : ∀ j, n = j + 1 → r.ReadsUnless place c.deeper a d.deeper) :
    (nested r).ReadsUnless (if c.depth = maxNesting then some c.position else place) c a d := by
  have hadd := hc.depth_add
  cases n with
  | zero =>
    rw [if_pos (by omega)]
    exact ⟨c.peek, failsFirst_nested.2 (.inl ⟨by omega, rfl⟩)⟩
  | succ n =>
    have hlt : c.depth < maxNesting := by omega
    rw [if_neg (by omega)]
    specialize h n rfl
    cases place with
    | none =>
      refine ⟨yields_nested.2 ⟨hlt, d.deeper, h.1, rfl⟩, ?_⟩
      rw [nested_of_allows hlt]
      exact h.2
    | some p =>
      obtain ⟨t, ht⟩ := h
      exact ⟨t, failsFirst_nested.2 (.inr ⟨hlt, ht⟩)⟩

/-- Recovering changes nothing about what is read up to the limit. -/
theorem ReadsUnless.recover {r : Rule Stmt} {s : Stmt} (h : r.ReadsUnless place c s d) :
    (always (recover r)).ReadsUnless place c s d := by
  cases place with
  | none => exact Reads.recover h
  | some p =>
    obtain ⟨t, ht⟩ := h
    exact ⟨t, failsFirst_recover.2 ht⟩

end Rule
end LoxFront
