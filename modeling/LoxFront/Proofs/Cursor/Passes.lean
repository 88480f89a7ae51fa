/-
# What lies between two cursors

`Cursor.Passes` says that some tokens lead from one cursor to another and that
nothing else changes: the end marker stays, the position counts the tokens, and
the open regions are the same.  Cursors of one list of tokens stand in it
(`Cursor.getElem?_position`): the token at a cursor is the token of the list at
its position.
-/

import LoxFront.Cursor.Basic

namespace LoxFront
namespace Cursor

/-- The tokens `passed` lead from `c` to `d`. -/
structure Passes (c : Cursor) (passed : List Token) (d : Cursor) : Prop where
  rest : c.rest = passed ++ d.rest
  marker : d.marker = c.marker
  position : d.position = c.position + passed.length
  depth : d.depth = c.depth

/-- The cursor `d` stands at `c` or behind it. -/
def Reaches (c d : Cursor) : Prop := ∃ passed, c.Passes passed d

/-- The same place with one more region open. -/
def deeper (c : Cursor) : Cursor := { c with depth := c.depth + 1 }

/-- Opening a region adds one to the depth. -/
@[simp] theorem deeper_depth (c : Cursor) : c.deeper.depth = c.depth + 1 := rfl

/-- Closing a region takes one from the depth, and nothing at depth zero. -/
@[simp] theorem ascend_depth (c : Cursor) : c.ascend.depth = c.depth - 1 := rfl

/-- A region is refused exactly at the limit. -/
theorem descend?_eq_none_iff {c : Cursor} : c.descend? = none ↔ maxNesting ≤ c.depth := by
  simp [descend?]

/-- Below the limit a region is opened, and nothing but the depth changes. -/
theorem descend?_eq_some_iff {c d : Cursor} :
    c.descend? = some d ↔ c.depth < maxNesting ∧ d = c.deeper := by
  unfold descend?
  split
  · next h => simp [deeper, h, eq_comm]
  · next h => simp [h]

/-! ### Passing tokens -/

/-- Every cursor passes no tokens to itself. -/
theorem Passes.refl (c : Cursor) : c.Passes [] c := ⟨rfl, rfl, rfl, rfl⟩

/-- All the tokens that are left lead to the end. -/
theorem passes_rest (c : Cursor) :
    c.Passes c.rest ⟨[], c.marker, c.position + c.rest.length, c.depth⟩ :=
  ⟨(List.append_nil _).symm, rfl, rfl, rfl⟩

/-- Tokens passed one after the other are passed together. -/
theorem Passes.trans {c d e : Cursor} {p q : List Token} (h : c.Passes p d) (k : d.Passes q e) :
    c.Passes (p ++ q) e where
  rest := by rw [h.rest, k.rest, List.append_assoc]
  marker := k.marker.trans h.marker
  position := by rw [k.position, h.position, List.length_append, Nat.add_assoc]
  depth := k.depth.trans h.depth

/-- Where some tokens lead to is settled. -/
theorem Passes.unique {c d e : Cursor} {p : List Token} (h : c.Passes p d) (k : c.Passes p e) :
    d = e := by
  obtain ⟨r₁, m₁, p₁, d₁⟩ := d
  obtain ⟨r₂, m₂, p₂, d₂⟩ := e
  have hr : r₁ = r₂ := List.append_cancel_left (h.rest.symm.trans k.rest)
  have hm : m₁ = m₂ := h.marker.trans k.marker.symm
  have hp : p₁ = p₂ := h.position.trans k.position.symm
  have hd : d₁ = d₂ := h.depth.trans k.depth.symm
  subst hr hm hp hd
  rfl

/-- No tokens are passed only where the cursor stays. -/
@[simp] theorem passes_nil_iff {c d : Cursor} : c.Passes [] d ↔ d = c :=
  ⟨fun h => h.unique (.refl c), fun h => h ▸ .refl c⟩

/-- A way over two stretches has a place between them. -/
theorem passes_append_iff {c e : Cursor} {p q : List Token} :
    c.Passes (p ++ q) e ↔ ∃ d, c.Passes p d ∧ d.Passes q e := by
  constructor
  · intro h
    refine ⟨⟨q ++ e.rest, c.marker, c.position + p.length, c.depth⟩, ⟨?_, rfl, rfl, rfl⟩,
      ⟨rfl, h.marker, ?_, h.depth⟩⟩
    · rw [h.rest, List.append_assoc]
    · rw [h.position, List.length_append, Nat.add_assoc]
  · rintro ⟨d, hp, hq⟩
    exact hp.trans hq

/-- A single token is passed if it is the next one and the cursor goes behind it. -/
theorem passes_singleton_iff {c d : Cursor} {t : Token} :
    c.Passes [t] d ↔ c.rest.head? = some t ∧ d = c.next := by
  obtain ⟨rest, marker, position, depth⟩ := c
  constructor
  · intro h
    have hr : rest = t :: d.rest := h.rest
    refine ⟨by rw [hr]; rfl, h.unique ⟨?_, ?_, ?_, ?_⟩⟩ <;> simp [next, hr]
  · rintro ⟨ht, rfl⟩
    cases rest with
    | nil => simp at ht
    | cons s rest =>
      obtain rfl : s = t := by simpa using ht
      exact ⟨rfl, rfl, rfl, rfl⟩

/-- Tokens are passed one by one. -/
theorem passes_cons_iff {c e : Cursor} {t : Token} {p : List Token} :
    c.Passes (t :: p) e ↔ ∃ d, c.Passes [t] d ∧ d.Passes p e :=
  passes_append_iff (p := [t])

/-- What is passed and what is left make up what was there. -/
theorem Passes.length {c d : Cursor} {p : List Token} (h : c.Passes p d) :
    c.rest.length = p.length + d.rest.length := by
  rw [h.rest, List.length_append]

/-- The first token that is passed is the one that the cursor shows. -/
theorem Passes.peek {c d : Cursor} {t : Token} {p : List Token} (h : c.Passes (t :: p) d) :
    c.peek = t := by
  rw [Cursor.peek, h.rest]; rfl

/-- A cursor that passes a token is not at the end. -/
theorem Passes.isAtEnd {c d : Cursor} {t : Token} {p : List Token} (h : c.Passes (t :: p) d) :
    c.isAtEnd = false := by
  rw [Cursor.isAtEnd, h.rest]; rfl

/-- The same tokens are passed one region deeper. -/
theorem Passes.deeper {c d : Cursor} {p : List Token} (h : c.Passes p d) :
    c.deeper.Passes p d.deeper :=
  ⟨h.rest, h.marker, h.position, congrArg (· + 1) h.depth⟩

/-- What is passed in a region is passed around it. -/
theorem Passes.ascend {c d : Cursor} {p : List Token} (h : c.deeper.Passes p d) :
    c.Passes p d.ascend :=
  ⟨h.rest, h.marker, h.position, by rw [ascend_depth, h.depth]; rfl⟩

/-- Behind tokens passed in a region there is a region to close. -/
theorem Passes.deeper_ascend {c d : Cursor} {p : List Token} (h : c.deeper.Passes p d) :
    d.ascend.deeper = d :=
  h.ascend.deeper.unique h

/-! ### Reaching a place -/

/-- A cursor that passes tokens reaches the place behind them. -/
theorem Passes.reaches {c d : Cursor} {p : List Token} (h : c.Passes p d) : c.Reaches d := ⟨p, h⟩

/-- Every cursor reaches its own place. -/
theorem Reaches.refl (c : Cursor) : c.Reaches c := (Passes.refl c).reaches

/-- What is reached from a place that is reached is reached. -/
theorem Reaches.trans {c d e : Cursor} (h : c.Reaches d) (k : d.Reaches e) : c.Reaches e := by
  obtain ⟨p, hp⟩ := h
  obtain ⟨q, hq⟩ := k
  exact (hp.trans hq).reaches

/-- On the way the depth stays as it is. -/
theorem Reaches.depth {c d : Cursor} (h : c.Reaches d) : d.depth = c.depth := by
  obtain ⟨p, hp⟩ := h
  exact hp.depth

/-- On the way the end marker stays the same. -/
theorem Reaches.marker {c d : Cursor} (h : c.Reaches d) : d.marker = c.marker := by
  obtain ⟨p, hp⟩ := h
  exact hp.marker

/-- What is reached inside a region is reached around it, once the region is closed. -/
theorem Reaches.ascend {c d : Cursor} (h : c.deeper.Reaches d) : c.Reaches d.ascend := by
  obtain ⟨p, hp⟩ := h
  exact hp.ascend.reaches

/-- Position and tokens left add up to the same number everywhere. -/
theorem Reaches.position_add {c d : Cursor} (h : c.Reaches d) :
    d.position + d.rest.length = c.position + c.rest.length := by
  obtain ⟨p, hp⟩ := h
  rw [hp.position, hp.length, Nat.add_assoc]

/-- Positions do not fall on the way. -/
theorem Reaches.position_le {c d : Cursor} (h : c.Reaches d) : c.position ≤ d.position := by
  obtain ⟨p, hp⟩ := h
  rw [hp.position]
  exact Nat.le_add_right ..

/-- One step is a way, also at the end, where the cursor stays. -/
theorem reaches_next (c : Cursor) : c.Reaches c.next := by
  cases hr : c.rest with
  | nil => rw [next, hr]; exact .refl c
  | cons t rest => exact (passes_singleton_iff.2 ⟨by rw [hr]; rfl, rfl⟩).reaches

/-- Resuming behind a semicolon, or at the end, is a way forward. -/
theorem reaches_resume (c : Cursor) : c.Reaches c.resume := by
  have hle : ∀ ts, toSemicolon ts ≤ ts.length := fun ts => by
    induction ts with
    | nil => exact Nat.le_refl 0
    | cons t ts ih => rw [toSemicolon, List.length_cons]; split <;> omega
  refine ⟨c.rest.take (toSemicolon c.rest), ⟨?_, rfl, ?_, rfl⟩⟩
  · exact (List.take_append_drop ..).symm
  · rw [List.length_take, Nat.min_eq_left (hle _)]
    rfl

/-- Panic mode drops a token unless none is left. -/
theorem position_lt_resume {c : Cursor} (h : c.isAtEnd = false) :
    c.position < c.resume.position := by
  have hpos : 0 < toSemicolon c.rest := by
    cases hr : c.rest with
    | nil => simp [isAtEnd, hr] at h
    | cons t rest => rw [toSemicolon]; split <;> omega
  exact Nat.lt_add_of_pos_right hpos

/-- A step before the end raises the position. -/
theorem position_lt_next {c : Cursor} (h : c.isAtEnd = false) : c.position < c.next.position := by
  cases hr : c.rest with
  | nil => simp [isAtEnd, hr] at h
  | cons t rest => simp [next, hr]

/-! ### The token at a cursor -/

/-- A check asks for a kind and for a token before the end marker; the marker never passes it. -/
theorem check_eq_true_iff {c : Cursor} {k : Kind} :
    c.check k = true ↔ c.isAtEnd = false ∧ c.peek.kind = k := by
  simp [check]

/-- A token that is not the end marker is passed by `Cursor.next`. -/
theorem passes_next {c : Cursor} (h : c.isAtEnd = false) : c.Passes [c.peek] c.next := by
  refine passes_singleton_iff.2 ⟨?_, rfl⟩
  cases hr : c.rest with
  | nil => simp [isAtEnd, hr] at h
  | cons t rest => simp [peek, hr]

/-- The end marker is at hand only at the end. -/
theorem isAtEnd_eq_false {c : Cursor} (hm : c.marker.kind = .eof) (h : c.peek.kind ≠ .eof) :
    c.isAtEnd = false := by
  cases hr : c.rest with
  | nil => simp [peek, hr, hm] at h
  | cons t rest => simp [isAtEnd, hr]

/-- At the end no token is left. -/
theorem rest_eq_nil {c : Cursor} (h : c.isAtEnd = true) : c.rest = [] := List.isEmpty_iff.1 h

/-- At the end only the end marker is at hand. -/
theorem peek_eq_marker {c : Cursor} (h : c.isAtEnd = true) : c.peek = c.marker := by
  rw [peek, rest_eq_nil h]; rfl

/-- Where a token is left there was one before. -/
theorem Reaches.isAtEnd_eq_false {c d : Cursor} (h : c.Reaches d) (hd : d.isAtEnd = false) :
    c.isAtEnd = false := by
  obtain ⟨p, hp⟩ := h
  have hrest : d.rest ≠ [] := by simpa [isAtEnd] using hd
  simp [isAtEnd, hp.rest, hrest]

/-- Where a token was taken there was one. -/
theorem Reaches.isAtEnd_of_lt {c d : Cursor} (h : c.Reaches d) (hlt : c.position < d.position) :
    c.isAtEnd = false := by
  cases hc : c.isAtEnd with
  | false => rfl
  | true =>
    have hadd := h.position_add
    rw [rest_eq_nil hc, List.length_nil] at hadd
    omega

/-- On the way to the end tokens are taken if there were any. -/
theorem Reaches.position_lt_of_isAtEnd {c d : Cursor} (h : c.Reaches d) (hc : c.isAtEnd = false)
    (hd : d.isAtEnd = true) : c.position < d.position := by
  have hadd := h.position_add
  have hlen := (passes_next hc).length
  rw [rest_eq_nil hd, List.length_nil] at hadd
  rw [List.length_singleton] at hlen
  omega

/-- A cursor with no token left is at the end. -/
theorem isAtEnd_of_length_le {c : Cursor} (h : c.rest.length ≤ 0) : c.isAtEnd = true :=
  List.isEmpty_iff.2 (List.eq_nil_of_length_eq_zero (Nat.le_zero.1 h))

/-- So many regions can be opened at a cursor over sound tokens. -/
structure Allows (c : Cursor) (n : Nat) : Prop where
  marker_kind : c.marker.kind = .eof
  depth_add : c.depth + n = maxNesting

/-- As many regions can be opened further on. -/
theorem Allows.of_reaches {c d : Cursor} {n : Nat} (h : c.Allows n) (k : c.Reaches d) :
    d.Allows n :=
  ⟨by rw [k.marker, h.marker_kind], by rw [k.depth, h.depth_add]⟩

/-- As many regions can be opened behind tokens that are passed. -/
theorem Allows.of_passes {c d : Cursor} {n : Nat} {p : List Token} (h : c.Allows n)
    (k : c.Passes p d) : d.Allows n := h.of_reaches k.reaches

/-- Inside a region one region less can be opened. -/
theorem Allows.deeper {c : Cursor} {n : Nat} (h : c.Allows (n + 1)) : c.deeper.Allows n :=
  ⟨h.marker_kind, by rw [deeper_depth, ← h.depth_add]; omega⟩

end Cursor
end LoxFront
