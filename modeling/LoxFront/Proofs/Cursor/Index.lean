/-
# A cursor as an index

A cursor is an index into its list of tokens with a depth (`Cursor.Index`).  There a
token can be read out of range and more be subtracted than there is, and either gives
nothing at all.  A cursor that stands in the list (`Cursor.Sits`) never comes to that:
whatever is asked of the index, it gives what the cursor gives (`Cursor.Sits.indexed`).
-/

import LoxFront.Proofs.Cursor.Semicolons
import LoxFront.Proofs.Cursor.Start

namespace LoxFront
namespace Cursor

/-- An index into a list of tokens, and how many regions are open there. -/
structure Index where
  tokens : List Token
  position : Nat
  depth : Nat
  deriving DecidableEq, Repr

/-- The difference of two numbers, if it is one. -/
def minus? (m n : Nat) : Option Nat := if n ≤ m then some (m - n) else none

namespace Index

variable (i : Index)

/-- The token at the index, if it is in range. -/
def peek? : Option Token := i.tokens[i.position]?

/-- The token at the index is an end marker. -/
def isAtEnd? : Option Bool := i.peek?.map fun t => t.kind == .eof

/-- How many tokens are left before the last. -/
def remaining? : Option Nat := do minus? (← minus? i.tokens.length 1) i.position

/-- The token at the index and the index behind it. -/
def advance? : Option (Except Fault (Token × Index)) := do
  if ← i.isAtEnd? then return .error (.pastEnd (← i.peek?).line)
  return .ok (← i.peek?, { i with position := i.position + 1 })

/-- The token at the index is of this kind, and no end marker. -/
def check? (kind : Kind) : Option Bool := do
  if ← i.isAtEnd? then return false
  return (← i.peek?).kind == kind

/-- The token at the index, if it is accepted and no end marker, and the index behind it. -/
def eatHeld? (accepts : Kind → Payload → Bool) : Option (Option (Token × Index)) := do
  let t ← i.peek?
  if (← i.isAtEnd?) || !accepts t.kind t.payload then return none
  return (← i.advance?).toOption

/-- The token at the index, if it is of this kind and no end marker, and the index behind it. -/
def eat? (kind : Kind) : Option (Option (Token × Index)) := i.eatHeld? fun k _ => k == kind

end Index

/-- The place of the cursor in this list of tokens. -/
def index (tokens : List Token) (c : Cursor) : Index := ⟨tokens, c.position, c.depth⟩

/-- The token at the cursor, if it is accepted for its kind and what it holds, and the
cursor behind it. -/
def eatHeld? (c : Cursor) (accepts : Kind → Payload → Bool) : Option (Token × Cursor) :=
  if !c.isAtEnd && accepts c.peek.kind c.peek.payload then some (c.peek, c.next) else none

/-- Asking for kinds is asking for no more than that. -/
theorem eatIf?_eq_eatHeld? (c : Cursor) (accepts : Kind → Bool) :
    c.eatIf? accepts = c.eatHeld? fun k _ => accepts k := rfl

/-- What is taken is the token at the cursor, and the cursor is behind it. -/
theorem eatHeld?_eq_some {c d : Cursor} {t : Token} {accepts : Kind → Payload → Bool}
    (h : c.eatHeld? accepts = some (t, d)) : c.isAtEnd = false ∧ t = c.peek ∧ d = c.next := by
  unfold eatHeld? at h
  split at h
  · next hif =>
    obtain ⟨rfl, rfl⟩ := Prod.mk.inj (Option.some.inj h)
    exact ⟨by simpa using (Bool.and_eq_true_iff.1 hif).1, rfl, rfl⟩
  · exact nomatch h

/-- The cursor stands in this list of tokens, before its only end marker or at it, and
no more regions are open there than can be. -/
structure Sits (tokens : List Token) (c : Cursor) : Prop where
  on : c.On tokens
  rest_ne_eof : ∀ t ∈ c.rest, t.kind ≠ .eof
  marker_kind : c.marker.kind = .eof
  depth_le : c.depth ≤ maxNesting

variable {tokens : List Token} {c : Cursor}

/-- A list of tokens that has a cursor has it at its first token. -/
theorem sits_of_ofTokens (h : ofTokens tokens = .ok c) : c.Sits tokens := by
  obtain ⟨body, marker, hsound, rfl, rfl⟩ := ofTokens_eq_ok_iff.1 h
  exact ⟨rfl, hsound.body_ne_eof, hsound.marker_kind, Nat.zero_le _⟩

/-! ### What keeps a cursor in its list -/

/-- The cursor behind the next token sits in the same list. -/
theorem Sits.next (h : c.Sits tokens) : c.next.Sits tokens where
  on := h.on.of_reaches (reaches_next c)
  rest_ne_eof t ht := by
    obtain ⟨passed, hpassed⟩ := reaches_next c
    exact h.rest_ne_eof t (hpassed.rest ▸ List.mem_append_right _ ht)
  marker_kind := (reaches_next c).marker.symm ▸ h.marker_kind
  depth_le := (reaches_next c).depth.symm ▸ h.depth_le

/-- How many regions are open does not matter for where the cursor stands. -/
theorem Sits.with_depth (h : c.Sits tokens) {n : Nat} (hn : n ≤ maxNesting) :
    Sits tokens { c with depth := n } :=
  ⟨h.on, h.rest_ne_eof, h.marker_kind, hn⟩

/-- Closing a region does not move the cursor in the list. -/
theorem Sits.ascend (h : c.Sits tokens) : c.ascend.Sits tokens :=
  h.with_depth (Nat.le_trans (Nat.sub_le _ _) h.depth_le)

/-! ### What an index gives -/

/-- A cursor sits on a token: its position is an index of the list. -/
theorem Sits.position_lt (h : c.Sits tokens) : c.position < tokens.length := by
  have := h.on.length
  omega

/-- Nothing is subtracted from less. -/
theorem Sits.remaining_eq (h : c.Sits tokens) :
    c.remaining = tokens.length - 1 - c.position := by
  have := h.on.length
  rw [remaining]
  omega

/-- A cursor is at the end exactly when no token is left before the end marker. -/
theorem isAtEnd_iff_remaining (c : Cursor) : c.isAtEnd = true ↔ c.remaining = 0 := by
  rw [isAtEnd, List.isEmpty_iff, remaining, List.length_eq_zero_iff]

/-- The cursor is at the end where the token at it is the end marker. -/
theorem Sits.isAtEnd_eq (h : c.Sits tokens) : c.isAtEnd = (c.peek.kind == .eof) := by
  cases hend : c.isAtEnd with
  | true => rw [peek_eq_marker hend, h.marker_kind]; rfl
  | false =>
    have hmem : c.peek ∈ c.rest := List.mem_of_mem_head? (passes_singleton_iff.1 (passes_next hend)).1
    exact (beq_eq_false_iff_ne.2 (h.rest_ne_eof _ hmem)).symm

/-- Looking up the token by its index never fails, and gives the token that the cursor shows. -/
theorem Sits.peek? (h : c.Sits tokens) : (c.index tokens).peek? = some c.peek := by
  show tokens[c.position]? = some c.peek
  rw [← Nat.add_zero c.position, ← List.getElem?_drop, h.on, peek]
  cases c.rest <;> rfl

/-- Whatever is asked of the index of a cursor, it gives what the cursor gives. -/
structure Indexed (tokens : List Token) (c : Cursor) : Prop where
  peek : (c.index tokens).peek? = some c.peek
  isAtEnd : (c.index tokens).isAtEnd? = some c.isAtEnd
  remaining : (c.index tokens).remaining? = some c.remaining
  advance : (c.index tokens).advance? =
    some (c.advance.map fun r => (r.1, r.2.index tokens))
  check (kind : Kind) : (c.index tokens).check? kind = some (c.check kind)
  eatHeld (accepts : Kind → Payload → Bool) : (c.index tokens).eatHeld? accepts =
    some ((c.eatHeld? accepts).map fun r => (r.1, r.2.index tokens))
  eat (kind : Kind) : (c.index tokens).eat? kind =
    some ((c.eat? kind).map fun r => (r.1, r.2.index tokens))

/-- The look at the kind of the token by its index tells the end of the list. -/
theorem Sits.isAtEnd? (h : c.Sits tokens) : (c.index tokens).isAtEnd? = some c.isAtEnd := by
  rw [Index.isAtEnd?, h.peek?, h.isAtEnd_eq]
  rfl

/-- The difference of the length and the index never falls below zero: it counts the tokens
left. -/
theorem Sits.remaining? (h : c.Sits tokens) :
    (c.index tokens).remaining? = some c.remaining := by
  have hlt := h.position_lt
  have hlast : minus? tokens.length 1 = some (tokens.length - 1) := if_pos (by omega)
  have hleft : minus? (tokens.length - 1) c.position = some (tokens.length - 1 - c.position) :=
    if_pos (by omega)
  show (minus? tokens.length 1).bind (minus? · c.position) = _
  rw [hlast, Option.bind_some, hleft, h.remaining_eq]

/-- The index behind the token at the cursor is that of the next cursor. -/
theorem index_next (h : c.isAtEnd = false) :
    c.next.index tokens = ⟨tokens, c.position + 1, c.depth⟩ := by
  have hnext := passes_next h
  rw [index, hnext.position, hnext.depth]
  rfl

/-- Advancing by index neither fails nor leaves the list, and agrees with the cursor also in
its refusal. -/
theorem Sits.advance? (h : c.Sits tokens) : (c.index tokens).advance? =
    some (c.advance.map fun r => (r.1, r.2.index tokens)) := by
  rw [Index.advance?, h.isAtEnd?, h.peek?]
  cases hend : c.isAtEnd with
  | true =>
    rw [advance, if_pos hend, peek_eq_marker hend]
    rfl
  | false =>
    rw [advance_eq_ok hend]
    show _ = some (Except.ok (c.peek, c.next.index tokens))
    rw [index_next hend]
    rfl

/-- The kinds compared by index are those that the cursor compares. -/
theorem Sits.check? (h : c.Sits tokens) (kind : Kind) :
    (c.index tokens).check? kind = some (c.check kind) := by
  rw [Index.check?, h.isAtEnd?, h.peek?, check]
  cases c.isAtEnd <;> rfl

/-- Taking a token under a condition goes by index to where the cursor goes. -/
theorem Sits.eatHeld? (h : c.Sits tokens) (accepts : Kind → Payload → Bool) :
    (c.index tokens).eatHeld? accepts =
      some ((c.eatHeld? accepts).map fun r => (r.1, r.2.index tokens)) := by
  rw [Index.eatHeld?, h.isAtEnd?, h.peek?, h.advance?, Cursor.eatHeld?]
  cases hend : c.isAtEnd with
  | true => rfl
  | false =>
    rw [advance_eq_ok hend]
    cases hheld : accepts c.peek.kind c.peek.payload with
    | true => simp [hheld, Except.map, Except.toOption]
    | false => simp [hheld]

/-- **A cursor that stands in its list is an index into it:** nothing is read out of
range there and nothing subtracted from less. -/
theorem Sits.indexed (h : c.Sits tokens) : c.Indexed tokens where
  peek := h.peek?
  isAtEnd := h.isAtEnd?
  remaining := h.remaining?
  advance := h.advance?
  check := h.check?
  eatHeld := h.eatHeld?
  eat _ := h.eatHeld? _

end Cursor
end LoxFront
