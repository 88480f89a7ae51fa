/-
# How failures are spaced

A rule for expressions fails once at most, where it stops (`Rule.once`).  A failure
that a rule for statements recovers from is parted from all that comes behind it, and
there are no more of them than semicolons are passed, but for the last ones, which are
no more than there are regions (`Rule.Spaced`, `Rule.statement_spaces`).
-/

import LoxFront.Proofs.Cursor.Semicolons
import LoxFront.Proofs.Rule.Fails
import LoxFront.Proofs.Rule.Progress

namespace LoxFront

/-- The failures that events tell of, in order. -/
def failures (trace : List Event) : List FailurePoint := trace.filterMap Event.failure?

/-- The positions of the failures that events tell of. -/
def failedAt (trace : List Event) : List Nat := (failures trace).map FailurePoint.position

/-- The failures told in two parts are those of the one and then of the other. -/
@[simp] theorem failedAt_append (t u : List Event) :
    failedAt (t ++ u) = failedAt t ++ failedAt u := by
  rw [failedAt, failures, List.filterMap_append, List.map_append]
  rfl

namespace Rule

/-- A rule fails only where it ends with an error. -/
def once : Law := fun _ o d t => failedAt t = o.toList.map fun _ => d.position

/-- The law is kept by single steps and put together by binds and regions. -/
theorem once_composes : Law.Composes once where
  stay _ := rfl
  step _ := rfl
  returned _ := rfl
  failed _ _ := rfl
  trans := by
    intro c d e o t u ht hu
    rw [once, failedAt_append, ht, hu]
    rfl
  region _ h := h

/-- So the rule for expressions fails once at most, where it stops. -/
theorem expression_once (n : Nat) : (expression (.upTo n)).Obeys once :=
  expression_obeys once_composes n

/-! ### Failures that are recovered from -/

/-- Between two cursors rules recovered from failures at these places.  Each is parted from
those behind it and from the second cursor; as many semicolons are passed, but for `b` if the
second cursor is at the end. -/
structure Spaced (tokens : List Token) (b : Nat) (c d : Cursor) (places : List Nat) : Prop where
  pairwise : places.Pairwise (Parted tokens)
  within : ∀ p ∈ places, c.position ≤ p ∧ Parted tokens p d.position
  count : places.length + d.semicolons ≤ c.semicolons + if d.isAtEnd then b else 0

namespace Spaced

variable {tokens : List Token} {b b' : Nat} {c d e : Cursor} {ps qs : List Nat}

/-- Between two cursors there may be no failure. -/
theorem nil (h : c.Reaches d) : Spaced tokens b c d [] where
  pairwise := .nil
  within := List.forall_mem_nil _
  count := by
    rw [List.length_nil, Nat.zero_add]
    exact Nat.le_add_right_of_le h.semicolons_le

/-- More failures may be allowed for at the end. -/
theorem mono (h : Spaced tokens b c d ps) (hb : b ≤ b') : Spaced tokens b' c d ps := by
  refine ⟨h.pairwise, h.within, Nat.le_trans h.count (Nat.add_le_add_left ?_ _)⟩
  split
  · exact hb
  · exact Nat.le_refl 0

/-- Nothing fails before the first cursor. -/
theorem of_reaches (h : Spaced tokens b d e ps) (hc : c.Reaches d) : Spaced tokens b c e ps where
  pairwise := h.pairwise
  within p hp := ⟨Nat.le_trans hc.position_le (h.within p hp).1, (h.within p hp).2⟩
  count := Nat.le_trans h.count (Nat.add_le_add_right hc.semicolons_le _)

/-- What is spaced in a region is spaced around it. -/
theorem ascend (h : Spaced tokens b c.deeper d ps) : Spaced tokens b c d.ascend ps :=
  ⟨h.pairwise, h.within, h.count⟩

/-- What fails behind a place before the end comes behind what failed before. -/
theorem append (h : Spaced tokens b c d ps) (k : Spaced tokens b' d e qs) (hend : d.isAtEnd = false)
    (hc : c.Reaches d) (hd : d.Reaches e) (he : e.On tokens) : Spaced tokens b' c e (ps ++ qs) := by
  have hlast := he.length
  refine ⟨List.pairwise_append.2 ⟨h.pairwise, k.pairwise, fun p hp q hq => ?_⟩,
    List.forall_mem_append.2 ⟨fun p hp => ?_, fun q hq => ?_⟩, ?_⟩
  · obtain ⟨hle, hparted⟩ := k.within q hq
    exact (h.within p hp).2.mono hle (by have := hparted.le; omega)
  · obtain ⟨hle, hparted⟩ := h.within p hp
    exact ⟨hle, hparted.mono hd.position_le (by omega)⟩
  · obtain ⟨hle, hparted⟩ := k.within q hq
    exact ⟨Nat.le_trans hc.position_le hle, hparted⟩
  · have hcount := h.count
    rw [hend, if_neg Bool.false_ne_true] at hcount
    have := k.count
    rw [List.length_append]
    omega

/-- **Panic mode recovers from a failure.**  It passes a semicolon, or it comes to the end, where
one more failure counts. -/
theorem resume (h : Spaced tokens b c d ps) (hc : c.Reaches d) (hd : d.On tokens) :
    Spaced tokens (b + 1) c d.resume (ps ++ [d.position]) := by
  have hlast := (hd.of_reaches d.reaches_resume).length
  have hle := d.reaches_resume.position_le
  refine ⟨List.pairwise_append.2 ⟨h.pairwise, List.pairwise_singleton _ _, fun p hp q hq => ?_⟩,
    List.forall_mem_append.2 ⟨fun p hp => ?_, List.forall_mem_singleton.2 ?_⟩, ?_⟩
  · obtain rfl := List.mem_singleton.1 hq
    exact (h.within p hp).2
  · exact ⟨(h.within p hp).1, (h.within p hp).2.mono hle (by omega)⟩
  · exact ⟨hc.position_le, hd.parted_resume⟩
  · have hcount := h.count
    rw [List.length_append, List.length_singleton]
    rcases d.resume_semicolons with hsemicolon | ⟨hend, hnone⟩
    · have hne : d.isAtEnd = false := by
        cases hend : d.isAtEnd with
        | false => rfl
        | true => rw [Cursor.semicolons_of_isAtEnd hend] at hsemicolon; omega
      rw [hne, if_neg Bool.false_ne_true] at hcount
      omega
    · rw [Cursor.semicolons_of_isAtEnd hend, hend, if_pos rfl]
      split at hcount <;> omega

/-- At the end one more failure counts too, with nothing to pass. -/
theorem atEnd (h : Spaced tokens b c d ps) (hc : c.Reaches d) (hd : d.On tokens)
    (hend : d.isAtEnd = true) : Spaced tokens (b + 1) c d (ps ++ [d.position]) := by
  have hresume := h.resume hc hd
  rwa [Cursor.resume_of_isAtEnd hend] at hresume

end Spaced

/-- What fails between two cursors, with an error at the second one or none, where `n` regions can
be opened: the last failure of a rule that ends with an error is the error's own, and the others
are recovered from. -/
def Spacing (tokens : List Token) (n : Nat) (c : Cursor) :
    Option ParseError → Cursor → List Nat → Prop
  | none, d, places => Spaced tokens (n + 1) c d places
  | some _, d, places => ∃ ps, places = ps ++ [d.position] ∧ Spaced tokens n c d ps

namespace Spacing

variable {tokens : List Token} {n n' : Nat} {c d e : Cursor} {o : Option ParseError}
  {ps qs : List Nat}

/-- More regions may be allowed for. -/
theorem mono (h : Spacing tokens n c o d ps) (hn : n ≤ n') : Spacing tokens n' c o d ps := by
  cases o with
  | none => exact Spaced.mono h (Nat.succ_le_succ hn)
  | some e =>
    obtain ⟨qs, hqs, h⟩ := h
    exact ⟨qs, hqs, h.mono hn⟩

/-- What fails from a place on fails from every place before it. -/
theorem of_reaches (h : Spacing tokens n d o e ps) (hc : c.Reaches d) :
    Spacing tokens n c o e ps := by
  cases o with
  | none => exact Spaced.of_reaches h hc
  | some e =>
    obtain ⟨qs, hqs, h⟩ := h
    exact ⟨qs, hqs, h.of_reaches hc⟩

/-- Closing a region changes nothing about what failed inside. -/
theorem ascend (h : Spacing tokens n c.deeper o d ps) : Spacing tokens n c o d.ascend ps := by
  cases o with
  | none => exact Spaced.ascend h
  | some e =>
    obtain ⟨qs, hqs, h⟩ := h
    exact ⟨qs, hqs, h.ascend⟩

/-- Failures that are recovered from, and those of a rule behind them, are spaced together. -/
theorem append {b : Nat} (h : Spaced tokens b c d ps) (k : Spacing tokens n d o e qs)
    (hend : d.isAtEnd = false) (hc : c.Reaches d) (hd : d.Reaches e) (he : e.On tokens) :
    Spacing tokens n c o e (ps ++ qs) := by
  cases o with
  | none => exact h.append k hend hc hd he
  | some x =>
    obtain ⟨ps', rfl, k⟩ := k
    exact ⟨ps ++ ps', (List.append_assoc _ _ _).symm, h.append k hend hc hd he⟩

end Spacing

variable {α : Type} {tokens : List Token} {n : Nat} {c d m : Cursor}

/-- What fails while a rule is read. -/
def Spaces (tokens : List Token) (n : Nat) (r : Rule α) (c : Cursor) : Prop :=
  Spacing tokens n c (errorOf? (r c).value) (r c).cursor (failedAt (r c).trace)

/-- Looking at the next kind does not fail. -/
theorem spaces_kind_bind {f : Kind → Rule α} :
    Spaces tokens n (kind >>= f) c ↔ Spaces tokens n (f c.peek.kind) c := .rfl

/-- Taking the next token does not fail. -/
theorem spaces_take_bind {f : Token → Rule α} (h : Spaces tokens n (f c.peek) c.next) :
    Spaces tokens n (take >>= f) c := Spacing.of_reaches h c.reaches_next

/-- A rule that fails once at most recovers from nothing. -/
theorem spaces_of_once {r : Rule α} (hr : r.Obeys once) (hframe : r.Obeys frame) :
    Spaces tokens n r c := by
  have hc := hr c
  have hreach := hframe c
  rw [Spaces, show failedAt (r c).trace = _ from hc]
  cases (r c).value with
  | ok a => exact .nil hreach
  | error e => exact ⟨[], rfl, .nil hreach⟩

/-- A rule that fails once at most may be read before another one. -/
theorem spaces_bind {β : Type} {r : Rule β} {f : β → Rule α} (hr : r.Obeys once)
    (hframe : r.Obeys frame) (hf : ∀ b m, r.Yields c b m → Spaces tokens n (f b) m) :
    Spaces tokens n (r >>= f) c := by
  have hc : failedAt (r c).trace = _ := hr c
  have hreach : c.Reaches (r c).cursor := hframe c
  cases hv : (r c).value with
  | error e =>
    rw [hv] at hc
    rw [Spaces, bind_of_error hv, hc]
    exact ⟨[], rfl, .nil hreach⟩
  | ok b =>
    rw [hv] at hc
    rw [Spaces, bind_of_ok hv]
    show Spacing tokens n c _ _ (failedAt ((r c).trace ++ _))
    rw [failedAt_append, hc]
    exact Spacing.of_reaches (hf b _ ⟨hv, rfl⟩) hreach

/-- A value may be built from the one that is read. -/
theorem spaces_bind_pure {β : Type} {r : Rule α} {f : α → β} (h : Spaces tokens n r c) :
    Spaces tokens n (r >>= fun a => pure (f a)) c := by
  rw [Spaces] at h ⊢
  cases hv : (r c).value with
  | error e =>
    rw [bind_of_error hv]
    rwa [hv] at h
  | ok a =>
    rw [bind_of_ok hv]
    rw [hv] at h
    show Spaced tokens (n + 1) c _ (failedAt ((r c).trace ++ []))
    rwa [List.append_nil]

/-- A rule in a region fails where it fails inside. -/
theorem spaces_nested {r : Rule α} {k : Nat} (hc : c.Allows (k + 1))
    (h : Spaces tokens n r c.deeper) :
    Spaces tokens n (nested r) c := by
  have hadd := hc.depth_add
  rw [Spaces, nested_of_allows (by omega)]
  exact Spacing.ascend h

/-- Where no region can be opened the one failure is the refusal. -/
theorem spaces_nested_zero {r : Rule α} (hc : c.Allows 0) : Spaces tokens 0 (nested r) c := by
  have hadd := hc.depth_add
  rw [Spaces, nested_of_refuses (by omega)]
  exact ⟨[], rfl, .nil (.refl c)⟩

/-! ### Statements -/

section

variable (hs : ∀ k, n = k + 1 → ∀ c, c.Allows k → c.On tokens →
  Spaces tokens k (Region.upTo n).statement c)
include hs

/-- The failures of a statement in a region are those of the statement inside. -/
theorem region_spaces (hc : c.Allows n) (ho : c.On tokens) :
    Spaces tokens n (nested (Region.upTo n).statement) c := by
  cases n with
  | zero => exact spaces_nested_zero hc
  | succ k => exact Spacing.mono (spaces_nested hc (hs k rfl _ hc.deeper ho)) (Nat.le_succ k)

/-- A loop fails in its condition, once, or else where its body does. -/
theorem whileStatement_spaces (hc : c.Allows n) (ho : c.On tokens) :
    Spaces tokens n (whileStatement (.upTo n)) c := by
  have hframe := obeys_condition frame_composes (expression_obeys frame_composes n)
  rw [whileStatement_eq]
  refine spaces_bind (obeys_condition once_composes (expression_once n) _ _) (hframe _ _) ?_
  intro value m hm
  have hreach := hm.reaches (hframe _ _)
  exact spaces_bind_pure (region_spaces hs (hc.of_reaches hreach) (ho.of_reaches hreach))

/-- A `for` loop fails in its clauses, once, or else where its body does. -/
theorem forStatement_spaces (keyword : Token) (hc : c.Allows n) (ho : c.On tokens) :
    Spaces tokens n (forStatement (.upTo n) keyword) c := by
  have hframe := obeys_clauses frame_composes (expression_obeys frame_composes n)
  rw [forStatement_eq]
  refine spaces_bind (obeys_clauses once_composes (expression_once n)) hframe ?_
  intro head m hm
  have hreach := hm.reaches hframe
  exact spaces_bind_pure (region_spaces hs (hc.of_reaches hreach) (ho.of_reaches hreach))

/-- Behind the first branch of an `if` there is another one only before the end. -/
theorem elseBranch_spaces (hc : c.Allows n) (ho : c.On tokens) {i : Cursor} (hi : i.Reaches c)
    {ps : List Nat} (hyes : Spaced tokens (n + 1) i c ps) (value : Expr) (yes : Stmt) :
    Spacing tokens n i (errorOf? (elseBranch (.upTo n) value yes c).value)
      (elseBranch (.upTo n) value yes c).cursor
      (ps ++ failedAt (elseBranch (.upTo n) value yes c).trace) := by
  rw [elseBranch, nextIs_bind]
  cases hcheck : c.check .elseWord with
  | false =>
    show Spaced tokens (n + 1) i c (ps ++ [])
    rwa [List.append_nil]
  | true =>
    have hend := (Cursor.check_eq_true_iff.1 hcheck).1
    have hnext := c.reaches_next
    have hno : Spaces tokens n (take >>= fun _ => nested (Region.upTo n).statement >>= fun no =>
        pure (Stmt.ifElse value yes no)) c :=
      spaces_take_bind (spaces_bind_pure
        (region_spaces hs (hc.of_reaches hnext) (ho.of_reaches hnext)))
    have hreach : c.Reaches _ := obeys_bind frame_composes (obeys_take frame_composes)
      (fun _ => obeys_bind frame_composes
        (obeys_nested frame_composes (Region.obeys_upTo frame_recovers n).statement)
        fun no => obeys_pure frame_composes (Stmt.ifElse value yes no)) c
    exact Spacing.append hyes hno hend hi hreach (ho.of_reaches hreach)

/-- A conditional fails in its condition, once, or else where its branches do: what the first
one recovers from is parted from the failures of the second. -/
theorem ifStatement_spaces (hc : c.Allows n) (ho : c.On tokens) :
    Spaces tokens n (ifStatement (.upTo n)) c := by
  have hframe := obeys_condition frame_composes (expression_obeys frame_composes n)
  have hnested : (nested (Region.upTo n).statement).Obeys frame :=
    obeys_nested frame_composes (Region.obeys_upTo frame_recovers n).statement
  rw [ifStatement_eq]
  refine spaces_bind (obeys_condition once_composes (expression_once n) _ _) (hframe _ _) ?_
  intro value m hm
  have hreach := hm.reaches (hframe _ _)
  have hyes := region_spaces hs (hc.of_reaches hreach) (ho.of_reaches hreach)
  rw [Spaces] at hyes ⊢
  cases hv : (nested (Region.upTo n).statement m).value with
  | error e =>
    rw [bind_of_error hv]
    rwa [hv] at hyes
  | ok yes =>
    have hi := hnested m
    rw [hv] at hyes
    rw [bind_of_ok hv]
    show Spacing tokens n m _ _ (failedAt (_ ++ _))
    rw [failedAt_append]
    exact elseBranch_spaces hs (hc.of_reaches (hreach.trans hi)) (ho.of_reaches (hreach.trans hi))
      hi hyes value yes

/-- The failures of any statement are spaced, if those of blocks are. -/
theorem statement_spaces_of (hb : ∀ k, n = k + 1 → ∀ c, c.Allows k → c.On tokens →
      Spaces tokens (k + 1) (Region.upTo n).block c)
    (hc : c.Allows n) (ho : c.On tokens) : Spaces tokens n (statement (.upTo n)) c := by
  have hnext := hc.of_reaches c.reaches_next
  have hon := ho.of_reaches c.reaches_next
  have hx := expression_once n
  have hframe := expression_obeys frame_composes n
  refine spaces_kind_bind.2 ?_
  split
  · exact spaces_take_bind (spaces_of_once (obeys_printStatement once_composes hx)
      (obeys_printStatement frame_composes hframe))
  · refine spaces_take_bind ?_
    cases n with
    | zero => exact spaces_nested_zero hnext
    | succ k => exact spaces_nested hnext (hb k rfl _ hnext.deeper hon)
  · exact spaces_take_bind (ifStatement_spaces hs hnext hon)
  · exact spaces_take_bind (forStatement_spaces hs _ hnext hon)
  · exact spaces_take_bind (whileStatement_spaces hs hnext hon)
  · exact spaces_of_once (obeys_expressionStatement once_composes hx)
      (obeys_expressionStatement frame_composes hframe)

end

/-! ### Declarations -/

/-- The failures of a declaration before it is recovered are spaced, if those of statements are. -/
theorem item_spaces (hs : Spaces tokens n (statement (.upTo n)) c) :
    Spaces tokens n (item (.upTo n)) c := by
  refine spaces_kind_bind.2 ?_
  split
  · exact spaces_take_bind (spaces_of_once
      (obeys_bindingStatement once_composes (expression_once n) _)
      (obeys_bindingStatement frame_composes (expression_obeys frame_composes n) _))
  · exact hs

/-- A declaration recovers from the failure that it ends with. -/
theorem declaration_spaced (ho : c.On tokens) (h : Spaces tokens n (item (.upTo n)) c) :
    Spaced tokens (n + 1) c (declaration (.upTo n) c).cursor
      (failedAt (declaration (.upTo n) c).trace) := by
  rw [Spaces] at h
  rw [declaration_eq]
  cases hv : (item (.upTo n) c).value with
  | ok s =>
    rw [hv] at h
    rw [recover_of_ok hv]
    exact h
  | error e =>
    rw [hv] at h
    obtain ⟨ps, hps, h⟩ := h
    have hreach : c.Reaches (item (.upTo n) c).cursor := item_obeys frame_recovers n c
    rw [recover_of_error hv]
    show Spaced tokens (n + 1) c _ (failedAt ((item (.upTo n) c).trace ++ _))
    rw [failedAt_append, hps]
    show Spaced tokens (n + 1) c _ (ps ++ [_] ++ [])
    rw [List.append_nil]
    exact h.resume hreach (ho.of_reaches hreach)

/-- The failures of declarations in a row are parted by the semicolons that panic mode passes,
but for as many as there are regions at the end of the tokens. -/
theorem declarations_spaced (hi : ∀ c, c.Allows n → c.On tokens →
      Spaced tokens (n + 1) c (declaration (.upTo n) c).cursor
        (failedAt (declaration (.upTo n) c).trace))
    (more : List Token) (hc : c.Allows n) (ho : c.On tokens) :
    Spaced tokens (n + 1) c (declarations (declaration (.upTo n)) more c).cursor
      (failedAt (declarations (declaration (.upTo n)) more c).trace) := by
  induction more generalizing c with
  | nil => exact .nil (.refl c)
  | cons t more ih =>
    rw [declarations]
    split
    · exact .nil (.refl c)
    · have hitem := hi c hc ho
      have hreach := declaration_obeys frame_recovers n c
      have hrest := ih (hc.of_reaches hreach) (ho.of_reaches hreach)
      rw [failedAt_append]
      cases hend : (declaration (.upTo n) c).cursor.isAtEnd with
      | true =>
        -- no other declaration is read
        show Spaced tokens (n + 1) c (always (declarations _ more) _).cursor
          (_ ++ failedAt (always (declarations _ more) _).trace)
        rw [declarations_of_stops _ more (.inl hend)]
        show Spaced tokens (n + 1) c _ (_ ++ [])
        rwa [List.append_nil]
      | false =>
        have hreach' := obeys_declarations frame_composes (declaration_obeys frame_recovers n) more
          (declaration (.upTo n) c).cursor
        exact hitem.append hrest hend hreach hreach' (ho.of_reaches (hreach.trans hreach'))

/-- A block that is not closed fails once more, at the end. -/
theorem blockEnd_spacing {i : Cursor} {ps : List Nat} (h : Spaced tokens (n + 1) i c ps)
    (hi : i.Reaches c) (ho : c.On tokens)
    (hstop : c.isAtEnd = true ∨ c.check .rightBrace = true) (body : List Stmt) :
    Spacing tokens (n + 1) i (errorOf? (blockEnd body c).value) (blockEnd body c).cursor
      (ps ++ failedAt (blockEnd body c).trace) := by
  rw [blockEnd, nextIs_bind]
  cases hcheck : c.check .rightBrace with
  | true =>
    have hend := (Cursor.check_eq_true_iff.1 hcheck).1
    have hnext := c.reaches_next
    exact (h.append (.nil hnext) hend hi hnext (ho.of_reaches hnext) : Spaced tokens (n + 2) ..)
  | false =>
    have hend := hstop.resolve_right (by simp [hcheck])
    rw [if_neg Bool.false_ne_true, bind_of_ok (a := Complaint.openBlock.about c.peek) rfl]
    cases body.any Stmt.hasErrors with
    | true => exact h.atEnd hi ho hend
    | false => exact ⟨ps, rfl, h⟩

/-- The failures of a block are those of its declarations, and one more for a missing brace. -/
theorem block_spaces_of (hi : ∀ c, c.Allows n → c.On tokens →
      Spaced tokens (n + 1) c (declaration (.upTo n) c).cursor
        (failedAt (declaration (.upTo n) c).trace))
    (hc : c.Allows n) (ho : c.On tokens) : Spaces tokens (n + 1) (block (.upTo n)) c := by
  have hreach : c.Reaches (declarations (declaration (.upTo n)) c.rest c).cursor :=
    obeys_declarations frame_composes (declaration_obeys frame_recovers n) c.rest c
  have hbody := declarations_spaced hi c.rest hc ho
  have hstop := declarations_stop n hc.marker_kind (Nat.le_refl c.rest.length)
  rw [Spaces, block_eq,
    bind_of_ok (a := (declarations (declaration (.upTo n)) c.rest c).value) rfl]
  show Spacing tokens (n + 1) c _ _ (failedAt ((declarations _ c.rest c).trace ++ _))
  rw [failedAt_append]
  exact blockEnd_spacing hbody hreach (ho.of_reaches hreach) hstop _

/-- **How the failures of a statement are spaced.** -/
theorem statement_spaces (tokens : List Token) (n : Nat) :
    (∀ c, c.Allows n → c.On tokens → Spaces tokens n (statement (.upTo n)) c) ∧
      ∀ c, c.Allows n → c.On tokens → Spaces tokens (n + 1) (block (.upTo n)) c := by
  have hblock {n : Nat}
      (hs : ∀ c, c.Allows n → c.On tokens → Spaces tokens n (statement (.upTo n)) c)
      (c : Cursor) (hc : c.Allows n) (ho : c.On tokens) := block_spaces_of
    (fun i hi hon => declaration_spaced hon (item_spaces (hs i hi hon))) hc ho
  induction n with
  | zero =>
    have hs (c : Cursor) (hc : c.Allows 0) (ho : c.On tokens) :
        Spaces tokens 0 (statement (.upTo 0)) c :=
      statement_spaces_of (fun k hk => nomatch hk) (fun k hk => nomatch hk) hc ho
    exact ⟨hs, hblock hs⟩
  | succ n ih =>
    have hs (c : Cursor) (hc : c.Allows (n + 1)) (ho : c.On tokens) :
        Spaces tokens (n + 1) (statement (.upTo (n + 1))) c :=
      statement_spaces_of (fun k hk => Nat.succ.inj hk ▸ ih.1)
        (fun k hk => Nat.succ.inj hk ▸ ih.2) hc ho
    exact ⟨hs, hblock hs⟩

end Rule
end LoxFront
