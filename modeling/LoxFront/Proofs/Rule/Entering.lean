/-
# Where declarations are entered

Each declaration is entered behind the place where the one before it was, whether it
stands behind that one or in it (`Rule.entering_loops`): the rule for a declaration
takes a token before it comes to a declaration in it (`Rule.item_entersBehind`), and
the loops go on where a declaration stopped, which has taken a token at least.
-/

import LoxFront.Proofs.Rule.Progress

namespace LoxFront

/-- The position of a declaration that an event tells of. -/
def Event.entered? : Event → Option Nat
  | entered position => some position
  | _ => none

/-- The positions where declarations are entered. -/
def enteredAt (trace : List Event) : List Nat := trace.filterMap Event.entered?

/-- The declarations entered in two parts are those of the one and then of the other. -/
theorem enteredAt_append (t u : List Event) :
    enteredAt (t ++ u) = enteredAt t ++ enteredAt u := List.filterMap_append

/-- The places increase, from `a` on and before `b`. -/
structure Increasing (a b : Nat) (places : List Nat) : Prop where
  pairwise : places.Pairwise (· < ·)
  within : ∀ p ∈ places, a ≤ p ∧ p < b

/-- No places increase between any two. -/
theorem Increasing.nil (a b : Nat) : Increasing a b [] := ⟨.nil, List.forall_mem_nil _⟩

/-- Places that increase up to a place and from it on increase. -/
theorem Increasing.append {a b d : Nat} {ps qs : List Nat} (h : Increasing a b ps)
    (k : Increasing b d qs) (hab : a ≤ b) (hbd : b ≤ d) : Increasing a d (ps ++ qs) where
  pairwise := List.pairwise_append.2 ⟨h.pairwise, k.pairwise, fun p hp q hq =>
    Nat.lt_of_lt_of_le (h.within p hp).2 (k.within q hq).1⟩
  within := List.forall_mem_append.2
    ⟨fun p hp => ⟨(h.within p hp).1, Nat.lt_of_lt_of_le (h.within p hp).2 hbd⟩,
      fun q hq => ⟨Nat.le_trans hab (k.within q hq).1, (k.within q hq).2⟩⟩

namespace Rule

variable {n : Nat} {c d : Cursor}

/-- No declaration is entered. -/
def entersNone : Law := fun _ _ _ t => enteredAt t = []

/-- The law is kept by single steps and put together by binds and regions. -/
theorem entersNone_composes : Law.Composes entersNone where
  stay _ := rfl
  step _ := rfl
  returned _ := rfl
  failed _ _ := rfl
  trans := by
    intro c d e o t u ht hu
    rw [entersNone, enteredAt_append, ht, hu]
    rfl
  region _ h := h

/-- The places where declarations are entered increase. -/
def entering : Law := fun c _ d t =>
  c.marker.kind = .eof → c.Reaches d ∧ Increasing c.position d.position (enteredAt t)

/-- The law is kept by single steps and put together by binds and regions. -/
theorem entering_composes : Law.Composes entering where
  stay c _ := ⟨.refl c, .nil _ _⟩
  step c _ := ⟨c.reaches_next, .nil _ _⟩
  returned c _ := ⟨c.reaches_next, .nil _ _⟩
  failed c _ _ := ⟨.refl c, .nil _ _⟩
  trans := by
    intro c d e o t u ht hu hm
    obtain ⟨hcd, ht⟩ := ht hm
    obtain ⟨hde, hu⟩ := hu (hcd.marker ▸ hm)
    rw [enteredAt_append]
    exact ⟨hcd.trans hde, ht.append hu hcd.position_le hde.position_le⟩
  region _ h hm := ⟨(h hm).1.ascend, (h hm).2⟩

/-- From a cursor on declarations are entered further on only. -/
def EntersBehind (r : Rule Stmt) (c : Cursor) : Prop :=
  ∀ p ∈ enteredAt (r c).trace, c.position < p

/-- Looking at the next kind enters nothing. -/
theorem entersBehind_kind_bind {f : Kind → Rule Stmt} :
    EntersBehind (kind >>= f) c ↔ EntersBehind (f c.peek.kind) c := .rfl

/-- Behind a token that is taken declarations are entered further on. -/
theorem entersBehind_take_bind {f : Token → Rule Stmt} (hf : ∀ t, (f t).Obeys entering)
    (hm : c.marker.kind = .eof) (hk : c.peek.kind ≠ .eof) : EntersBehind (take >>= f) c := by
  intro p hp
  obtain ⟨-, hincreasing⟩ := hf c.peek c.next (c.reaches_next.marker ▸ hm)
  exact Nat.lt_of_lt_of_le (Cursor.position_lt_next (Cursor.isAtEnd_eq_false hm hk))
    (hincreasing.within p hp).1

/-- A rule that enters no declaration enters none at its cursor. -/
theorem entersBehind_of_none {r : Rule Stmt} (hr : r.Obeys entersNone) : EntersBehind r c := by
  have hnone : enteredAt (r c).trace = [] := hr c
  rw [EntersBehind, hnone]
  exact List.forall_mem_nil _

/-- In a declaration others are entered further on only. -/
theorem item_entersBehind (h : (Region.upTo n).Obeys entering) (hm : c.marker.kind = .eof) :
    EntersBehind (item (.upTo n)) c := by
  have hL := entering_composes
  have hx := expression_obeys hL n
  refine entersBehind_kind_bind.2 ?_
  split
  · next hb =>
    exact entersBehind_take_bind (fun _ => obeys_bindingStatement hL hx _) hm
      (ne_eof_of_binding? hb)
  · refine entersBehind_kind_bind.2 ?_
    split
    · next hk =>
      exact entersBehind_take_bind (fun _ => obeys_printStatement hL hx) hm (by rw [hk]; decide)
    · next hk =>
      exact entersBehind_take_bind (fun _ => obeys_nested hL h.block) hm (by rw [hk]; decide)
    · next hk =>
      exact entersBehind_take_bind (fun _ => obeys_ifStatement hL hx h.statement) hm
        (by rw [hk]; decide)
    · next hk =>
      exact entersBehind_take_bind (fun t => obeys_forStatement hL hx h.statement t) hm
        (by rw [hk]; decide)
    · next hk =>
      exact entersBehind_take_bind (fun _ => obeys_whileStatement hL hx h.statement) hm
        (by rw [hk]; decide)
    · exact entersBehind_of_none
        (obeys_expressionStatement entersNone_composes (expression_obeys entersNone_composes n))

/-- A declaration is entered at its cursor, and those in it behind that. -/
theorem declaration_increasing (h : (Region.upTo n).Obeys entering) (hm : c.marker.kind = .eof)
    (he : c.isAtEnd = false) :
    Increasing c.position (declaration (.upTo n) c).cursor.position
      (enteredAt (declaration (.upTo n) c).trace) := by
  have hL := entering_composes
  obtain ⟨hreach, hitem⟩ :=
    obeys_item hL (expression_obeys hL n) h.block h.statement c hm
  have hlt := declaration_advances n hm he
  have hbehind := item_entersBehind (c := c) h hm
  have hentered : enteredAt (declaration (.upTo n) c).trace =
        c.position :: enteredAt (item (.upTo n) c).trace ∧
      (item (.upTo n) c).cursor.position ≤ (declaration (.upTo n) c).cursor.position := by
    rw [declaration_eq]
    cases hv : (item (.upTo n) c).value with
    | ok s =>
      rw [recover_of_ok hv]
      exact ⟨rfl, Nat.le_refl _⟩
    | error e =>
      rw [recover_of_error hv]
      refine ⟨?_, (Cursor.reaches_resume _).position_le⟩
      show c.position :: enteredAt ((item (.upTo n) c).trace ++ _) = _
      rw [enteredAt_append]
      exact congrArg _ (List.append_nil _)
  rw [hentered.1]
  exact ⟨List.pairwise_cons.2 ⟨hbehind, hitem.pairwise⟩, List.forall_mem_cons.2
    ⟨⟨Nat.le_refl _, hlt⟩, fun p hp => ⟨Nat.le_of_lt (hbehind p hp),
      Nat.lt_of_lt_of_le (hitem.within p hp).2 hentered.2⟩⟩⟩

/-- Declarations in a row are entered one behind the other. -/
theorem declarations_increasing (h : (Region.upTo n).Obeys entering) (more : List Token)
    (hm : c.marker.kind = .eof) :
    Increasing c.position (declarations (declaration (.upTo n)) more c).cursor.position
      (enteredAt (declarations (declaration (.upTo n)) more c).trace) := by
  have hreach := declaration_obeys frame_recovers n
  induction more generalizing c with
  | nil => exact .nil _ _
  | cons t more ih =>
    rw [declarations]
    split
    · exact .nil _ _
    · next hstop =>
      have he : c.isAtEnd = false := (Bool.or_eq_false_iff.1 (Bool.not_eq_true _ ▸ hstop)).1
      have hrest := ih (c := (declaration (.upTo n) c).cursor) ((hreach c).marker ▸ hm)
      rw [enteredAt_append]
      exact (declaration_increasing h hm he).append hrest (hreach c).position_le
        (Cursor.Reaches.position_le (obeys_declarations frame_composes hreach more _))

/-- **Declarations are entered further and further on.** -/
theorem entering_loops : Law.Loops entering where
  toComposes := entering_composes
  unclosed c _ := ⟨.refl c, .nil _ _⟩
  body {n} h c hm :=
    ⟨obeys_declarations frame_composes (declaration_obeys frame_recovers n) c.rest c,
      declarations_increasing h c.rest hm⟩

end Rule
end LoxFront
