/-
# Where panic mode goes on

What a rule tells of is told in order, and a failure that panic mode follows is told
at the token where it begins (`Told`, `Rule.ordered_loops`).  So in the events of a
pass panic mode drops the tokens from the one of the error up to the first semicolon,
all that was told before stands before it, and all that is told later stands behind
what it dropped, beginning with the next declaration (`Told.resumes`).  The error of a
declaration is about the token where panic mode begins (`Rule.exists_panics`).
-/

import LoxFront.Proofs.Cursor.Semicolons
import LoxFront.Proofs.Rule.Gives
import LoxFront.Proofs.Rule.Progress

namespace LoxFront

/-- The position that an event tells of. -/
def Event.position? : Event → Option Nat
  | entered position | failed position _ _ | panicked position _ => some position
  | resumed _ | returned _ => none

/-- At this place every loop over declarations stops that stops at a closing brace. -/
def LoopStops (tokens : List Token) (p : Nat) : Prop :=
  ∃ t, tokens[p]? = some t ∧ (t.kind = .rightBrace ∨ t.kind = .eof)

/-- From the place `a` to the place `b` events are told of one place after another.
Panic mode follows a failure at the same place, drops the tokens up to a semicolon,
and goes on with a declaration unless a loop stops there. -/
inductive Told (tokens : List Token) : Nat → List Event → Nat → Prop where
  | done {a b : Nat} : a ≤ b → Told tokens a [] b
  | entered {a p b : Nat} {t : List Event} : a ≤ p → Told tokens p t b →
      Told tokens a (.entered p :: t) b
  | failed {a p b : Nat} {k : Complaint} {token : Token} {t : List Event} : a ≤ p →
      Told tokens p t b → Told tokens a (.failed p k token :: t) b
  | returned {a b line : Nat} {t : List Event} : Told tokens a t b →
      Told tokens a (.returned line :: t) b
  | panicked {a p q b : Nat} {k : Complaint} {token : Token} {t : List Event} : a ≤ p →
      tokens[p]? = some token → Drops tokens p q →
      t.head? = some (.entered q) ∨ LoopStops tokens q → Told tokens q t b →
        Told tokens a (.failed p k token :: .panicked p token.line :: .resumed (q - p) :: t) b

/-- In the events of a pass panic mode begins at `p`, behind some events and before
others, and drops `k` tokens. -/
structure Resumes (tokens : List Token) (before : List Event) (p k : Nat)
    (behind : List Event) : Prop where
  failed : ∃ complaint token, before.getLast? = some (.failed p complaint token) ∧
    tokens[p]? = some token
  drops : Drops tokens p (p + k)
  goesOn : behind.head? = some (.entered (p + k)) ∨ LoopStops tokens (p + k)
  before_le : ∀ e ∈ before, ∀ x ∈ e.position?, x ≤ p
  le_behind : ∀ e ∈ behind, ∀ x ∈ e.position?, p + k ≤ x

/-- An event of an earlier place may stand in front. -/
theorem Resumes.cons {tokens : List Token} {t u : List Event} {p k : Nat} {e : Event}
    (h : Resumes tokens t p k u) (he : ∀ x ∈ e.position?, x ≤ p) :
    Resumes tokens (e :: t) p k u := by
  refine ⟨?_, h.drops, h.goesOn, List.forall_mem_cons.2 ⟨he, h.before_le⟩, h.le_behind⟩
  obtain ⟨complaint, token, hlast, htoken⟩ := h.failed
  refine ⟨complaint, token, ?_, htoken⟩
  rw [List.getLast?_cons, hlast]
  rfl

namespace Told

variable {tokens : List Token} {a b d : Nat} {t u trace : List Event}

/-- What is told from a place on is told from every place before it. -/
theorem mono (h : Told tokens a t b) (hd : d ≤ a) : Told tokens d t b := by
  induction h with
  | done hle => exact .done (Nat.le_trans hd hle)
  | entered hle h => exact .entered (Nat.le_trans hd hle) h
  | failed hle h => exact .failed (Nat.le_trans hd hle) h
  | returned _ ih => exact .returned (ih hd)
  | panicked hle ht hdrops hnext h => exact .panicked (Nat.le_trans hd hle) ht hdrops hnext h

/-- What is told up to a place and from it on is told in this order. -/
theorem append (h : Told tokens a t b) (k : Told tokens b u d) : Told tokens a (t ++ u) d := by
  induction h with
  | done hle => exact k.mono hle
  | entered hle _ ih => exact .entered hle (ih k)
  | failed hle _ ih => exact .failed hle (ih k)
  | returned _ ih => exact .returned (ih k)
  | panicked hle ht hdrops hnext _ ih =>
    refine .panicked hle ht hdrops (hnext.imp_left fun hhead => ?_) (ih k)
    exact (List.head?_append ..).trans (by rw [hhead]; rfl)

/-- Nothing is told of a place before the first one. -/
theorem le_of_mem (h : Told tokens a trace b) : ∀ e ∈ trace, ∀ x ∈ e.position?, a ≤ x := by
  induction h with
  | done => exact List.forall_mem_nil _
  | entered hle _ ih | failed hle _ ih =>
    exact List.forall_mem_cons.2 ⟨fun x hx => Option.some.inj hx ▸ hle,
      fun e he x hx => Nat.le_trans hle (ih e he x hx)⟩
  | returned _ ih => exact List.forall_mem_cons.2 ⟨fun x hx => (nomatch hx), ih⟩
  | @panicked a p q _ _ _ _ hle _ hdrops _ _ ih =>
    have hp (x : Nat) (hx : x ∈ some p) : a ≤ x := Option.some.inj hx ▸ hle
    refine List.forall_mem_cons.2 ⟨hp, List.forall_mem_cons.2 ⟨hp, List.forall_mem_cons.2
      ⟨fun x hx => (nomatch hx), fun e he x hx => ?_⟩⟩⟩
    exact Nat.le_trans hle (Nat.le_trans hdrops.le (ih e he x hx))

/-- **Panic mode goes on behind what it drops**, and everything is told in order. -/
theorem resumes (h : Told tokens a trace b) {p l k : Nat}
    (htrace : trace = t ++ .panicked p l :: .resumed k :: u) : Resumes tokens t p k u := by
  -- what stands in front of panic mode is of an earlier place
  have hle {a b : Nat} {t : List Event}
      (h : Told tokens a (t ++ .panicked p l :: .resumed k :: u) b) : a ≤ p :=
    h.le_of_mem _ (List.mem_append_right _ (.head _)) p rfl
  induction h generalizing t with
  | done => exact absurd htrace.symm (by simp)
  | entered _ h ih | failed _ h ih =>
    cases t with
    | nil => exact nomatch htrace
    | cons x t =>
      obtain ⟨rfl, rfl⟩ := List.cons.inj htrace
      exact (ih rfl).cons fun x hx => Option.some.inj hx ▸ hle h
  | returned _ ih =>
    cases t with
    | nil => exact nomatch htrace
    | cons x t =>
      obtain ⟨rfl, rfl⟩ := List.cons.inj htrace
      exact (ih rfl).cons fun x hx => nomatch hx
  | @panicked a p' q b complaint token tail _ ht hdrops hnext h ih =>
    have hqp : p' + (q - p') = q := Nat.add_sub_cancel' hdrops.le
    match t with
    | [] => exact nomatch htrace
    | [x] =>
      -- this is the one
      obtain ⟨rfl, h₁⟩ := List.cons.inj htrace
      obtain ⟨hpanic, h₂⟩ := List.cons.inj h₁
      obtain ⟨hresumed, rfl⟩ := List.cons.inj h₂
      obtain ⟨rfl, rfl⟩ := Event.panicked.inj hpanic
      obtain rfl := Event.resumed.inj hresumed
      refine ⟨⟨complaint, token, rfl, ht⟩, by rwa [hqp], by rwa [hqp],
        List.forall_mem_singleton.2 fun x hx => Option.some.inj hx ▸ Nat.le_refl _, ?_⟩
      rw [hqp]
      exact h.le_of_mem
    | [x, y] =>
      obtain ⟨-, h₁⟩ := List.cons.inj htrace
      obtain ⟨-, h₂⟩ := List.cons.inj h₁
      exact nomatch h₂
    | x :: y :: z :: t =>
      obtain ⟨rfl, h₁⟩ := List.cons.inj htrace
      obtain ⟨rfl, h₂⟩ := List.cons.inj h₁
      obtain ⟨rfl, rfl⟩ := List.cons.inj h₂
      have hp (x : Nat) (hx : x ∈ some p') : x ≤ p :=
        Option.some.inj hx ▸ Nat.le_trans hdrops.le (hle h)
      exact .cons (.cons (.cons (ih rfl) fun x hx => nomatch hx) hp) hp

end Told

/-! ### What rules tell of -/

namespace Rule

variable {tokens : List Token} {n : Nat} {c d : Cursor}

/-- A rule tells of one place after another.  If it ends with an error, the last
thing it tells of is the failure with this error, at the token where it stops. -/
def ordered (tokens : List Token) : Law := fun c o d t =>
  c.On tokens → c.marker.kind = .eof → c.Reaches d ∧
    match o with
    | none => Told tokens c.position t d.position
    | some e => ∃ u k, t = u ++ [.failed d.position k d.peek] ∧ e = k.about d.peek ∧
        Told tokens c.position u d.position

/-- Telling in order is kept by single steps and put together by binds and regions. -/
theorem ordered_composes : Law.Composes (ordered tokens) where
  stay c _ _ := ⟨.refl c, .done (Nat.le_refl _)⟩
  step c _ _ := ⟨c.reaches_next, .done c.reaches_next.position_le⟩
  returned c _ _ := ⟨c.reaches_next, .returned (.done c.reaches_next.position_le)⟩
  failed c k _ _ := ⟨.refl c, [], k, rfl, rfl, .done (Nat.le_refl _)⟩
  trans := by
    intro c d e o t u ht hu ho hm
    obtain ⟨hcd, ht⟩ := ht ho hm
    obtain ⟨hde, hu⟩ := hu (ho.of_reaches hcd) (hcd.marker ▸ hm)
    refine ⟨hcd.trans hde, ?_⟩
    cases o with
    | none => exact Told.append ht hu
    | some x =>
      obtain ⟨v, k, rfl, hx, hv⟩ := hu
      exact ⟨t ++ v, k, (List.append_assoc ..).symm, hx, Told.append ht hv⟩
  region _ h ho hm := by
    obtain ⟨hreach, ht⟩ := h ho hm
    exact ⟨hreach.ascend, ht⟩

/-- The first thing that a declaration tells is that it is entered. -/
theorem head?_declaration (n : Nat) (c : Cursor) :
    (declaration (.upTo n) c).trace.head? = some (.entered c.position) := by
  rw [declaration_eq]
  cases hv : (item (.upTo n) c).value with
  | ok s => rw [recover_of_ok hv]; rfl
  | error e => rw [recover_of_error hv]; rfl

/-- A declaration tells of one place after another, if the loop around it goes on
where the declaration stops. -/
theorem declaration_told (hi : (item (.upTo n)).Obeys (ordered tokens)) (ho : c.On tokens)
    (hm : c.marker.kind = .eof) {rest : List Event} {b : Nat}
    (hnext : rest.head? = some (.entered (declaration (.upTo n) c).cursor.position) ∨
      LoopStops tokens (declaration (.upTo n) c).cursor.position)
    (hrest : Told tokens (declaration (.upTo n) c).cursor.position rest b) :
    Told tokens c.position ((declaration (.upTo n) c).trace ++ rest) b := by
  obtain ⟨hreach, ht⟩ := hi c ho hm
  rw [declaration_eq] at hnext hrest ⊢
  cases hv : (item (.upTo n) c).value with
  | ok s =>
    rw [hv] at ht
    rw [recover_of_ok hv] at hrest ⊢
    exact .entered (Nat.le_refl _) (Told.append ht hrest)
  | error e =>
    rw [hv] at ht
    obtain ⟨u, k, htrace, -, hu⟩ := ht
    rw [recover_of_error hv] at hnext hrest ⊢
    have hon := ho.of_reaches hreach
    have hdrops := hon.drops_resume (hreach.marker ▸ hm)
    have hpanic := Told.panicked (k := k) (Nat.le_refl _) hon.getElem?_position hdrops hnext hrest
    refine .entered (Nat.le_refl _) ?_
    show Told tokens c.position ((item (.upTo n) c).trace ++ [_, _] ++ rest) b
    rw [htrace, List.append_assoc, List.append_assoc]
    exact hu.append hpanic

/-- A loop over declarations begins with one unless it stops. -/
theorem declarations_told (hi : (item (.upTo n)).Obeys (ordered tokens)) {more : List Token}
    (hlen : c.rest.length ≤ more.length) (ho : c.On tokens) (hm : c.marker.kind = .eof) :
    Told tokens c.position (declarations (declaration (.upTo n)) more c).trace
        (declarations (declaration (.upTo n)) more c).cursor.position ∧
      ((declarations (declaration (.upTo n)) more c).trace.head? = some (.entered c.position) ∨
        LoopStops tokens c.position) := by
  induction more generalizing c with
  | nil =>
    have hend := Cursor.peek_eq_marker (Cursor.isAtEnd_of_length_le hlen)
    exact ⟨.done (Nat.le_refl _), .inr ⟨_, ho.getElem?_position, .inr (by rw [hend, hm])⟩⟩
  | cons t more ih =>
    rw [declarations]
    cases hstop : c.isAtEnd || c.check .rightBrace with
    | true =>
      refine ⟨.done (Nat.le_refl _), .inr ⟨_, ho.getElem?_position, ?_⟩⟩
      rcases Bool.or_eq_true_iff.1 hstop with hend | hbrace
      · exact .inr (by rw [Cursor.peek_eq_marker hend, hm])
      · exact .inl (Cursor.check_eq_true_iff.1 hbrace).2
    | false =>
      have he : c.isAtEnd = false := (Bool.or_eq_false_iff.1 hstop).1
      have hreach := declaration_obeys frame_recovers n c
      have hadd := hreach.position_add
      have hlt := declaration_advances n hm he
      rw [List.length_cons] at hlen
      obtain ⟨hrest, hnext⟩ := ih (by omega) (ho.of_reaches hreach) (hreach.marker ▸ hm)
      rw [if_neg Bool.false_ne_true]
      refine ⟨declaration_told hi ho hm hnext hrest, .inl ?_⟩
      exact (List.head?_append ..).trans (by rw [head?_declaration]; rfl)

/-- **All rules tell of one place after another.** -/
theorem ordered_loops : Law.Loops (ordered tokens) where
  toComposes := ordered_composes
  unclosed c _ _ := ⟨.refl c, .failed (Nat.le_refl _) (.done (Nat.le_refl _))⟩
  body {n} h c ho hm := by
    have hx := expression_obeys (L := ordered tokens) ordered_composes n
    have hi := obeys_item ordered_composes hx h.block h.statement
    exact ⟨obeys_declarations frame_composes (declaration_obeys frame_recovers n) c.rest c,
      (declarations_told hi (Nat.le_refl _) ho hm).1⟩

/-! ### Declarations that are errors -/

/-- A declaration that begins at `c` is the error `e`: panic mode began at the place
`p`, at the token of the error, and went on at the cursor `r`. -/
structure Panics (tokens : List Token) (n : Nat) (c : Cursor) (e : ParseError) (p : Nat)
    (r : Cursor) : Prop where
  token : tokens[p]? = some e.token
  told : ∃ complaint t, e = complaint.about e.token ∧
    (declaration (.upTo n) c).trace = .entered c.position :: (t ++ [.failed p complaint e.token,
      .panicked p e.token.line, .resumed (r.position - p)])
  begins : c.position ≤ p
  drops : Drops tokens p r.position
  cursor : (declaration (.upTo n) c).cursor = r
  reaches : c.Reaches r

/-- **An error is about the token where panic mode begins.** -/
theorem exists_panics {e : ParseError} (ho : c.On tokens) (hm : c.marker.kind = .eof)
    (hv : (declaration (.upTo n) c).value = .error e) : ∃ p r, Panics tokens n c e p r := by
  obtain ⟨hreach, ht⟩ := ordered_loops.item_obeys n c ho hm
  rw [declaration_eq] at hv
  cases hi : (item (.upTo n) c).value with
  | ok s =>
    rw [recover_of_ok hi] at hv
    obtain rfl : s = .error e := hv
    have hconfined : (Stmt.error e).Confined := item_gives n ⟨hi, rfl⟩
    exact nomatch hconfined.isError
  | error e' =>
    rw [recover_of_error hi] at hv
    rw [hi] at ht
    obtain ⟨u, k, htrace, he', hu⟩ := ht
    obtain rfl : e' = e := Stmt.error.inj hv
    have htoken : e'.token = (item (.upTo n) c).cursor.peek := congrArg ParseError.token he'
    have hon := ho.of_reaches hreach
    refine ⟨_, (item (.upTo n) c).cursor.resume, ?_, ⟨k, u, ?_, ?_⟩, hreach.position_le,
      hon.drops_resume (hreach.marker ▸ hm), ?_, hreach.trans (Cursor.reaches_resume _)⟩
    · rw [htoken]
      exact hon.getElem?_position
    · rw [htoken]
      exact he'
    · rw [declaration_eq, recover_of_error hi, htrace, htoken]
      simp
    · rw [declaration_eq, recover_of_error hi]

end Rule
end LoxFront
