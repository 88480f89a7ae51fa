/-
# Expressions that break off

Where a rule for expressions fails first, but for a region too many, what was
passed before begins an expression of the grammar (`Rule.expression_breaks`): the
parts that were read are kept, and the rest is filled in.
-/

import LoxFront.Proofs.Rule.Fails
import LoxFront.Proofs.Source.ExprSound

namespace LoxFront

/-- The tokens from the cursor up to the failure begin the text. -/
def Cursor.Begins (c : Cursor) (x : FailurePoint) (text : List Token) : Prop :=
  ∃ p m, c.Passes p m ∧ m.position = x.position ∧ p <+: text

namespace Cursor

variable {c m : Cursor} {x : FailurePoint} {p text : List Token}

/-- Any text can begin at the place of the error itself. -/
theorem begins_here (h : x.position = c.position) (text : List Token) : c.Begins x text :=
  ⟨[], c, .refl c, h.symm, List.nil_prefix⟩

/-- What begins behind tokens begins with these tokens. -/
theorem Begins.after (h : m.Begins x text) (hp : c.Passes p m) : c.Begins x (p ++ text) := by
  obtain ⟨q, d, hq, hd, hbegins⟩ := h
  exact ⟨p ++ q, d, hp.trans hq, hd, (List.prefix_append_right_inj p).2 hbegins⟩

/-- What begins stays begun when more is put behind it. -/
theorem Begins.append (h : c.Begins x text) (more : List Token) : c.Begins x (text ++ more) := by
  obtain ⟨q, d, hq, hd, hbegins⟩ := h
  exact ⟨q, d, hq, hd, hbegins.trans (List.prefix_append text more)⟩

/-- What begins inside a region begins around it. -/
theorem Begins.ascend (h : c.deeper.Begins x text) : c.Begins x text := by
  obtain ⟨q, d, hq, hd, hbegins⟩ := h
  exact ⟨q, d.ascend, hq.ascend, hd, hbegins⟩

end Cursor

namespace Source

instance {k : Kind} : Inhabited (Mark k) := ⟨⟨⟨k, "", 0, .none⟩, rfl⟩⟩

instance : Inhabited Expr := ⟨.atom ⟨⟨.nilWord, "nil", 0, .none⟩, by decide⟩⟩

/-- There is an expression for every level. -/
theorem Expr.fits_default (k : Nat) : (default : Expr).Fits k := trivial

end Source

namespace Rule

variable {α : Type} {n : Nat} {c : Cursor} {x : FailurePoint}

/-- What was passed where the rule fails first begins an expression that may stand
where operators of rank `k` may. -/
def BreaksExpr (k n : Nat) (r : Rule Expr) : Prop :=
  ∀ ⦃c : Cursor⦄ ⦃x : FailurePoint⦄, c.Allows n → r.FailsFirst c x → x.complaint ≠ .tooDeep →
    ∃ s : Source.Expr, s.Fits k ∧ c.Begins x s.tokens

/-- A rule that fails in a region of its own fails in the region. -/
theorem FailsFirst.of_nested {r : Rule α} (hc : c.Allows n) (h : (nested r).FailsFirst c x)
    (hx : x.complaint ≠ .tooDeep) :
    ∃ m, n = m + 1 ∧ c.deeper.Allows m ∧ r.FailsFirst c.deeper x := by
  have hadd := hc.depth_add
  rcases failsFirst_nested.1 h with ⟨-, rfl⟩ | ⟨hlt, h⟩
  · exact absurd rfl hx
  · obtain ⟨m, rfl⟩ : ∃ m, n = m + 1 := ⟨n - 1, by omega⟩
    exact ⟨m, rfl, hc.deeper, h⟩

/-- A rule in a region that fails first, and not at the limit, fails in the rule: an expression
begins where it failed. -/
theorem BreaksExpr.of_nested {k : Nat} {r : Rule Expr} (hr : ∀ m, n = m + 1 → BreaksExpr k m r)
    (hc : c.Allows n) (h : (nested r).FailsFirst c x) (hx : x.complaint ≠ .tooDeep) :
    ∃ s : Source.Expr, s.Fits k ∧ c.Begins x s.tokens := by
  obtain ⟨m, rfl, hm, h⟩ := h.of_nested hc hx
  obtain ⟨s, hs, hbegins⟩ := hr m rfl hm h hx
  exact ⟨s, hs, hbegins.ascend⟩

/-- A token of a matched kind is passed before the failure. -/
theorem failsFirst_take_bind_passes {f : Token → Rule α} (hc : c.Allows n)
    (hk : c.peek.kind ≠ .eof) (h : (take >>= f).FailsFirst c x) :
    c.Passes [c.peek] c.next ∧ (f c.peek).FailsFirst c.next x :=
  ⟨Cursor.passes_next (Cursor.isAtEnd_eq_false hc.marker_kind hk), h⟩

/-- An expected token is missing at the failure, or it is passed before. -/
theorem failsFirst_expect_bind {k : Kind} {y : Complaint} {f : Token → Rule α}
    (h : (expect k y >>= f).FailsFirst c x) :
    x.position = c.position ∨
      ∃ (t : Source.Mark k) (m : Cursor), c.Passes [t.1] m ∧ (f t.1).FailsFirst m x := by
  rcases failsFirst_bind.1 h with h | ⟨t, m, ht, h⟩
  · exact .inl (by rw [(failsFirst_expect.1 h).2])
  · obtain ⟨hk, hp⟩ := reads_expect.1 ht
    exact .inr ⟨⟨t, hk⟩, m, hp, h⟩

/-- The rule for expressions in a region reads what is written there. -/
theorem region_expression_sound (n : Nat) :
    ∀ m, n = m + 1 → ReadsExpr 0 m (Region.upTo n).expression := by
  rintro m rfl
  exact (expression_sound m).1

section

variable (hx : ∀ m, n = m + 1 → BreaksExpr 0 m (Region.upTo n).expression)
include hx

/-- Where a primary expression fails first, an expression of this level begins up to the error. -/
theorem primary_breaks : BreaksExpr 7 n (primary (.upTo n)) := by
  intro c x hc h hne
  rw [primary, failsFirst_kind_bind] at h
  split at h
  · next hk =>
    obtain ⟨hl, h⟩ := failsFirst_take_bind_passes hc (by rw [hk]; decide) h
    have hnext := hc.of_passes hl
    rcases failsFirst_bind.1 h with h | ⟨v, m, hv, h⟩
    · obtain ⟨s, hf, hbegins⟩ := BreaksExpr.of_nested hx hnext h hne
      exact ⟨.grouping ⟨c.peek, hk⟩ s default, hf, (hbegins.append _).after hl⟩
    · obtain ⟨s, hf, rfl, hp, -⟩ := ReadsExpr.of_nested (region_expression_sound n) hnext hv.1
      rcases failsFirst_expect_bind h with hpos | ⟨r, i, -, h⟩
      · exact ⟨.grouping ⟨c.peek, hk⟩ s default, hf,
          ((Cursor.begins_here hpos _).after hp).after hl⟩
      · exact absurd h not_failsFirst_pure
  · exact absurd h.symm (Option.some_ne_none x)
  · split at h
    · exact absurd (failsFirst_take_bind.1 h) not_failsFirst_pure
    · rw [failsFirst_fail] at h
      exact ⟨default, Source.Expr.fits_default 7, Cursor.begins_here (by rw [h]) _⟩

/-- Where a prefix expression fails first, an expression of this level begins up to the error. -/
theorem unary_breaks (hu : ∀ m, n = m + 1 → BreaksExpr 7 m (Region.upTo n).unary) :
    BreaksExpr 7 n (unary (.upTo n)) := by
  intro c x hc h hne
  rcases failsFirst_bind.1 h with h | ⟨o, m, ho, hrest⟩
  · exact absurd h not_failsFirst_takeIf?
  rcases yields_takeIf?.1 ho.1 with ⟨op, rfl, hop, hp⟩ | ⟨rfl, rfl, -⟩
  · rcases failsFirst_bind.1 hrest with h | ⟨v, i, -, h⟩
    · obtain ⟨s, hf, hbegins⟩ := BreaksExpr.of_nested hu (hc.of_passes hp) h hne
      exact ⟨.unary ⟨op, prefixes_of_isPrefixOp hop⟩ s, hf, hbegins.after hp⟩
    · exact absurd h not_failsFirst_pure
  · exact primary_breaks hx hc hrest hne

end

/-- Behind an operand of a rank, a chain that fails begins an expression of the rank. -/
theorem links_breaks {k : Nat} {p : Kind → Bool} (hk : 0 < k)
    (hp : ∀ x, p x = true → x.rank = k) {operand : Rule Expr} (ho : ReadsExpr (k + 1) n operand)
    (hb : BreaksExpr (k + 1) n operand) {more : List Token} (hc : c.Allows n) {l : Source.Expr}
    (hl : l.Fits k) {m : Cursor} (hm : c.Passes l.tokens m)
    (h : (links p operand more l.tree).FailsFirst m x) (hne : x.complaint ≠ .tooDeep) :
    ∃ s : Source.Expr, s.Fits k ∧ c.Begins x s.tokens := by
  induction more generalizing l m with
  | nil => exact absurd h not_failsFirst_pure
  | cons t more ih =>
    rw [links] at h
    rcases failsFirst_bind.1 h with h | ⟨o, i, ho', hrest⟩
    · exact absurd h not_failsFirst_takeIf?
    rcases yields_takeIf?.1 ho'.1 with ⟨op, rfl, hop, ht⟩ | ⟨rfl, rfl, -⟩
    · have hrank : op.kind.rank = k := hp _ hop
      have hop1 : 1 ≤ op.kind.rank := by omega
      have hfits {r : Source.Expr} (hr : r.Fits (k + 1)) : (l.binary ⟨op, hop1⟩ r).Fits k := by
        rw [← hrank] at hl hr ⊢
        exact ⟨Nat.le_refl _, hl, hr⟩
      have hi := hm.trans ht
      rcases failsFirst_bind.1 hrest with h | ⟨v, j, hv, h⟩
      · obtain ⟨r, hr, hbegins⟩ := hb (hc.of_passes hi) h hne
        refine ⟨l.binary ⟨op, hop1⟩ r, hfits hr, ?_⟩
        simpa [Source.Expr.tokens] using hbegins.after hi
      · obtain ⟨r, hr, rfl, hpr, -⟩ := ho (hc.of_passes hi) hv.1
        exact ih (l := l.binary ⟨op, hop1⟩ r) (hfits hr) (hm.trans (ht.trans hpr)) h
    · exact absurd hrest not_failsFirst_pure

/-- Where a chain of operands fails first, an expression of its level begins up to the error,
if that is so for its operands. -/
theorem chain_breaks {k : Nat} {p : Kind → Bool} (hk : 0 < k)
    (hp : ∀ x, p x = true → x.rank = k) {operand : Rule Expr}
    (h : ReadsExpr (k + 1) n operand ∧ BreaksExpr (k + 1) n operand) :
    ReadsExpr k n (chain p operand) ∧ BreaksExpr k n (chain p operand) := by
  refine ⟨chain_sound hk hp h.1, fun c x hc hx hne => ?_⟩
  rcases failsFirst_bind.1 hx with hx | ⟨left, m, hl, hx⟩
  · obtain ⟨s, hf, hbegins⟩ := h.2 hc hx hne
    exact ⟨s, hf.mono (Nat.le_succ k), hbegins⟩
  · obtain ⟨l, hlf, rfl, hlp, -⟩ := h.1 hc hl.1
    exact links_breaks hk hp h.1 h.2 hc (hlf.mono (Nat.le_succ k)) hlp hx hne

/-- The same for all levels of operators, one on top of the other. -/
theorem disjunction_breaks
    (hu : ReadsExpr 7 n (unary (.upTo n)) ∧ BreaksExpr 7 n (unary (.upTo n))) :
    ReadsExpr 1 n (disjunction (.upTo n)) ∧ BreaksExpr 1 n (disjunction (.upTo n)) := by
  refine chain_breaks (by decide) (fun x hx => ?_) <| chain_breaks (by decide) (fun x hx => ?_) <|
    chain_breaks (by decide) (fun x hx => ?_) <| chain_breaks (by decide) (fun x hx => ?_) <|
    chain_breaks (by decide) (fun x hx => ?_) <| chain_breaks (by decide) (fun x hx => ?_) hu
  all_goals cases x <;> first | rfl | exact absurd hx (by decide)

/-- Where an assignment fails first, an expression begins up to the error. -/
theorem assignment_breaks (hx : ∀ m, n = m + 1 → BreaksExpr 0 m (Region.upTo n).expression)
    (hd : ReadsExpr 1 n (disjunction (.upTo n)) ∧ BreaksExpr 1 n (disjunction (.upTo n))) :
    BreaksExpr 0 n (assignment (.upTo n)) := by
  intro c x hc h hne
  rcases failsFirst_bind.1 h with h | ⟨target, m, ht, h⟩
  · obtain ⟨s, hf, hbegins⟩ := hd.2 hc h hne
    exact ⟨s, hf.mono (Nat.zero_le 1), hbegins⟩
  obtain ⟨s, hs, rfl, hp, -⟩ := hd.1 hc ht.1
  rw [failsFirst_nextIs_bind] at h
  cases hk : m.check .equal with
  | false =>
    rw [hk] at h
    exact absurd h not_failsFirst_pure
  | true =>
    obtain ⟨hend, hkind⟩ := Cursor.check_eq_true_iff.1 hk
    rw [hk, if_pos rfl] at h
    split at h
    · next name hid =>
      have hm := hc.of_passes hp
      obtain ⟨hequal, h⟩ := failsFirst_take_bind_passes hm (by rw [hkind]; decide) h
      obtain ⟨t, rfl, rfl, hname⟩ := Source.Expr.eq_atom_of_identifier? hid
      rcases failsFirst_bind.1 h with h | ⟨v, i, -, h⟩
      · obtain ⟨value, hf, hbegins⟩ := BreaksExpr.of_nested hx (hm.of_passes hequal) h hne
        exact ⟨.assign ⟨t.1, hname⟩ ⟨m.peek, hkind⟩ value, ⟨rfl, hf⟩,
          (hbegins.after hequal).after hp⟩
      · exact absurd h not_failsFirst_pure
    · -- the target is no bare variable, and no equals sign goes on with it
      have hpos : x.position = m.position := by rw [failsFirst_fail.1 h]
      have hbegins := (Cursor.begins_here hpos []).after hp
      rw [List.append_nil] at hbegins
      exact ⟨s, hs.mono (Nat.zero_le 1), hbegins⟩

/-- **Where an expression fails, it is begun.** -/
theorem expression_breaks (n : Nat) :
    BreaksExpr 0 n (expression (.upTo n)) ∧ BreaksExpr 7 n (unary (.upTo n)) := by
  induction n with
  | zero =>
    have hu := unary_breaks (n := 0) (fun m hm => nomatch hm) (fun m hm => nomatch hm)
    have hd := disjunction_breaks ⟨(expression_sound 0).2, hu⟩
    exact ⟨assignment_breaks (fun m hm => nomatch hm) hd, hu⟩
  | succ n ih =>
    have hx : ∀ m, n + 1 = m + 1 → BreaksExpr 0 m (Region.upTo (n + 1)).expression :=
      fun m hm => Nat.succ.inj hm ▸ ih.1
    have hu := unary_breaks hx fun m hm => Nat.succ.inj hm ▸ ih.2
    exact ⟨assignment_breaks hx (disjunction_breaks ⟨(expression_sound (n + 1)).2, hu⟩), hu⟩

end Rule
end LoxFront
