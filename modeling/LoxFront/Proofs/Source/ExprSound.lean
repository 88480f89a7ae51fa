/-
# Expressions that are read are written

Whatever a rule for expressions reads between two cursors is an expression of
the grammar: its tokens are those between the cursors, its tree is the one that
the rule gives, and no more regions stand in one another than could be opened
(`Rule.expression_sound`).
-/

import LoxFront.Proofs.Rule.Yields
import LoxFront.Proofs.Source.Expr
import LoxFront.Rule.Stmt

namespace LoxFront
namespace Rule

variable {α : Type} {n : Nat}

/-- All that the rule reads are expressions that may stand where operators of
rank `k` may. -/
def ReadsExpr (k n : Nat) (r : Rule Expr) : Prop :=
  ∀ ⦃c d : Cursor⦄ ⦃e : Expr⦄, c.Allows n → r.Yields c e d →
    ∃ s : Source.Expr, s.Fits k ∧ s.tree = e ∧ c.Passes s.tokens d ∧ s.nesting ≤ n

/-- A rule in a region yields what the rule yields inside it, behind a region that could be
opened. -/
theorem Yields.of_nested {r : Rule α} {c d : Cursor} {a : α} (hc : c.Allows n)
    (h : (nested r).Yields c a d) :
    ∃ m e, n = m + 1 ∧ c.deeper.Allows m ∧ r.Yields c.deeper a e ∧ d = e.ascend := by
  obtain ⟨hlt, e, he, rfl⟩ := yields_nested.1 h
  have hadd := hc.depth_add
  obtain ⟨m, rfl⟩ : ∃ m, n = m + 1 := ⟨n - 1, by omega⟩
  exact ⟨m, e, rfl, hc.deeper, he, rfl⟩

/-- An expression read in a region is written there, and nests one region deeper. -/
theorem ReadsExpr.of_nested {k : Nat} {r : Rule Expr} (hr : ∀ m, n = m + 1 → ReadsExpr k m r)
    {c d : Cursor} {e : Expr} (hc : c.Allows n) (h : (nested r).Yields c e d) :
    ∃ s : Source.Expr, s.Fits k ∧ s.tree = e ∧ c.Passes s.tokens d ∧ s.nesting + 1 ≤ n := by
  obtain ⟨m, i, rfl, hm, hi, rfl⟩ := h.of_nested hc
  obtain ⟨s, hs, ht, hp, hn⟩ := hr m rfl hm hi
  exact ⟨s, hs, ht, hp.ascend, Nat.succ_le_succ hn⟩

/-- Kinds that are matched are not the end. -/
theorem yields_take_bind {β : Type} {f : Token → Rule β} {c d : Cursor} {b : β}
    (hc : c.Allows n) (hk : c.peek.kind ≠ .eof) (h : (take >>= f).Yields c b d) :
    c.Passes [c.peek] c.next ∧ (f c.peek).Yields c.next b d := by
  obtain ⟨t, m, ht, hf⟩ := yields_bind.1 h
  obtain ⟨rfl, rfl⟩ := yields_take.1 ht
  exact ⟨Cursor.passes_next (Cursor.isAtEnd_eq_false hc.marker_kind hk), hf⟩

/-- A rule that expects a token first goes on behind a token of that kind. -/
theorem yields_expect_bind {β : Type} {k : Kind} {x : Complaint} {f : Token → Rule β}
    {c d : Cursor} {b : β} :
    (expect k x >>= f).Yields c b d ↔
      ∃ (t : Source.Mark k) (m : Cursor), c.Passes [t.1] m ∧ (f t.1).Yields m b d := by
  rw [yields_bind]
  constructor
  · rintro ⟨t, m, ht, h⟩
    obtain ⟨hk, hp⟩ := yields_expect.1 ht
    exact ⟨⟨t, hk⟩, m, hp, h⟩
  · rintro ⟨t, m, ht, h⟩
    exact ⟨t.1, m, yields_expect.2 ⟨t.2, ht⟩, h⟩

/-- Constants and names stand alone. -/
theorem standsAlone_of_isConstant {k : Kind} (h : isConstant k = true) : k.StandsAlone := by
  cases k <;> first | decide | exact absurd h (by decide)

/-- Operators before an operand are prefixes of the grammar. -/
theorem prefixes_of_isPrefixOp {k : Kind} (h : isPrefixOp k = true) : k.Prefixes := by
  cases k <;> first | decide | exact absurd h (by decide)

section

variable (hx : ∀ m, n = m + 1 → ReadsExpr 0 m (Region.upTo n).expression)
include hx

/-- All that is read as a primary expression is written as one. -/
theorem primary_sound : ReadsExpr 7 n (primary (.upTo n)) := by
  intro c d e hc h
  rw [primary, yields_kind_bind] at h
  split at h
  · next hk =>
    obtain ⟨ht, h⟩ := yields_take_bind hc (by rw [hk]; decide) h
    obtain ⟨v, m, hv, h⟩ := yields_bind.1 h
    obtain ⟨s, hs, rfl, hp, hn⟩ := ReadsExpr.of_nested hx (hc.of_passes ht) hv
    obtain ⟨r, i, hrp, h⟩ := yields_expect_bind.1 h
    obtain ⟨rfl, rfl⟩ := yields_pure.1 h
    exact ⟨.grouping ⟨c.peek, hk⟩ s r, hs, rfl, ht.trans (hp.trans hrp), hn⟩
  · next hk =>
    obtain ⟨ht, h⟩ := yields_take_bind hc (by rw [hk]; decide) h
    obtain ⟨u, m, hm, h⟩ := yields_bind.1 h
    obtain rfl := yields_note.1 hm
    obtain ⟨rfl, rfl⟩ := yields_pure.1 h
    exact ⟨.atom ⟨c.peek, by rw [hk]; decide⟩, trivial, rfl, ht, Nat.zero_le n⟩
  · split at h
    · next hk =>
      have hs := standsAlone_of_isConstant hk
      have hne : c.peek.kind ≠ .eof := fun heq => absurd (heq ▸ hs) (by decide)
      obtain ⟨ht, h⟩ := yields_take_bind hc hne h
      obtain ⟨rfl, rfl⟩ := yields_pure.1 h
      exact ⟨.atom ⟨c.peek, hs⟩, trivial, rfl, ht, Nat.zero_le n⟩
    · exact absurd h not_yields_fail

/-- All that is read as a prefix expression is written as one. -/
theorem unary_sound (hu : ∀ m, n = m + 1 → ReadsExpr 7 m (Region.upTo n).unary) :
    ReadsExpr 7 n (unary (.upTo n)) := by
  intro c d e hc h
  obtain ⟨o, m, ho, hrest⟩ := yields_bind.1 h
  rcases yields_takeIf?.1 ho with ⟨op, rfl, hop, ht⟩ | ⟨rfl, rfl, -⟩
  · obtain ⟨v, i, hv, h⟩ := yields_bind.1 hrest
    obtain ⟨s, hs, rfl, hp, hn⟩ := ReadsExpr.of_nested hu (hc.of_passes ht) hv
    obtain ⟨rfl, rfl⟩ := yields_pure.1 h
    exact ⟨.unary ⟨op, prefixes_of_isPrefixOp hop⟩ s, hs, rfl, ht.trans hp, hn⟩
  · exact primary_sound hx hc hrest

end

/-- Behind an operand of a rank, a chain reads on to an expression of the rank. -/
theorem links_sound {k : Nat} (hk : 0 < k) {p : Kind → Bool} (hp : ∀ x, p x = true → x.rank = k)
    {operand : Rule Expr} (ho : ReadsExpr (k + 1) n operand) {more : List Token} {c : Cursor}
    (hc : c.Allows n) {l : Source.Expr} (hl : l.Fits k) (hln : l.nesting ≤ n) {m d : Cursor}
    {e : Expr} (hm : c.Passes l.tokens m) (h : (links p operand more l.tree).Yields m e d) :
    ∃ s : Source.Expr, s.Fits k ∧ s.tree = e ∧ c.Passes s.tokens d ∧ s.nesting ≤ n := by
  induction more generalizing l m with
  | nil =>
    obtain ⟨rfl, rfl⟩ := yields_pure.1 h
    exact ⟨l, hl, rfl, hm, hln⟩
  | cons t more ih =>
    rw [links] at h
    obtain ⟨o, i, ho', hrest⟩ := yields_bind.1 h
    rcases yields_takeIf?.1 ho' with ⟨op, rfl, hop, ht⟩ | ⟨rfl, rfl, -⟩
    · obtain ⟨v, j, hv, h⟩ := yields_bind.1 hrest
      obtain ⟨r, hr, rfl, hpr, hrn⟩ := ho (hc.of_passes (hm.trans ht)) hv
      have hrank : op.kind.rank = k := hp _ hop
      have hop1 : 1 ≤ op.kind.rank := by omega
      refine ih (l := .binary l ⟨op, hop1⟩ r) ?_ (Nat.max_le.2 ⟨hln, hrn⟩) ?_ h
      · rw [← hrank] at hl hr ⊢
        exact ⟨Nat.le_refl _, hl, hr⟩
      · exact hm.trans (ht.trans hpr)
    · obtain ⟨rfl, rfl⟩ := yields_pure.1 hrest
      exact ⟨l, hl, rfl, hm, hln⟩

/-- All that is read as a chain is written with operators of its level, if its operands are of
the next one. -/
theorem chain_sound {k : Nat} (hk : 0 < k) {p : Kind → Bool} (hp : ∀ x, p x = true → x.rank = k)
    {operand : Rule Expr} (ho : ReadsExpr (k + 1) n operand) : ReadsExpr k n (chain p operand) := by
  intro c d e hc h
  obtain ⟨left, m, hl, h⟩ := yields_bind.1 h
  obtain ⟨l, hlf, rfl, hlp, hln⟩ := ho hc hl
  exact links_sound hk hp ho hc (hlf.mono (Nat.le_succ k)) hln hlp h

/-- All that is read on the levels of operators is written there. -/
theorem disjunction_sound (hu : ReadsExpr 7 n (unary (.upTo n))) :
    ReadsExpr 1 n (disjunction (.upTo n)) := by
  refine chain_sound (by decide) (fun x hx => ?_) <| chain_sound (by decide) (fun x hx => ?_) <|
    chain_sound (by decide) (fun x hx => ?_) <| chain_sound (by decide) (fun x hx => ?_) <|
    chain_sound (by decide) (fun x hx => ?_) <| chain_sound (by decide) (fun x hx => ?_) hu
  all_goals cases x <;> first | rfl | exact absurd hx (by decide)

/-- All that is read as an assignment is written as one, or as a looser expression without one. -/
theorem assignment_sound (hx : ∀ m, n = m + 1 → ReadsExpr 0 m (Region.upTo n).expression)
    (hd : ReadsExpr 1 n (disjunction (.upTo n))) : ReadsExpr 0 n (assignment (.upTo n)) := by
  intro c d e hc h
  obtain ⟨target, m, ht, h⟩ := yields_bind.1 h
  obtain ⟨s, hs, rfl, hp, hn⟩ := hd hc ht
  rw [yields_nextIs_bind] at h
  cases hk : m.check .equal with
  | false =>
    rw [hk] at h
    obtain ⟨rfl, rfl⟩ := yields_pure.1 h
    exact ⟨s, hs.mono (Nat.zero_le 1), rfl, hp, hn⟩
  | true =>
    obtain ⟨hend, hkind⟩ := Cursor.check_eq_true_iff.1 hk
    rw [hk, if_pos rfl] at h
    split at h
    · next name hid =>
      have hm := hc.of_passes hp
      obtain ⟨hequal, h⟩ := yields_take_bind hm (by rw [hkind]; decide) h
      obtain ⟨v, i, hv, h⟩ := yields_bind.1 h
      obtain ⟨value, hvf, rfl, hvp, hvn⟩ := ReadsExpr.of_nested hx (hm.of_passes hequal) hv
      obtain ⟨rfl, rfl⟩ := yields_pure.1 h
      obtain ⟨t, rfl, rfl, hname⟩ := Source.Expr.eq_atom_of_identifier? hid
      exact ⟨.assign ⟨t.1, hname⟩ ⟨m.peek, hkind⟩ value, ⟨rfl, hvf⟩, rfl,
        hp.trans (hequal.trans hvp), hvn⟩
    · exact absurd h not_yields_fail

/-- **Whatever is read as an expression is written as one.** -/
theorem expression_sound (n : Nat) :
    ReadsExpr 0 n (expression (.upTo n)) ∧ ReadsExpr 7 n (unary (.upTo n)) := by
  induction n with
  | zero =>
    have hu := unary_sound (n := 0) (fun m hm => nomatch hm) (fun m hm => nomatch hm)
    exact ⟨assignment_sound (fun m hm => nomatch hm) (disjunction_sound hu), hu⟩
  | succ n ih =>
    have hx : ∀ m, n + 1 = m + 1 → ReadsExpr 0 m (Region.upTo (n + 1)).expression :=
      fun m hm => Nat.succ.inj hm ▸ ih.1
    have hu := unary_sound hx fun m hm => Nat.succ.inj hm ▸ ih.2
    exact ⟨assignment_sound hx (disjunction_sound hu), hu⟩

end Rule
end LoxFront
