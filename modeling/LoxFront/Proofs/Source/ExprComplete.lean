/-
# Expressions that are written are read

A rule for expressions reads every expression of the grammar that stands at the
cursor, up to its last token, if what follows cannot go on with it
(`Rule.expression_complete`).  Only if a token of it opens a region too many the rule
fails, and then first behind that token.
-/

import LoxFront.Proofs.Rule.Fails
import LoxFront.Proofs.Rule.Frame
import LoxFront.Proofs.Source.ExprSound
import LoxFront.Proofs.Source.Levels

namespace LoxFront

/-- A token of the kind does not go on with an expression of a rank: it is no
operator of this rank or a higher one, and no equals sign behind an expression
that may be an assignment. -/
def Kind.Closes (k : Kind) (n : Nat) : Prop := (k.rank < n ∨ k.rank = 0) ∧ (n = 0 → k ≠ equal)

instance (k : Kind) (n : Nat) : Decidable (k.Closes n) := inferInstanceAs (Decidable (_ ∧ _))

namespace Rule

variable {α : Type} {n : Nat}

/-- All expressions that may stand where operators of rank `k` may are read, up to
the first region too many. -/
def ReadsAllExpr (k n : Nat) (r : Rule Expr) : Prop :=
  ∀ ⦃c d : Cursor⦄ ⦃s : Source.Expr⦄, c.Allows n → s.Fits k → c.Passes s.tokens d →
    d.peek.kind.Closes k → r.ReadsUnless (c.limit s.levels) c s.tree d

/-- A rule that reads all expressions of a level reads them in a region as well, up to the
limit. -/
theorem ReadsAllExpr.nested {k : Nat} {r : Rule Expr}
    (hr : ∀ m, n = m + 1 → ReadsAllExpr k m r) {c d : Cursor} {s : Source.Expr}
    (hc : c.Allows n) (hs : s.Fits k) (hp : c.Passes s.tokens d)
    (hd : d.peek.kind.Closes k) : (nested r).ReadsUnless (c.regionLimit s.levels) c s.tree d := by
  refine ReadsUnless.nested hc fun m hm => ?_
  subst hm
  exact hr m rfl hc.deeper hs hp.deeper hd

/-- The two operators that stand before an expression. -/
theorem isPrefixOp_iff {k : Kind} : isPrefixOp k = true ↔ k.Prefixes :=
  ⟨prefixes_of_isPrefixOp, fun h => by rcases h with rfl | rfl <;> rfl⟩

/-- All tokens that stand alone are constants or names, but for `return`. -/
theorem isConstant_of_standsAlone {k : Kind} (h : k.StandsAlone) (hr : k ≠ .returnWord) :
    isConstant k = true := by
  cases k <;> first | rfl | exact absurd h (by decide) | exact absurd rfl hr

/-- A token that stands alone is read as a primary expression. -/
theorem primary_complete_atom {c d : Cursor} {t : Source.Word Kind.StandsAlone}
    (hp : c.Passes [t.1] d) : (primary (.upTo n)).ReadsUnless none c (.literal t.1) d := by
  rw [primary, readsUnless_kind_bind, hp.peek]
  split
  · next hk => exact absurd (hk ▸ t.2) (by decide)
  · exact .take_bind hp (Reads.bind_unless (reads_note rfl d) (reads_pure _ d))
  · next hk =>
    rw [if_pos (isConstant_of_standsAlone t.2 hk)]
    exact .take_bind hp (reads_pure _ d)

section

variable (hx : ∀ m, n = m + 1 → ReadsAllExpr 0 m (Region.upTo n).expression)
include hx

/-- An expression in parentheses is read as a primary expression, up to the limit. -/
theorem primary_complete_grouping {c d : Cursor} (hc : c.Allows n) {l : Source.Mark .leftParen}
    {s : Source.Expr} {r : Source.Mark .rightParen} (hs : s.Fits 0)
    (hp : c.Passes (l.1 :: (s.tokens ++ [r.1])) d) :
    (primary (.upTo n)).ReadsUnless (c.limit (Source.Expr.grouping l s r).levels) c
      (.grouping s.tree) d := by
  obtain ⟨i, hl, hp⟩ := Cursor.passes_cons_iff.1 hp
  obtain ⟨j, hsp, hr⟩ := Cursor.passes_append_iff.1 hp
  have hj : j.peek.kind.Closes 0 := by rw [hr.peek, r.2]; decide
  have hlimit : c.limit (Source.Expr.grouping l s r).levels = i.regionLimit s.levels :=
    (hl.limit_region_append hsp s.length_levels).trans Option.or_none
  rw [primary, readsUnless_kind_bind, hl.peek, l.2, hlimit]
  exact .take_bind hl (.bind_reads (ReadsAllExpr.nested hx (hc.of_passes hl) hs hsp hj)
    (.expect_bind r.2 hr (reads_pure _ d)))

/-- All prefix expressions are read, up to the limit. -/
theorem unary_complete (hu : ∀ m, n = m + 1 → ReadsAllExpr 7 m (Region.upTo n).unary) :
    ReadsAllExpr 7 n (unary (.upTo n)) := by
  intro c d s hc hs hp hd
  cases s with
  | unary op e =>
    obtain ⟨i, hop, he⟩ := Cursor.passes_cons_iff.1 hp
    have htaken : (takeIf? isPrefixOp).Yields c (some op.1) i :=
      yields_takeIf?.2 (.inl ⟨op.1, rfl, isPrefixOp_iff.2 op.2, hop⟩)
    have hoperand : (nested (Region.upTo n).unary).ReadsUnless (i.regionLimit e.levels) i e.tree d :=
      ReadsAllExpr.nested hu (hc.of_passes hop) hs he hd
    have hlimit : c.limit (Source.Expr.unary op e).levels = i.regionLimit e.levels :=
      hop.limit_region
    rw [hlimit]
    exact Reads.bind_unless (reads_takeIf?.2 htaken) (hoperand.bind_reads (reads_pure _ d))
  | atom t =>
    have hno : isPrefixOp t.1.kind = false := by
      rw [Bool.eq_false_iff]
      intro h
      rcases isPrefixOp_iff.1 h with h | h <;> exact absurd (h ▸ t.2) (by decide)
    have hleft : (takeIf? isPrefixOp).Yields c none c :=
      yields_takeIf?.2 (.inr ⟨rfl, rfl, .inr (by rw [hp.peek, hno])⟩)
    exact Reads.bind_unless (reads_takeIf?.2 hleft) (primary_complete_atom hp)
  | grouping l e r =>
    have hleft : (takeIf? isPrefixOp).Yields c none c :=
      yields_takeIf?.2 (.inr ⟨rfl, rfl, .inr (by rw [hp.peek, l.2]; rfl)⟩)
    exact Reads.bind_unless (reads_takeIf?.2 hleft) (primary_complete_grouping hx hc hs hp)
  | binary l op r => exact absurd hs.1 (by have := Source.Expr.rank_le op.1.kind; omega)
  | assign name equals e => exact absurd hs.1 (by omega)

end

section

variable {k : Nat} (hk : 0 < k) {p : Kind → Bool} (hpk : ∀ x, p x = true ↔ x.rank = k)
  {operand : Rule Expr} (ho : operand.Obeys frame) (hall : ReadsAllExpr (k + 1) n operand)
include hk hpk ho hall

/-- What a chain reads behind an expression of its rank, it reads from the
beginning of the expression on. -/
theorem chain_of_tail {s : Source.Expr} (hs : s.Fits k) {c m : Cursor} (hc : c.Allows n)
    (hp : c.Passes s.tokens m) (hm : m.peek.kind.rank ≤ k) {e : Expr} {d : Cursor}
    {place : Option Nat} (h : (tail p operand s.tree).ReadsUnless place m e d) :
    (chain p operand).ReadsUnless ((c.limit s.levels).or place) c e d := by
  -- on the left operands, which are of the same rank
  induction s generalizing m place with
  | binary l op r ihl =>
    rcases (Source.Expr.fits_iff_of_pos hk).1 hs with ⟨l', op', r', heq, hrank, hl, hr⟩ | hs
    · cases heq
      obtain ⟨i, hlp, hp⟩ := Cursor.passes_append_iff.1 hp
      obtain ⟨j, hop, hrp⟩ := Cursor.passes_cons_iff.1 hp
      have hpeek : i.peek = op.1 := hop.peek
      have hj : j = i.next := (Cursor.passes_singleton_iff.1 hop).2
      have haccepts : p i.peek.kind = true := (hpk _).2 (by rw [hpeek, hrank])
      have hlimit : c.limit (Source.Expr.binary l op r).levels =
          (c.limit l.levels).or (j.limit r.levels) :=
        (hlp.limit_append l.length_levels).trans (congrArg _ hop.limit_cons)
      rw [hlimit, Option.or_assoc]
      refine ihl hl hlp (Nat.le_of_eq (by rw [hpeek, hrank])) ?_
      have hright : operand.ReadsUnless (j.limit r.levels) i.next r.tree m :=
        hj ▸ hall (hc.of_passes (hlp.trans hop)) hr hrp ⟨.inl (by omega), fun h => by omega⟩
      refine (hright.bind ?_).congr (tail_of_accepts ho hop.isAtEnd haccepts)
      rw [hpeek]
      exact h
    · exact .bind (hall hc hs hp ⟨.inl (by omega), fun h => by omega⟩) h
  | atom | grouping | unary | assign =>
    rcases (Source.Expr.fits_iff_of_pos hk).1 hs with ⟨l', op', r', heq, -⟩ | hs
    · cases heq
    · exact .bind (hall hc hs hp ⟨.inl (by omega), fun h => by omega⟩) h

/-- All expressions of a level of operators are read, if those of the next one are. -/
theorem chain_complete : ReadsAllExpr k n (chain p operand) := by
  intro c d s hc hs hp hd
  rw [← Option.or_none (o := c.limit s.levels)]
  refine chain_of_tail hk hpk ho hall hs hc hp ?_ ?_
  · rcases hd.1 with h | h <;> omega
  · have hpure : (pure s.tree : Rule Expr).ReadsUnless none d s.tree d := reads_pure s.tree d
    refine hpure.congr (links_of_refuses s.tree (.inr ?_) d.rest)
    rw [Bool.eq_false_iff, Ne, hpk]
    rcases hd.1 with h | h <;> omega

end

/-- All expressions of all levels of operators are read. -/
theorem disjunction_complete (hu : ReadsAllExpr 7 n (unary (.upTo n))) :
    ReadsAllExpr 1 n (disjunction (.upTo n)) := by
  have hL := frame_composes
  have hr := Region.obeys_upTo_expression hL n
  have h7 := obeys_unary hL hr.1 hr.2
  have h6 : (product (.upTo n)).Obeys frame := obeys_chain hL h7
  have h5 : (sum (.upTo n)).Obeys frame := obeys_chain hL h6
  have h4 : (comparison (.upTo n)).Obeys frame := obeys_chain hL h5
  have h3 : (equality (.upTo n)).Obeys frame := obeys_chain hL h4
  have h2 : (conjunction (.upTo n)).Obeys frame := obeys_chain hL h3
  refine chain_complete (by decide) (fun x => ?_) h2 <|
    chain_complete (by decide) (fun x => ?_) h3 <|
    chain_complete (by decide) (fun x => ?_) h4 <|
    chain_complete (by decide) (fun x => ?_) h5 <|
    chain_complete (by decide) (fun x => ?_) h6 <|
    chain_complete (by decide) (fun x => ?_) h7 hu
  all_goals cases x <;> decide

/-- All expressions are read: assignments by their target, the others as the level below. -/
theorem assignment_complete (hx : ∀ m, n = m + 1 → ReadsAllExpr 0 m (Region.upTo n).expression)
    (hd : ReadsAllExpr 1 n (disjunction (.upTo n))) : ReadsAllExpr 0 n (assignment (.upTo n)) := by
  intro c d s hc hs hp hcl
  rcases Source.Expr.fits_zero_iff.1 hs with ⟨name, equals, value, rfl, hv⟩ | hs
  · obtain ⟨i, hname, hp⟩ := Cursor.passes_cons_iff.1 hp
    obtain ⟨j, heq, hvp⟩ := Cursor.passes_cons_iff.1 hp
    have hi : i.peek.kind = .equal := by rw [heq.peek, equals.2]
    have halone : name.1.kind.StandsAlone := by rw [name.2]; decide
    have htarget : (disjunction (.upTo n)).Reads c (.literal name.1) i :=
      hd (s := .atom ⟨name.1, halone⟩) hc trivial hname (by rw [hi]; decide)
    have hlimit : c.limit (Source.Expr.assign name equals value).levels =
        j.regionLimit value.levels := hname.limit_cons.trans heq.limit_region
    rw [hlimit]
    refine htarget.bind_unless ?_
    rw [readsUnless_nextIs_bind, Cursor.check_eq_true_iff.2 ⟨heq.isAtEnd, hi⟩]
    simp only [if_true, Expr.identifier?, name.2]
    have hallows := hc.of_passes (hname.trans heq)
    have hvalue := ReadsAllExpr.nested hx hallows hv hvp hcl
    exact .take_bind heq (hvalue.bind_reads (reads_pure _ d))
  · refine (hd hc hs hp ⟨by have := hcl.1; omega, by omega⟩).bind_reads ?_
    have hno : d.check .equal = false := by
      rw [Bool.eq_false_iff, Ne, Cursor.check_eq_true_iff]
      exact fun h => hcl.2 rfl h.2
    show ReadsUnless none _ _ _ _
    rw [readsUnless_nextIs_bind, hno]
    exact reads_pure _ d

/-- **Whatever is written as an expression is read as one**, up to the limit of
regions. -/
theorem expression_complete (n : Nat) :
    ReadsAllExpr 0 n (expression (.upTo n)) ∧ ReadsAllExpr 7 n (unary (.upTo n)) := by
  induction n with
  | zero =>
    have hu := unary_complete (n := 0) (fun m hm => nomatch hm) (fun m hm => nomatch hm)
    exact ⟨assignment_complete (fun m hm => nomatch hm) (disjunction_complete hu), hu⟩
  | succ n ih =>
    have hx : ∀ m, n + 1 = m + 1 → ReadsAllExpr 0 m (Region.upTo (n + 1)).expression :=
      fun m hm => Nat.succ.inj hm ▸ ih.1
    have hu := unary_complete hx fun m hm => Nat.succ.inj hm ▸ ih.2
    exact ⟨assignment_complete hx (disjunction_complete hu), hu⟩

end Rule
end LoxFront
