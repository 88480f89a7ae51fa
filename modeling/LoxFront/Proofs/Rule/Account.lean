/-
# The account of errors

Every error that a rule creates is told of in its trace; those that it keeps are
in its result, which is an error or a statement that errors stand in.  A rule
keeps what it creates, in order, unless an `if` fails in its `else` branch while
errors stand in the other one (`Rule.Loses`): the `if` then ends with the one
error, and those of the statement read before are lost
(`Rule.statement_accounts`).
-/

import LoxFront.Proofs.Rule.Heads
import LoxFront.Proofs.Rule.Progress
import LoxFront.Proofs.Source.StmtSound
import LoxFront.Proofs.Source.Tree

namespace LoxFront

/-- The errors that events tell of, in order. -/
def created (trace : List Event) : List ParseError := trace.filterMap Event.error?

/-- The errors told in two parts are those of the one and then of the other. -/
@[simp] theorem created_append (t u : List Event) : created (t ++ u) = created t ++ created u :=
  List.filterMap_append

namespace Rule

/-- The errors of a result: the one that a rule ends with, or those that stand in
the statement. -/
def kept : Except ParseError Stmt → List ParseError
  | .ok s => s.errors
  | .error e => [e]

/-! ### Rules without statements in them -/

/-- A rule creates no error but the one that it ends with. -/
def quiet : Law := fun _ o _ t => created t = o.toList

/-- The law is kept by single steps and put together by binds and regions. -/
theorem quiet_composes : Law.Composes quiet where
  stay _ := rfl
  step _ := rfl
  returned _ := rfl
  failed _ _ := rfl
  trans := by
    intro c d e o t u ht hu
    rw [quiet, created_append, ht, hu]
    rfl
  region _ h := h

variable {α : Type} {n : Nat} {c d m : Cursor}

/-- So the rule for expressions creates no error but the one it ends with. -/
theorem expression_quiet (n : Nat) : (expression (.upTo n)).Obeys quiet :=
  expression_obeys quiet_composes n

/-- A quiet rule that reads something has created no error. -/
theorem created_of_ok {r : Rule α} (hr : r.Obeys quiet) {a : α} (h : (r c).value = .ok a) :
    created (r c).trace = [] := by
  have hc := hr c
  rw [h] at hc
  exact hc

/-- A quiet rule that ends with an error has created that one only. -/
theorem created_of_error {r : Rule α} (hr : r.Obeys quiet) {e : ParseError}
    (h : (r c).value = .error e) : created (r c).trace = [e] := by
  have hc := hr c
  rw [h] at hc
  exact hc

/-- A quiet rule that reads statements without errors keeps all that it creates. -/
theorem kept_of_quiet {r : Rule Stmt} (hr : r.Obeys quiet)
    (hok : ∀ s d, r.Yields c s d → s.errors = []) : kept (r c).value = created (r c).trace := by
  cases hv : (r c).value with
  | error e => rw [created_of_error hr hv, kept]
  | ok s => rw [created_of_ok hr hv, kept, hok s _ ⟨hv, rfl⟩]

end Rule

/-! ### Accounts -/

/-- Of the errors `made` those `left` are left, in order, and all of them unless
some are lost. -/
structure Account (left made : List ParseError) (lost : Prop) : Prop where
  sublist : left.Sublist made
  eq_iff : left = made ↔ ¬lost

namespace Account

variable {a b x y : List ParseError} {p q : Prop}

/-- An account in which all that is made is left has no loss. -/
theorem of_eq (h : a = b) (hno : ¬p) : Account a b p :=
  ⟨h ▸ List.Sublist.refl a, fun _ => hno, fun _ => h⟩

/-- An account may state its loss in other words. -/
theorem congr (h : Account a b p) (hpq : p ↔ q) : Account a b q :=
  ⟨h.sublist, h.eq_iff.trans (not_congr hpq)⟩

/-- Accounts of two parts one behind the other are an account of both, with a loss in either. -/
theorem append (h : Account a b p) (k : Account x y q) : Account (a ++ x) (b ++ y) (p ∨ q) := by
  refine ⟨h.sublist.append k.sublist, ?_⟩
  rw [not_or, ← h.eq_iff, ← k.eq_iff]
  constructor
  · intro heq
    have hlen := congrArg List.length heq
    have ha := h.sublist.length_le
    have hx := k.sublist.length_le
    simp only [List.length_append] at hlen
    exact ⟨h.sublist.eq_of_length (by omega), k.sublist.eq_of_length (by omega)⟩
  · rintro ⟨rfl, rfl⟩
    rfl

/-- If only what is left of the second is kept, all is kept if and only if there
was nothing in the first. -/
theorem drop (h : Account a b p) (k : Account x y q) : Account x (b ++ y) (p ∨ q ∨ a ≠ []) := by
  refine ⟨k.sublist.trans (List.sublist_append_right b y), ?_⟩
  rw [not_or, not_or, Classical.not_not, ← h.eq_iff, ← k.eq_iff]
  constructor
  · intro heq
    have hlen := congrArg List.length heq
    have hx := k.sublist.length_le
    rw [List.length_append] at hlen
    obtain rfl : b = [] := List.eq_nil_of_length_eq_zero (by omega)
    exact ⟨List.sublist_nil.1 h.sublist, heq, List.sublist_nil.1 h.sublist⟩
  · rintro ⟨rfl, rfl, rfl⟩
    rfl

end Account

namespace Rule

variable {α : Type} {n : Nat} {c d m : Cursor}

/-- What a rule keeps of the errors it creates. -/
def Accounts (r : Rule Stmt) (c : Cursor) (lost : Prop) : Prop :=
  Account (kept (r c).value) (created (r c).trace) lost

/-- Looking at the next kind has no part in the account. -/
theorem accounts_kind_bind {f : Kind → Rule Stmt} {lost : Prop} :
    (kind >>= f).Accounts c lost ↔ (f c.peek.kind).Accounts c lost := .rfl

/-- Taking a token has no part in the account. -/
theorem accounts_take_bind {f : Token → Rule Stmt} {lost : Prop} :
    (take >>= f).Accounts c lost ↔ (f c.peek).Accounts c.next lost := .rfl

/-- What a rule without statements reads before another rule has no part in the
account. -/
theorem accounts_bind {r : Rule α} {f : α → Rule Stmt} {lost : Prop} (hr : r.Obeys quiet)
    (hfail : (∀ a m, ¬r.Yields c a m) → ¬lost)
    (hok : ∀ a m, r.Yields c a m → (f a).Accounts m lost) : (r >>= f).Accounts c lost := by
  cases hv : (r c).value with
  | error e =>
    refine .of_eq ?_ (hfail fun a m h => nomatch hv.symm.trans h.1)
    rw [bind_of_error hv, kept, created_of_error hr hv]
  | ok a =>
    rw [Accounts, bind_of_ok hv]
    show Account (kept (f a (r c).cursor).value) (created ((r c).trace ++ _)) lost
    rw [created_append, created_of_ok hr hv]
    exact hok a _ ⟨hv, rfl⟩

/-- A statement may be built around the one that is read, if no errors stand in
the rest of it. -/
theorem accounts_bind_pure {r : Rule Stmt} {f : Stmt → Stmt} {lost : Prop}
    (hf : ∀ s, (f s).errors = s.errors) (h : r.Accounts c lost) :
    (r >>= fun s => pure (f s)).Accounts c lost := by
  cases hv : (r c).value with
  | error e =>
    rw [Accounts, bind_of_error hv]
    rw [Accounts, hv] at h
    exact h
  | ok s =>
    rw [Accounts, bind_of_ok hv]
    rw [Accounts, hv] at h
    show Account (f s).errors (created ((r c).trace ++ [])) lost
    rw [hf, List.append_nil]
    exact h

/-- A rule in a region has the account that it has inside. -/
theorem accounts_nested {r : Rule Stmt} {lost : Prop} (hc : c.Allows (n + 1))
    (h : r.Accounts c.deeper lost) : (nested r).Accounts c lost := by
  have hadd := hc.depth_add
  rw [Accounts, nested_of_allows (by omega)]
  exact h

/-- Where no region can be opened the refusal is the one error, and it is kept. -/
theorem accounts_nested_zero {r : Rule Stmt} {lost : Prop} (hc : c.Allows 0) (hno : ¬lost) :
    (nested r).Accounts c lost := by
  have hadd := hc.depth_add
  refine .of_eq ?_ hno
  rw [nested_of_refuses (by omega)]
  rfl

/-! ### Where errors are lost -/

/-- Declarations are read from `c` on, each from where the one before it stopped,
up to a place where they stop: one of them begins at `d`. -/
inductive Starts (stop : Cursor → Bool) (item : Cursor → Parsed Stmt) : Cursor → Cursor → Prop where
  | first {c : Cursor} : stop c = false → Starts stop item c c
  | later {c d : Cursor} : stop c = false → Starts stop item (item c).cursor d →
      Starts stop item c d

/-- The declarations of a block stop here. -/
def blockEnds (c : Cursor) : Bool := c.isAtEnd || c.check .rightBrace

/-- Errors are lost while the statement at a cursor is read, where `n` regions can
be opened: in an `if` in it that fails behind a branch with errors. -/
inductive Loses : Nat → Cursor → Prop where
  /-- The `else` branch fails, and errors stand in the other one. -/
  | branch {n : Nat} {c m i : Cursor} {value : Expr} {yes : Stmt} {e : ParseError} :
    c.peek.kind = .ifWord →
    (condition (.upTo n) .ifOpening .ifClosing).Yields c.next value m →
    (nested (Region.upTo n).statement).Yields m yes i → i.check .elseWord = true →
    yes.errors ≠ [] → (nested (Region.upTo n).statement i.next).value = .error e → Loses n c
  | yes {n : Nat} {c m : Cursor} {value : Expr} : c.peek.kind = .ifWord →
    (condition (.upTo (n + 1)) .ifOpening .ifClosing).Yields c.next value m →
    Loses n m.deeper → Loses (n + 1) c
  | no {n : Nat} {c m i : Cursor} {value : Expr} {yes : Stmt} : c.peek.kind = .ifWord →
    (condition (.upTo (n + 1)) .ifOpening .ifClosing).Yields c.next value m →
    (nested (Region.upTo (n + 1)).statement).Yields m yes i → i.check .elseWord = true →
    Loses n i.next.deeper → Loses (n + 1) c
  | whileBody {n : Nat} {c m : Cursor} {value : Expr} : c.peek.kind = .whileWord →
    (condition (.upTo (n + 1)) .whileOpening .whileClosing).Yields c.next value m →
    Loses n m.deeper → Loses (n + 1) c
  | forBody {n : Nat} {c m : Cursor} {head : Option Stmt × Option Expr × Option Expr} :
    c.peek.kind = .forWord → (clauses (.upTo (n + 1))).Yields c.next head m →
    Loses n m.deeper → Loses (n + 1) c
  | block {n : Nat} {c d : Cursor} : c.peek.kind = .leftBrace →
    Starts blockEnds (declaration (.upTo n)) c.next.deeper d → binding? d.peek.kind = none →
    Loses n d → Loses (n + 1) c

/-- Errors are lost while the declaration at a cursor is read. -/
def ItemLoses (n : Nat) (c : Cursor) : Prop := binding? c.peek.kind = none ∧ Loses n c

/-- Errors are lost in a region that is opened at a cursor for a statement. -/
def RegionLoses (n : Nat) (c : Cursor) : Prop := ∃ k, n = k + 1 ∧ Loses k c.deeper

/-- A loop over declarations loses an error in the first one or behind it. -/
theorem exists_starts_iff {stop : Cursor → Bool} {item : Cursor → Parsed Stmt}
    {lost : Cursor → Prop} :
    (∃ d, Starts stop item c d ∧ lost d) ↔
      stop c = false ∧ (lost c ∨ ∃ d, Starts stop item (item c).cursor d ∧ lost d) := by
  constructor
  · rintro ⟨d, hd, hlost⟩
    cases hd with
    | first hstop => exact ⟨hstop, .inl hlost⟩
    | later hstop hd => exact ⟨hstop, .inr ⟨d, hd, hlost⟩⟩
  · rintro ⟨hstop, hlost | ⟨d, hd, hlost⟩⟩
    · exact ⟨c, .first hstop, hlost⟩
    · exact ⟨d, .later hstop hd, hlost⟩

/-- A loop loses the errors that its body does. -/
theorem loses_while_iff (hk : c.peek.kind = .whileWord) {value : Expr}
    (hm : (condition (.upTo n) .whileOpening .whileClosing).Yields c.next value m) :
    Loses n c ↔ RegionLoses n m := by
  constructor
  · intro h
    cases h with
    | whileBody _ hm' h =>
      obtain ⟨-, rfl⟩ := hm.unique hm'
      exact ⟨_, rfl, h⟩
    | branch hk' | yes hk' | no hk' | forBody hk' | block hk' =>
      exact absurd (hk.symm.trans hk') (by decide)
  · rintro ⟨k, rfl, h⟩
    exact .whileBody hk hm h

/-- A `for` loop loses the errors that its body does. -/
theorem loses_for_iff (hk : c.peek.kind = .forWord)
    {head : Option Stmt × Option Expr × Option Expr}
    (hm : (clauses (.upTo n)).Yields c.next head m) : Loses n c ↔ RegionLoses n m := by
  constructor
  · intro h
    cases h with
    | forBody _ hm' h =>
      obtain ⟨-, rfl⟩ := hm.unique hm'
      exact ⟨_, rfl, h⟩
    | branch hk' | yes hk' | no hk' | whileBody hk' | block hk' =>
      exact absurd (hk.symm.trans hk') (by decide)
  · rintro ⟨k, rfl, h⟩
    exact .forBody hk hm h

/-- A block loses the errors that one of its declarations does. -/
theorem loses_block_iff (hk : c.peek.kind = .leftBrace) :
    Loses (n + 1) c ↔
      ∃ d, Starts blockEnds (declaration (.upTo n)) c.next.deeper d ∧ ItemLoses n d := by
  constructor
  · intro h
    cases h with
    | block _ hd hb h => exact ⟨_, hd, hb, h⟩
    | branch hk' | yes hk' | no hk' | whileBody hk' | forBody hk' =>
      exact absurd (hk.symm.trans hk') (by decide)
  · rintro ⟨d, hd, hb, h⟩
    exact .block hk hd hb h

/-- Errors are lost behind the first branch of an `if`: in the other one, or
because it fails while errors stand in the first. -/
def ElseLoses (n : Nat) (yes : Stmt) (i : Cursor) : Prop :=
  i.check .elseWord = true ∧ (RegionLoses n i.next ∨
    yes.errors ≠ [] ∧ ∃ e, (nested (Region.upTo n).statement i.next).value = .error e)

/-- A conditional loses the errors that its first branch does, and what it loses behind that. -/
theorem loses_if_iff (hk : c.peek.kind = .ifWord) {value : Expr}
    (hm : (condition (.upTo n) .ifOpening .ifClosing).Yields c.next value m) :
    Loses n c ↔ RegionLoses n m ∨
      ∃ yes i, (nested (Region.upTo n).statement).Yields m yes i ∧ ElseLoses n yes i := by
  constructor
  · intro h
    cases h with
    | branch _ hm' hy hi he hx =>
      obtain ⟨-, rfl⟩ := hm.unique hm'
      exact .inr ⟨_, _, hy, hi, .inr ⟨he, _, hx⟩⟩
    | yes _ hm' h =>
      obtain ⟨-, rfl⟩ := hm.unique hm'
      exact .inl ⟨_, rfl, h⟩
    | no _ hm' hy hi h =>
      obtain ⟨-, rfl⟩ := hm.unique hm'
      exact .inr ⟨_, _, hy, hi, .inl ⟨_, rfl, h⟩⟩
    | whileBody hk' | forBody hk' | block hk' => exact absurd (hk.symm.trans hk') (by decide)
  · rintro (⟨k, rfl, h⟩ | ⟨yes, i, hy, hi, ⟨k, rfl, h⟩ | ⟨he, e, hx⟩⟩)
    · exact .yes hk hm h
    · exact .no hk hm hy hi h
    · exact .branch hk hm hy hi he hx

/-! ### Errors in the heads of statements -/

/-- A condition that is read has no errors. -/
theorem condition_errors {x y : Complaint} {e : Expr} (hc : c.Allows n)
    (h : (condition (.upTo n) x y).Yields c e d) : e.errors = [] := by
  obtain ⟨-, e, -, rfl, -⟩ := condition_sound hc h
  exact e.tree_whole.errors

/-- Clauses that are read have no errors. -/
theorem clauses_errors {head : Option Stmt × Option Expr × Option Expr} (hc : c.Allows n)
    (h : (clauses (.upTo n)).Yields c head d) :
    head.1.elim [] Stmt.errors = [] ∧ head.2.1.elim [] Expr.errors = [] ∧
      head.2.2.elim [] Expr.errors = [] := by
  obtain ⟨-, i, e, -, step, -, rfl, -⟩ := clauses_sound hc h
  have hoption {e : Option Source.Expr} : (e.map Source.Expr.tree).elim [] Expr.errors = [] := by
    cases e with
    | none => rfl
    | some e => exact e.tree_whole.errors
  refine ⟨?_, hoption, hoption⟩
  have hwhole := Source.Initial.whole_of_mem_tree? (i := i)
  cases ht : i.tree? with
  | none => rfl
  | some s => exact (hwhole s ht).errors

/-! ### The account of a statement -/

/-- Only conditionals, loops and blocks lose errors. -/
theorem not_loses_of_kind (h : c.peek.kind ≠ .ifWord ∧ c.peek.kind ≠ .whileWord ∧
    c.peek.kind ≠ .forWord ∧ c.peek.kind ≠ .leftBrace) : ¬Loses n c := by
  intro hl
  cases hl with
  | branch hk | yes hk | no hk => exact h.1 hk
  | whileBody hk => exact h.2.1 hk
  | forBody hk => exact h.2.2.1 hk
  | block hk => exact h.2.2.2 hk

section

variable (hs : ∀ k, n = k + 1 → ∀ c, c.Allows k → (Region.upTo n).statement.Accounts c (Loses k c))
include hs

/-- The account of a statement in a region is that of the statement inside. -/
theorem region_accounts (hc : c.Allows n) :
    (nested (Region.upTo n).statement).Accounts c (RegionLoses n c) := by
  cases n with
  | zero => exact accounts_nested_zero hc (fun ⟨k, hk, _⟩ => nomatch hk)
  | succ n =>
    refine Account.congr (accounts_nested hc (hs n rfl _ hc.deeper)) ?_
    constructor
    · intro h
      exact ⟨n, rfl, h⟩
    · rintro ⟨k, hk, h⟩
      exact Nat.succ.inj hk ▸ h

/-- The account of a loop: all errors are left but those that its body loses. -/
theorem whileStatement_accounts (hk : c.peek.kind = .whileWord) (hc : c.next.Allows n) :
    (whileStatement (.upTo n)).Accounts c.next (Loses n c) := by
  rw [whileStatement_eq]
  refine accounts_bind (obeys_condition quiet_composes (expression_quiet n) _ _) ?_ ?_
  · intro hno h
    cases h with
    | whileBody _ hm => exact hno _ _ hm
    | branch hk' | yes hk' | no hk' | forBody hk' | block hk' =>
      exact absurd (hk.symm.trans hk') (by decide)
  · intro value m hm
    have hframe := obeys_condition frame_composes (expression_obeys frame_composes n)
    have hreach := hm.reaches (hframe _ _)
    have haccount := region_accounts hs (hc.of_reaches hreach)
    refine Account.congr (accounts_bind_pure (fun s => ?_) haccount) (loses_while_iff hk hm).symm
    rw [Stmt.errors_whileLoop, condition_errors hc hm, List.nil_append]

/-- The account of a `for` loop: all errors are left but those that its body loses. -/
theorem forStatement_accounts (hk : c.peek.kind = .forWord) (keyword : Token)
    (hc : c.next.Allows n) : (forStatement (.upTo n) keyword).Accounts c.next (Loses n c) := by
  rw [forStatement_eq]
  refine accounts_bind (obeys_clauses quiet_composes (expression_quiet n)) ?_ ?_
  · intro hno h
    cases h with
    | forBody _ hm => exact hno _ _ hm
    | branch hk' | yes hk' | no hk' | whileBody hk' | block hk' =>
      exact absurd (hk.symm.trans hk') (by decide)
  · intro head m hm
    have hreach := hm.reaches (obeys_clauses frame_composes (expression_obeys frame_composes n))
    have haccount := region_accounts hs (hc.of_reaches hreach)
    refine Account.congr (accounts_bind_pure (fun s => ?_) haccount) (loses_for_iff hk hm).symm
    obtain ⟨hi, he, hstep⟩ := clauses_errors hc hm
    rw [Stmt.errors_forLoop, hi, he, hstep, List.nil_append, List.nil_append, List.append_nil]

/-- The account of an `if` behind its first branch, of which `yes` and the errors
`made` are known. -/
theorem elseBranch_accounts (hc : c.Allows n) {value : Expr} (hvalue : value.errors = [])
    {yes : Stmt} {made : List ParseError} {lost : Prop} (hyes : Account yes.errors made lost) :
    Account (kept (elseBranch (.upTo n) value yes c).value)
      (made ++ created (elseBranch (.upTo n) value yes c).trace) (lost ∨ ElseLoses n yes c) := by
  rw [elseBranch, nextIs_bind]
  cases hcheck : c.check .elseWord with
  | false =>
    show Account (Stmt.ifThen value yes).errors (made ++ []) _
    rw [Stmt.errors_ifThen, hvalue, List.nil_append, List.append_nil]
    refine hyes.congr (or_iff_left fun h => ?_).symm
    exact absurd (hcheck.symm.trans h.1) (by decide)
  | true =>
    have hno := region_accounts hs (hc.of_reaches c.reaches_next)
    rw [if_pos rfl, take_bind, ElseLoses, hcheck]
    cases hv : (nested (Region.upTo n).statement c.next).value with
    | error e =>
      rw [bind_of_error hv]
      rw [Accounts, hv] at hno
      refine (hyes.drop hno).congr ?_
      simp
    | ok no =>
      rw [bind_of_ok hv]
      rw [Accounts, hv] at hno
      show Account (Stmt.ifElse value yes no).errors
        (made ++ created ((nested _ c.next).trace ++ [])) _
      rw [Stmt.errors_ifElse, hvalue, List.nil_append, List.append_nil]
      refine (hyes.append hno).congr ?_
      simp

/-- The account of a conditional: beside what its branches lose, an error in the second one
throws away those of the first. -/
theorem ifStatement_accounts (hk : c.peek.kind = .ifWord) (hc : c.next.Allows n) :
    (ifStatement (.upTo n)).Accounts c.next (Loses n c) := by
  rw [ifStatement_eq]
  refine accounts_bind (obeys_condition quiet_composes (expression_quiet n) _ _) ?_ ?_
  · intro hno h
    cases h with
    | branch _ hm | yes _ hm | no _ hm => exact hno _ _ hm
    | whileBody hk' | forBody hk' | block hk' => exact absurd (hk.symm.trans hk') (by decide)
  intro value m hm
  have hreach := hm.reaches (obeys_condition frame_composes (expression_obeys frame_composes n) _ _)
  have hyes := region_accounts hs (hc.of_reaches hreach)
  refine Account.congr ?_ (loses_if_iff hk hm).symm
  cases hv : (nested (Region.upTo n).statement m).value with
  | error e =>
    rw [bind_of_error hv]
    rw [Accounts, hv] at hyes
    refine hyes.congr (or_iff_left ?_).symm
    rintro ⟨yes, i, hy, -⟩
    exact nomatch hv.symm.trans hy.1
  | ok yes =>
    have hy : (nested (Region.upTo n).statement).Yields m yes _ := ⟨hv, rfl⟩
    have hnested : (nested (Region.upTo n).statement).Obeys frame :=
      obeys_nested frame_composes (Region.obeys_upTo frame_recovers n).statement
    have hi := hc.of_reaches (hreach.trans (hy.reaches hnested))
    rw [Accounts, hv] at hyes
    rw [bind_of_ok hv]
    show Account _ (created (_ ++ _)) _
    rw [created_append]
    refine (elseBranch_accounts hs hi (condition_errors hc hm) hyes).congr (or_congr_right ?_)
    constructor
    · exact fun h => ⟨yes, _, hy, h⟩
    · rintro ⟨yes', i', hy', h⟩
      obtain ⟨rfl, rfl⟩ := hy.unique hy'
      exact h

/-- The account of any statement, from that of blocks. -/
theorem statement_accounts_of (hb : ∀ k, n = k + 1 → ∀ c, c.Allows k →
      (Region.upTo n).block.Accounts c
        (∃ d, Starts blockEnds (declaration (.upTo k)) c d ∧ ItemLoses k d))
    (hc : c.Allows n) : (statement (.upTo n)).Accounts c (Loses n c) := by
  have hnext := hc.of_reaches c.reaches_next
  refine accounts_kind_bind.2 ?_
  split
  · next hk =>
    refine accounts_take_bind.2 (.of_eq ?_ (not_loses_of_kind (by rw [hk]; decide)))
    refine kept_of_quiet (obeys_printStatement quiet_composes (expression_quiet n)) fun s d h => ?_
    obtain ⟨e, semicolon, rfl, -⟩ := printStatement_sound hnext h
    rw [Stmt.errors_print, e.tree_whole.errors]
  · next hk =>
    cases n with
    | zero =>
      refine accounts_take_bind.2 (accounts_nested_zero hnext fun h => ?_)
      cases h with
      | branch hk' => exact absurd (hk.symm.trans hk') (by decide)
    | succ k =>
      have hblock := accounts_nested hnext (hb k rfl _ hnext.deeper)
      exact accounts_take_bind.2 (hblock.congr (loses_block_iff hk).symm)
  · next hk => exact accounts_take_bind.2 (ifStatement_accounts hs hk hnext)
  · next hk => exact accounts_take_bind.2 (forStatement_accounts hs hk _ hnext)
  · next hk => exact accounts_take_bind.2 (whileStatement_accounts hs hk hnext)
  · next hblock hif hfor hwhile =>
    refine .of_eq ?_ (not_loses_of_kind ⟨hif, hwhile, hfor, hblock⟩)
    have hquiet := obeys_expressionStatement quiet_composes (expression_quiet n)
    refine kept_of_quiet hquiet fun s d h => ?_
    obtain ⟨e, semicolon, rfl, -⟩ := expressionStatement_sound hc h
    rw [Stmt.errors_expression, e.tree_whole.errors]

end

/-! ### The account of declarations -/

/-- A declaration keeps what its rule keeps; panic mode creates no errors. -/
theorem declaration_account {lost : Prop} (h : (item (.upTo n)).Accounts c lost) :
    Account (declaration (.upTo n) c).value.errors (created (declaration (.upTo n) c).trace)
      lost := by
  rw [declaration_eq]
  cases hv : (item (.upTo n) c).value with
  | ok s =>
    rw [recover_of_ok hv]
    rw [Accounts, hv] at h
    exact h
  | error e =>
    rw [recover_of_error hv, Stmt.errors_error]
    rw [Accounts, hv] at h
    show Account [e] (created ((item (.upTo n) c).trace ++ _)) lost
    rw [created_append]
    show Account [e] (created (item (.upTo n) c).trace ++ []) lost
    rw [List.append_nil]
    exact h

/-- The account of a declaration before it is recovered: values lose nothing. -/
theorem item_accounts (hc : c.Allows n)
    (hs : (statement (.upTo n)).Accounts c (Loses n c)) :
    (item (.upTo n)).Accounts c (ItemLoses n c) := by
  refine accounts_kind_bind.2 ?_
  split
  · next b hb =>
    have hend := Cursor.isAtEnd_eq_false hc.marker_kind (ne_eof_of_binding? hb)
    have hk := Cursor.passes_next hend
    refine accounts_take_bind.2 (.of_eq ?_ fun h => nomatch hb.symm.trans h.1)
    have hquiet := obeys_bindingStatement quiet_composes (expression_quiet n) b
    refine kept_of_quiet hquiet fun s d h => ?_
    obtain ⟨s, rfl, -⟩ := bindingStatement_sound hb hk (hc.of_passes hk) h
    exact s.tree_whole.errors
  · next hb => exact Account.congr hs ⟨fun h => ⟨hb, h⟩, And.right⟩

/-- The account of declarations in a row, by what each of them loses. -/
theorem declarations_account {lost : Cursor → Prop}
    (hi : ∀ c, c.Allows n → Account (declaration (.upTo n) c).value.errors
      (created (declaration (.upTo n) c).trace) (lost c))
    {more : List Token} (hc : c.Allows n) (hlen : c.rest.length ≤ more.length) :
    Account (Stmt.errorsOf (declarations (declaration (.upTo n)) more c).value)
      (created (declarations (declaration (.upTo n)) more c).trace)
      (∃ d, Starts blockEnds (declaration (.upTo n)) c d ∧ lost d) := by
  induction more generalizing c with
  | nil =>
    rw [declarations, Stmt.errorsOf_nil]
    refine .of_eq rfl fun h => ?_
    rw [exists_starts_iff, blockEnds, Cursor.isAtEnd_of_length_le hlen] at h
    exact absurd h.1 (by simp)
  | cons t more ih =>
    rw [declarations, exists_starts_iff, blockEnds]
    cases hend : c.isAtEnd || c.check .rightBrace with
    | true =>
      rw [if_pos rfl, Stmt.errorsOf_nil]
      exact .of_eq rfl fun h => absurd h.1 (by decide)
    | false =>
      have he : c.isAtEnd = false := (Bool.or_eq_false_iff.1 hend).1
      have hreach := declaration_obeys frame_recovers n c
      have hadd := hreach.position_add
      have hlt := declaration_advances n hc.marker_kind he
      rw [List.length_cons] at hlen
      have haccount := (hi c hc).append (ih (hc.of_reaches hreach) (by omega))
      rw [if_neg Bool.false_ne_true, Stmt.errorsOf_cons, created_append]
      exact haccount.congr (by simp)

/-- The error of an open block is kept: behind the others, or alone if there are
none. -/
theorem blockEnd_account {body : List Stmt} {made : List ParseError} {lost : Prop}
    (h : Account (Stmt.errorsOf body) made lost) :
    Account (kept (blockEnd body c).value) (made ++ created (blockEnd body c).trace) lost := by
  rw [blockEnd, nextIs_bind]
  cases hcheck : c.check .rightBrace with
  | true =>
    show Account (Stmt.block body).errors (made ++ []) lost
    rw [Stmt.errors_block, List.append_nil]
    exact h
  | false =>
    let e : ParseError := Complaint.openBlock.about c.peek
    have hend : Account (Stmt.errorsOf body ++ [e]) (made ++ [e]) lost :=
      (h.append (.of_eq rfl not_false)).congr (or_iff_left not_false)
    rw [if_neg Bool.false_ne_true, bind_of_ok (a := e) rfl]
    cases hb : body.any Stmt.hasErrors with
    | true =>
      show Account (Stmt.block (body ++ [.error e])).errors (made ++ [e]) lost
      rw [Stmt.errors_block, Stmt.errorsOf_append, Stmt.errorsOf_cons, Stmt.errors_error,
        Stmt.errorsOf_nil]
      exact hend
    | false =>
      show Account [e] (made ++ [e]) lost
      rw [(Stmt.any_hasErrors_eq_false_iff body).1 hb] at hend
      exact hend

/-- The account of a block is that of its declarations, with the error for a missing brace
behind them. -/
theorem block_accounts_of
    (hi : ∀ c, c.Allows n → Account (declaration (.upTo n) c).value.errors
      (created (declaration (.upTo n) c).trace) (ItemLoses n c)) (hc : c.Allows n) :
    (block (.upTo n)).Accounts c
      (∃ d, Starts blockEnds (declaration (.upTo n)) c d ∧ ItemLoses n d) := by
  let d := declarations (declaration (.upTo n)) c.rest c
  rw [Accounts, block_eq, bind_of_ok (a := d.value) rfl]
  show Account _ (created ((declarations (declaration (.upTo n)) c.rest c).trace ++ _)) _
  rw [created_append]
  exact blockEnd_account (declarations_account hi hc (Nat.le_refl _))

/-- **What a statement keeps of its errors.** -/
theorem statement_accounts (n : Nat) :
    (∀ c, c.Allows n → (statement (.upTo n)).Accounts c (Loses n c)) ∧
      ∀ c, c.Allows n → (block (.upTo n)).Accounts c
        (∃ d, Starts blockEnds (declaration (.upTo n)) c d ∧ ItemLoses n d) := by
  have hblock {n : Nat} (hs : ∀ c, c.Allows n → (statement (.upTo n)).Accounts c (Loses n c))
      (c : Cursor) (hc : c.Allows n) := block_accounts_of (c := c)
    (fun i hi => declaration_account (item_accounts hi (hs i hi))) hc
  induction n with
  | zero =>
    have hs (c : Cursor) (hc : c.Allows 0) : (statement (.upTo 0)).Accounts c (Loses 0 c) :=
      statement_accounts_of (fun k hk => nomatch hk) (fun k hk => nomatch hk) hc
    exact ⟨hs, hblock hs⟩
  | succ n ih =>
    have hs (c : Cursor) (hc : c.Allows (n + 1)) :
        (statement (.upTo (n + 1))).Accounts c (Loses (n + 1) c) :=
      statement_accounts_of (fun k hk => Nat.succ.inj hk ▸ ih.1)
        (fun k hk => Nat.succ.inj hk ▸ ih.2) hc
    exact ⟨hs, hblock hs⟩

end Rule
end LoxFront
