/-
# Statements that do not look beyond their end

A list of tokens ends at the limit on one side and goes on with other tokens on
the other.  A rule that ends by passing a token reads the same on both sides, even
if that token is the last one (`Rule.Closes`).  A statement can look for one more
token, an `else`, or miss one at the end, which it then complains about; so a
statement without errors at the end marker reads the same with anything but `else`
behind (`Rule.statement_local`), and so does a declaration that fails before the
last semicolon (`Rule.declaration_local`).
-/

import LoxFront.Proofs.Rule.Shared

namespace LoxFront

/-- No error stands at an end marker. -/
def BeforeEnd (errors : List ParseError) : Prop := ∀ x ∈ errors, x.token.kind ≠ .eof

/-- Errors in two rows stand before the end if those of each row do. -/
theorem BeforeEnd.append {a b : List ParseError} :
    BeforeEnd (a ++ b) ↔ BeforeEnd a ∧ BeforeEnd b := List.forall_mem_append

namespace Cursor

variable {more : List Token} {limit : Nat} {c d m : Cursor}

/-- A token that is at hand behind the first cursor is before the limit. -/
theorem Shares.lt_limit (h : c.Shares [] more limit d) (hm : c.Reaches m)
    (he : m.isAtEnd = false) : m.position < limit := by
  obtain ⟨u, hc, -, hlen⟩ := h.text
  have hadd := hm.position_add
  have hpos := (passes_next he).length
  rw [List.length_singleton] at hpos
  rw [hc, List.append_nil] at hadd
  omega

/-- Two cursors share the next token if there is one before the limit. -/
theorem Shares.peek_of (h : c.Shares [] more limit d) (he : c.isAtEnd = false) :
    c.peek = d.peek ∧ d.isAtEnd = false :=
  ⟨h.peek (h.position_lt_iff.2 he), (h.isAtEnd (h.position_lt_iff.2 he)).2⟩

/-- Without an `else` at the limit there is one on both sides or on none. -/
theorem Shares.check_else (h : c.Shares [] more limit d)
    (helse : ∀ t ∈ more.head?, t.kind ≠ .elseWord) : d.check .elseWord = c.check .elseWord := by
  cases he : c.isAtEnd with
  | false =>
    obtain ⟨hpeek, hd⟩ := h.peek_of he
    rw [check, check, he, hd, hpeek]
  | true =>
    obtain ⟨u, hc, hd, -⟩ := h.text
    rw [List.append_nil, rest_eq_nil he] at hc
    rw [← hc, List.nil_append] at hd
    rw [check, check, he, Cursor.isAtEnd, Cursor.peek, hd]
    cases more with
    | nil => rfl
    | cons t more => simpa using helse t rfl

end Cursor

namespace Rule

variable {α β : Type} {more : List Token} {limit n : Nat} {c d m : Cursor}

/-- What the rule reads up to the limit it reads on both sides. -/
theorem Alike.reads_on [Likeness α] {rule : Rule α} {a : α}
    (hr : rule.Alike (.upTo [] more limit) rule) (h : c.Shares [] more limit d)
    (hm : rule.Yields c a m) (he : m.isAtEnd = false) :
    ∃ m', rule.Yields d a m' ∧ m.Shares [] more limit m' :=
  hr.yields h hm (h.lt_limit (hm.reaches fun c => (hr.telling c).1) he)

/-! ### Rules that end by passing a token -/

/-- From here the rule needs a token, and what it reads it reads with any tokens
behind. -/
def Closes (r : Rule α) (c : Cursor) : Prop :=
  ∀ a e, r.Yields c a e → c.isAtEnd = false ∧
    ∀ more limit d, c.Shares [] more limit d → ∃ e', r.Yields d a e' ∧ e.Shares [] more limit e'

/-- A rule before one that closes needs no care. -/
theorem closes_bind [Likeness α] {r : Rule α} {f : α → Rule β}
    (hr : ∀ more limit, r.Alike (.upTo [] more limit) r)
    (hf : ∀ a m, r.Yields c a m → (f a).Closes m) : (r >>= f).Closes c := by
  intro b e h
  obtain ⟨a, m, ha, hb⟩ := yields_bind.1 h
  obtain ⟨hm, hboth⟩ := hf a m ha b e hb
  refine ⟨?_, fun more limit d hd => ?_⟩
  · exact (ha.reaches fun c => ((hr [] 0).telling c).1).isAtEnd_eq_false hm
  · obtain ⟨m', ha', hm'⟩ := (hr more limit).reads_on hd ha hm
    obtain ⟨e', hb', he'⟩ := hboth more limit m' hm'
    exact ⟨e', yields_bind.2 ⟨a, m', ha', hb'⟩, he'⟩

/-- Looking at the next kind leaves it to the rest to pass a token. -/
theorem closes_kind_bind {f : Kind → Rule β} (h : (f c.peek.kind).Closes c) :
    (kind >>= f).Closes c := by
  intro b e hb
  obtain ⟨hc, hboth⟩ := h b e (yields_kind_bind.1 hb)
  refine ⟨hc, fun more limit d hd => ?_⟩
  obtain ⟨e', hb', he'⟩ := hboth more limit d hd
  exact ⟨e', yields_kind_bind.2 ((hd.peek_of hc).1 ▸ hb'), he'⟩

/-- A rule that takes a token and gives a value closes with it. -/
theorem closes_take {f : Token → α} (hc : c.isAtEnd = false) :
    (take >>= fun t => pure (f t)).Closes c := by
  intro b e hb
  obtain ⟨t, m, ht, hb⟩ := yields_bind.1 hb
  obtain ⟨rfl, rfl⟩ := yields_take.1 ht
  obtain ⟨rfl, rfl⟩ := yields_pure.1 hb
  refine ⟨hc, fun more limit d hd => ⟨d.next, ?_, hd.next (hd.position_lt_iff.2 hc)⟩⟩
  exact yields_bind.2 ⟨_, _, yields_take.2 ⟨(hd.peek_of hc).1, rfl⟩, yields_pure.2 ⟨rfl, rfl⟩⟩

/-- A rule that expects a token and gives a value closes with it. -/
theorem closes_expect {k : Kind} {x : Complaint} {f : Token → α} :
    (expect k x >>= fun t => pure (f t)).Closes c := by
  intro b e hb
  obtain ⟨t, m, ht, hb⟩ := yields_bind.1 hb
  obtain ⟨rfl, rfl⟩ := yields_pure.1 hb
  obtain ⟨hk, hp⟩ := yields_expect.1 ht
  obtain ⟨hhead, rfl⟩ := Cursor.passes_singleton_iff.1 hp
  refine ⟨hp.isAtEnd, fun more limit d hd =>
    ⟨d.next, ?_, hd.next (hd.position_lt_iff.2 hp.isAtEnd)⟩⟩
  obtain ⟨hpeek, hd⟩ := hd.peek_of hp.isAtEnd
  have hp' := Cursor.passes_next hd
  rw [← hpeek, hp.peek] at hp'
  exact yields_bind.2 ⟨t, _, yields_expect.2 ⟨hk, hp'⟩, yields_pure.2 ⟨rfl, rfl⟩⟩

/-- A complaint reads nothing, so there is nothing to close. -/
theorem closes_fail {k : Complaint} : (fail k : Rule α).Closes c :=
  fun _ _ h => absurd h not_yields_fail

/-- Print statements close with their semicolon. -/
theorem closes_printStatement : (printStatement (.upTo n)).Closes c :=
  closes_bind (fun _ _ => expression_alike Comparison.upTo_lawful n) fun _ _ _ => closes_expect

/-- Expression statements close with their semicolon. -/
theorem closes_expressionStatement : (expressionStatement (.upTo n)).Closes c :=
  closes_bind (fun _ _ => expression_alike Comparison.upTo_lawful n) fun _ _ _ => closes_expect

/-- Declarations close with their semicolon. -/
theorem closes_bindingStatement (hm : c.marker.kind = .eof) (b : Binding) :
    (bindingStatement (.upTo n) b).Closes c := by
  have hC (more : List Token) (limit : Nat) : (Comparison.upTo [] more limit).Lawful :=
    Comparison.upTo_lawful
  refine closes_bind (fun _ _ => alike_expect (hC _ _) _ _) fun name m hname => closes_kind_bind ?_
  have hmarker : m.marker.kind = .eof := by rw [(yields_expect.1 hname).2.marker, hm]
  split
  · next hk =>
    exact closes_take (Cursor.isAtEnd_eq_false hmarker (by rw [hk]; decide))
  · refine closes_bind (fun _ _ => alike_take (hC _ _)) fun _ _ _ => ?_
    refine closes_bind (fun _ _ => alike_nextIs (hC _ _) _) fun omitted _ _ => ?_
    split
    · exact closes_expect
    · exact closes_bind (fun _ _ => expression_alike (hC _ _) n) fun _ _ _ => closes_expect
  · exact closes_fail

/-- Conditions close with their parenthesis. -/
theorem closes_condition {opening closing : Complaint} :
    (condition (.upTo n) opening closing).Closes c :=
  closes_bind (fun _ _ => alike_expect Comparison.upTo_lawful _ _) fun _ _ _ =>
    closes_bind (fun _ _ => expression_alike Comparison.upTo_lawful n) fun _ _ _ => closes_expect

/-- The clauses of a loop close with their parenthesis. -/
theorem closes_clauses : (clauses (.upTo n)).Closes c := by
  have hC (more : List Token) (limit : Nat) : (Comparison.upTo [] more limit).Lawful :=
    Comparison.upTo_lawful
  have hx (more : List Token) (limit : Nat) := expression_alike (hC more limit) n
  refine closes_bind (fun _ _ => alike_expect (hC _ _) _ _) fun _ _ _ => ?_
  refine closes_bind (fun _ _ => alike_initialClause (hC _ _) (hx _ _)) fun _ _ _ => ?_
  refine closes_bind (fun _ _ => alike_optional (hC _ _) (hx _ _) _) fun _ _ _ => ?_
  refine closes_bind (fun _ _ => alike_expect (hC _ _) _ _) fun _ _ _ => ?_
  refine closes_bind (fun _ _ => alike_optional (hC _ _) (hx _ _) _) fun _ _ _ => ?_
  exact closes_expect

/-! ### Statements -/

/-- What the rule reads at `c` without errors at the end marker it reads at `d`, and
the cursors behind it share what is left. -/
def ReadsOn (more : List Token) (limit : Nat) (r : Rule Stmt) (c d : Cursor) : Prop :=
  ∀ s e, r.Yields c s e → BeforeEnd s.errors → ∃ e', r.Yields d s e' ∧ e.Shares [] more limit e'

/-- A rule that closes reads the same with other tokens behind. -/
theorem readsOn_of_closes {r : Rule Stmt} (hr : r.Closes c) (h : c.Shares [] more limit d) :
    r.ReadsOn more limit c d :=
  fun _ _ hy _ => (hr _ _ hy).2 _ _ _ h

/-- A complaint reads nothing on either side. -/
theorem readsOn_fail {k : Complaint} : (fail k : Rule Stmt).ReadsOn more limit c d :=
  fun _ _ h => absurd h not_yields_fail

/-- A token taken before the limit is the same on both sides. -/
theorem readsOn_take_bind {f : Token → Rule Stmt} (h : c.Shares [] more limit d)
    (hc : c.isAtEnd = false)
    (hf : c.next.Shares [] more limit d.next → (f c.peek).ReadsOn more limit c.next d.next) :
    (take >>= f).ReadsOn more limit c d := by
  intro s e hy he
  obtain ⟨t, m, ht, hy⟩ := yields_bind.1 hy
  obtain ⟨rfl, rfl⟩ := yields_take.1 ht
  obtain ⟨e', hy', he'⟩ := hf (h.next (h.position_lt_iff.2 hc)) s e hy he
  exact ⟨e', yields_bind.2 ⟨_, _, yields_take.2 ⟨(h.peek_of hc).1, rfl⟩, hy'⟩, he'⟩

/-- A rule in a region reads on as it does inside. -/
theorem readsOn_nested {r : Rule Stmt} (h : c.Shares [] more limit d)
    (hr : r.ReadsOn more limit c.deeper d.deeper) : (nested r).ReadsOn more limit c d := by
  intro s e hy he
  obtain ⟨hdepth, m, hm, rfl⟩ := yields_nested.1 hy
  obtain ⟨m', hm', hshares⟩ := hr s m hm he
  exact ⟨m'.ascend, yields_nested.2 ⟨by rw [h.depth]; exact hdepth, m', hm', rfl⟩, hshares.ascend⟩

/-- A rule behind one that closes. -/
theorem readsOn_closes_bind {r : Rule α} {f : α → Rule Stmt} (h : c.Shares [] more limit d)
    (hr : r.Closes c)
    (hf : ∀ a m m', m.Shares [] more limit m' → (f a).ReadsOn more limit m m') :
    (r >>= f).ReadsOn more limit c d := by
  intro s e hy he
  obtain ⟨a, m, ha, hy⟩ := yields_bind.1 hy
  obtain ⟨m', ha', hm'⟩ := (hr a m ha).2 _ _ _ h
  obtain ⟨e', hy', he'⟩ := hf a m m' hm' s e hy he
  exact ⟨e', yields_bind.2 ⟨a, m', ha', hy'⟩, he'⟩

/-- A rule behind a statement that becomes part of another one. -/
theorem readsOn_bind {r : Rule Stmt} {f : Stmt → Rule Stmt} (hr : r.ReadsOn more limit c d)
    (hpart : ∀ t m s e, (f t).Yields m s e → BeforeEnd s.errors → BeforeEnd t.errors)
    (hf : ∀ t m m', m.Shares [] more limit m' → (f t).ReadsOn more limit m m') :
    (r >>= f).ReadsOn more limit c d := by
  intro s e hy he
  obtain ⟨t, m, ht, hy⟩ := yields_bind.1 hy
  obtain ⟨m', ht', hm'⟩ := hr t m ht (hpart t m s e hy he)
  obtain ⟨e', hy', he'⟩ := hf t m m' hm' s e hy he
  exact ⟨e', yields_bind.2 ⟨t, m', ht', hy'⟩, he'⟩

/-- Giving a value reads on. -/
theorem readsOn_pure {s : Stmt} (h : c.Shares [] more limit d) :
    (pure s : Rule Stmt).ReadsOn more limit c d := by
  intro t e hy _
  obtain ⟨rfl, rfl⟩ := yields_pure.1 hy
  exact ⟨d, yields_pure.2 ⟨rfl, rfl⟩, h⟩

/-- The rule reads on from all cursors that share their tokens, unless an `else`
stands at the limit. -/
def Local (r : Rule Stmt) : Prop :=
  ∀ {more : List Token} {limit : Nat} {c d : Cursor}, (∀ t ∈ more.head?, t.kind ≠ .elseWord) →
    c.Shares [] more limit d → r.ReadsOn more limit c d

/-- A branch that is the last part of a statement. -/
theorem readsOn_lastBranch (helse : ∀ t ∈ more.head?, t.kind ≠ .elseWord) {r : Rule Stmt}
    (hr : r.Local) (h : c.Shares [] more limit d) {f : Stmt → Stmt}
    (hf : ∀ t, BeforeEnd (f t).errors → BeforeEnd t.errors) :
    (nested r >>= fun t => pure (f t)).ReadsOn more limit c d := by
  refine readsOn_bind (readsOn_nested h (hr helse h.deeper)) (fun t m s e hy he => ?_)
    fun _ _ _ => readsOn_pure
  obtain ⟨rfl, -⟩ := yields_pure.1 hy
  exact hf t he

/-- Errors of the first branch are errors of the whole statement. -/
theorem errors_elseBranch {inner : Region} {v : Expr} {yes s : Stmt} {e : Cursor}
    (h : (elseBranch inner v yes).Yields c s e) (he : BeforeEnd s.errors) :
    BeforeEnd yes.errors := by
  rw [elseBranch, yields_nextIs_bind] at h
  split at h
  · obtain ⟨_, _, -, h⟩ := yields_bind.1 h
    obtain ⟨no, _, -, h⟩ := yields_bind.1 h
    obtain ⟨rfl, -⟩ := yields_pure.1 h
    rw [Stmt.errors_ifElse] at he
    exact (BeforeEnd.append.1 (BeforeEnd.append.1 he).2).1
  · obtain ⟨rfl, -⟩ := yields_pure.1 h
    rw [Stmt.errors_ifThen] at he
    exact (BeforeEnd.append.1 he).2

/-- An `else`, or its absence, is local if the statements in regions are. -/
theorem elseBranch_local {inner : Region} (hs : inner.statement.Local) (v : Expr) (yes : Stmt) :
    (elseBranch inner v yes).Local := by
  intro more limit c d helse h s e hy he
  rw [elseBranch, yields_nextIs_bind] at hy
  simp only [elseBranch, yields_nextIs_bind, h.check_else helse]
  revert s e
  cases hk : c.check .elseWord with
  | true =>
    refine readsOn_take_bind h (Cursor.check_eq_true_iff.1 hk).1 fun hnext => ?_
    refine readsOn_lastBranch helse hs hnext fun t ht => ?_
    rw [Stmt.errors_ifElse] at ht
    exact (BeforeEnd.append.1 (BeforeEnd.append.1 ht).2).2
  | false => exact readsOn_pure h

/-- Conditionals are local if the statements in regions are. -/
theorem ifStatement_local (hs : (Region.upTo n).statement.Local) :
    (ifStatement (.upTo n)).Local := by
  intro more limit c d helse h
  rw [ifStatement_eq]
  refine readsOn_closes_bind h closes_condition fun v m m' hm => ?_
  refine readsOn_bind (readsOn_nested hm (hs helse hm.deeper)) (fun yes i s e => errors_elseBranch)
    fun yes i i' hi => elseBranch_local hs v yes helse hi

/-- Loops are local if the statements in regions are. -/
theorem whileStatement_local (hs : (Region.upTo n).statement.Local) :
    (whileStatement (.upTo n)).Local := by
  intro more limit c d helse h
  rw [whileStatement_eq]
  refine readsOn_closes_bind h closes_condition fun v m m' hm => ?_
  refine readsOn_lastBranch helse hs hm fun body he => ?_
  rw [Stmt.errors_whileLoop] at he
  exact (BeforeEnd.append.1 he).2

/-- `for` loops are local if the statements in regions are. -/
theorem forStatement_local (hs : (Region.upTo n).statement.Local) (keyword : Token) :
    (forStatement (.upTo n) keyword).Local := by
  intro more limit c d helse h
  rw [forStatement_eq]
  refine readsOn_closes_bind h closes_clauses fun head m m' hm => ?_
  refine readsOn_lastBranch helse hs hm fun body he => ?_
  rw [Stmt.errors_forLoop] at he
  exact (BeforeEnd.append.1 (BeforeEnd.append.1 (BeforeEnd.append.1 he).2).2).1

/-- A block with no error at the end marker is closed, so its end is before the
limit. -/
theorem block_local : (block (.upTo n)).Local := by
  intro more limit c d _ h s e hy he
  rw [block_eq] at hy ⊢
  obtain ⟨body, m, hbody, hend⟩ := yields_bind.1 hy
  have hstop := declarations_stop n h.marker (Nat.le_refl c.rest.length)
  have hm : (declarations (declaration (.upTo n)) c.rest c).cursor = m := hbody.2
  rw [hm] at hstop
  have hclosed : m.check .rightBrace = true := by
    refine Bool.of_not_eq_false fun hopen => ?_
    have hmarker : m.peek.kind = .eof := by
      rw [Cursor.peek_eq_marker (hstop.resolve_right (by simp [hopen])), ← hm,
        (obeys_declarations frame_composes (declaration_obeys frame_recovers n) c.rest c).marker]
      exact h.marker
    obtain ⟨-, -, rfl, -⟩ := (yields_blockEnd.1 hend).resolve_left (by simp [hopen])
    refine he (Complaint.openBlock.about m.peek) ?_ hmarker
    simp
  have hmend := (Cursor.check_eq_true_iff.1 hclosed).1
  have hC : (Comparison.upTo [] more limit).Lawful := Comparison.upTo_lawful
  obtain ⟨m', hbody', hm'⟩ := (alike_body hC (item_alike hC n)).reads_on h hbody hmend
  have hclosed' : m'.check .rightBrace = true :=
    (check_eq hC ⟨hm', hm'.position_lt_iff.2 hmend⟩ .rightBrace).symm.trans hclosed
  have hreads : (blockEnd body).ReadsOn more limit m m' := by
    intro t i
    rw [blockEnd, yields_nextIs_bind, hclosed]
    simp only [yields_nextIs_bind, hclosed']
    exact readsOn_take_bind hm' hmend readsOn_pure t i
  obtain ⟨e', hend', he'⟩ := hreads s e hend he
  exact ⟨e', yields_bind.2 ⟨body, m', hbody', hend'⟩, he'⟩

/-- Statements are local if blocks and the statements in regions are. -/
theorem statement_local_of (hb : (Region.upTo n).block.Local)
    (hs : (Region.upTo n).statement.Local) : (statement (.upTo n)).Local := by
  intro more limit c d helse h s e hy
  have hlt := statement_advances h.marker hy
  have hc : c.isAtEnd = false := (hy.reaches
    (Region.obeys_upTo frame_recovers (n + 1)).statement).isAtEnd_of_lt hlt
  rw [statement, yields_kind_bind] at hy
  simp only [statement, yields_kind_bind, ← (h.peek_of hc).1]
  clear hlt
  revert s e
  cases c.peek.kind with
  | printWord =>
    exact readsOn_take_bind h hc fun hnext => readsOn_of_closes closes_printStatement hnext
  | leftBrace =>
    exact readsOn_take_bind h hc fun hnext => readsOn_nested hnext (hb helse hnext.deeper)
  | ifWord => exact readsOn_take_bind h hc fun hnext => ifStatement_local hs helse hnext
  | forWord => exact readsOn_take_bind h hc fun hnext => forStatement_local hs _ helse hnext
  | whileWord => exact readsOn_take_bind h hc fun hnext => whileStatement_local hs helse hnext
  | _ => exact readsOn_of_closes closes_expressionStatement h

/-- So they are in any number of regions. -/
theorem region_local (n : Nat) : (Region.upTo n).statement.Local ∧ (Region.upTo n).block.Local := by
  induction n with
  | zero => exact ⟨fun _ _ => readsOn_fail, fun _ _ => readsOn_fail⟩
  | succ n ih => exact ⟨statement_local_of ih.2 ih.1, block_local⟩

/-- **A statement does not look beyond its end**, but for an `else`. -/
theorem statement_local (n : Nat) : (statement (.upTo n)).Local :=
  statement_local_of (region_local n).2 (region_local n).1

/-- Declarations before they are recovered are local, whatever the number of regions. -/
theorem item_local (n : Nat) : (item (.upTo n)).Local := by
  intro more limit c d helse h s e hy
  have hc : c.isAtEnd = false :=
    (hy.reaches (item_obeys frame_recovers n)).isAtEnd_of_lt (item_advances h.marker hy)
  rw [item, yields_kind_bind] at hy
  simp only [item, yields_kind_bind, ← (h.peek_of hc).1]
  revert s e
  cases hb : binding? c.peek.kind with
  | none => exact statement_local n helse h
  | some b =>
    exact readsOn_take_bind h hc fun hnext =>
      readsOn_of_closes (closes_bindingStatement hnext.marker b) hnext

/-! ### Declarations -/

/-- A rule that fails stands at the token of its error. -/
def failing : Law := fun _ o d _ => ∀ x ∈ o, x.token = d.peek

/-- Panic mode ends with no error, so it keeps the law. -/
theorem failing_recovers : Law.Recovers failing where
  stay _ := fun x hx => nomatch hx
  step _ := fun x hx => nomatch hx
  returned _ := fun x hx => nomatch hx
  failed c k := fun x hx => by rw [← Option.some.inj hx]; rfl
  trans _ h := h
  region _ h := h
  entered _ := fun x hx => nomatch hx
  panicked _ := fun x hx => nomatch hx
  unclosed _ := fun x hx => nomatch hx

/-- **A declaration does not look beyond its end**, but for an `else`, and one that
fails does not lead beyond the last semicolon. -/
theorem declaration_local (helse : ∀ t ∈ more.head?, t.kind ≠ .elseWord)
    (h : c.Shares [] more limit d) (he : BeforeEnd (declaration (.upTo n) c).value.errors)
    (hlast : (declaration (.upTo n) c).value.errors = [] ∨
      ∀ t ∈ c.rest.getLast?, t.kind = .semicolon) :
    (declaration (.upTo n) d).value = (declaration (.upTo n) c).value ∧
      (declaration (.upTo n) c).cursor.Shares [] more limit (declaration (.upTo n) d).cursor := by
  rw [declaration_eq] at he hlast ⊢
  cases hv : (item (.upTo n) c).value with
  | ok s =>
    rw [recover_of_ok hv] at he ⊢
    obtain ⟨e', ⟨hv', rfl⟩, hshares⟩ := item_local n helse h s _ ⟨hv, rfl⟩ he
    rw [recover_of_ok hv']
    exact ⟨rfl, hshares⟩
  | error x =>
    rw [recover_of_error hv] at he hlast ⊢
    have hreach := item_obeys frame_recovers n c
    have hx : x.token = (item (.upTo n) c).cursor.peek :=
      item_obeys failing_recovers n c x (by rw [hv]; rfl)
    generalize hm : (item (.upTo n) c).cursor = m at hreach hx
    have hmend : m.isAtEnd = false := by
      refine Cursor.isAtEnd_eq_false (by rw [hreach.marker, h.marker]) ?_
      rw [← hx]
      exact he x (by simp)
    obtain ⟨hv', hshares⟩ := (item_alike Comparison.upTo_lawful n).agree h
      (hm ▸ h.lt_limit hreach hmend)
    rw [recover_of_error (hv'.trans hv)]
    rw [hm] at hshares
    refine ⟨rfl, hm ▸ hshares.resume (List.append_nil _).symm ?_⟩
    -- the last token left is the last of the list
    obtain ⟨p, hp⟩ := hreach
    have hsemicolon := hlast.resolve_left (by simp)
    rw [hp.rest, List.getLast?_append] at hsemicolon
    have hne : m.rest ≠ [] := by simpa [Cursor.isAtEnd] using hmend
    rw [List.getLast?_eq_getLast_of_ne_nil hne] at hsemicolon
    exact ⟨_, List.getLast_mem hne, hsemicolon _ rfl⟩

end Rule
end LoxFront
