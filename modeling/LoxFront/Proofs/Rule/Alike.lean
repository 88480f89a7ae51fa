/-
# Two runs of a rule

Two runs of the rules from different cursors are compared (`Comparison`): as long
as they see tokens of the same kinds they give values that are alike, stop at
cursors that are compared again and tell of the same things, unless they come to
a place from which on they need not be compared.  A comparison that single steps
keep (`Comparison.Lawful`) is kept by every rule (`Region.alike_upTo`).
-/

import LoxFront.Proofs.Parse.Faults
import LoxFront.Proofs.Tree.Like

namespace LoxFront

/-- How two runs are compared. -/
structure Comparison where
  /-- Tokens that may stand for one another. -/
  tokens : Token → Token → Prop
  /-- Places from which on the runs go the same way. -/
  cursors : Cursor → Cursor → Prop
  traces : List Event → List Event → Prop
  /-- The runs may have gone different ways, the first with these events up to this
  place, the other with those events. -/
  apart : List Event → Cursor → List Event → Prop

namespace Comparison

/-- The results of two runs are alike, or the runs are apart. -/
def Alike {α : Type} [Likeness α] (C : Comparison) (p q : Parsed α) : Prop :=
  (Like C.tokens p.value q.value ∧ C.cursors p.cursor q.cursor ∧ C.traces p.trace q.trace) ∨
    C.apart p.trace p.cursor q.trace

/-- The steps of rules keep the comparison, and runs that are apart stay apart. -/
structure Lawful (C : Comparison) : Prop where
  refl (t : Token) : C.tokens t t
  kind {s t : Token} : C.tokens s t → s.kind = t.kind
  /-- The condition of a `for` loop without one takes its line from the keyword. -/
  line {s t : Token} : C.tokens s t →
    C.tokens ⟨.trueWord, "true", s.line, .none⟩ ⟨.trueWord, "true", t.line, .none⟩
  peek {c d : Cursor} : C.cursors c d → C.tokens c.peek d.peek
  isAtEnd {c d : Cursor} : C.cursors c d → d.isAtEnd = c.isAtEnd
  depth {c d : Cursor} : C.cursors c d → d.depth = c.depth
  marker {c d : Cursor} : C.cursors c d → c.marker.kind = .eof ∧ d.marker.kind = .eof
  deeper {c d : Cursor} : C.cursors c d → C.cursors c.deeper d.deeper
  ascend {c d : Cursor} : C.cursors c d → C.cursors c.ascend d.ascend
  next {c d : Cursor} : C.cursors c d → C.cursors c.next d.next ∨ C.apart [] c.next []
  resume {c d : Cursor} : C.cursors c d →
    (C.cursors c.resume d.resume ∧ C.traces [.resumed (c.resume.position - c.position)]
      [.resumed (d.resume.position - d.position)]) ∨
    C.apart [.resumed (c.resume.position - c.position)] c.resume
      [.resumed (d.resume.position - d.position)]
  nil : C.traces [] []
  event (f : Nat → Token → Event) {c d : Cursor} :
    C.cursors c d → C.traces [f c.position c.peek] [f d.position d.peek]
  append {t t' u u' : List Event} : C.traces t t' → C.traces u u' → C.traces (t ++ u) (t' ++ u')
  before {t t' u u' : List Event} {d : Cursor} :
    C.traces t t' → C.apart u d u' → C.apart (t ++ u) d (t' ++ u')
  after {t t' u u' : List Event} {d e : Cursor} :
    C.apart t d t' → Rule.telling d none e u → C.apart (t ++ u) e (t' ++ u')
  apart_ascend {t t' : List Event} {d : Cursor} : C.apart t d t' → C.apart t d.ascend t'

end Comparison

namespace Rule

variable {α β : Type} {C : Comparison}

/-- Runs of the two rules from cursors that are compared are alike, and the first
rule tells of what is at or behind its cursor. -/
structure Alike [Likeness α] (C : Comparison) (r s : Rule α) : Prop where
  telling : r.Obeys telling
  run {c d : Cursor} : C.cursors c d → C.Alike (r c) (s d)

/-! ### One rule after another -/

/-- What is read behind a rule comes behind it in the trace. -/
theorem exists_trace_bind {r : Rule α} {f : α → Rule β} (c : Cursor) :
    ∃ u, ((r >>= f) c).trace = (r c).trace ++ u ∧
      ((∀ a, (f a).Obeys telling) → telling (r c).cursor none ((r >>= f) c).cursor u) := by
  cases hv : (r c).value with
  | error e =>
    refine ⟨[], ?_, fun _ => ?_⟩
    · rw [bind_of_error hv, List.append_nil]
    · rw [bind_of_error hv]
      exact telling_recovers.stay _
  | ok a =>
    refine ⟨(f a (r c).cursor).trace, ?_, fun h => ?_⟩
    · rw [bind_of_ok hv]
      rfl
    · rw [bind_of_ok hv]
      exact h a _

variable [Likeness α] [Likeness β] {r s : Rule α} {f g : α → Rule β} {c d : Cursor}

/-- Two rules one after another, from cursors that are compared. -/
theorem alike_bind_at (hC : C.Lawful) (hr : C.Alike (r c) (s d)) (hf : ∀ a, (f a).Obeys telling)
    (h : ∀ a b e e', r.Yields c a e → s.Yields d b e' → Like C.tokens a b → C.cursors e e' →
      C.Alike (f a e) (g b e')) : C.Alike ((r >>= f) c) ((s >>= g) d) := by
  rcases hr with ⟨hv, hcursor, htrace⟩ | hapart
  · cases hrv : (r c).value with
    | error x =>
      rw [hrv] at hv
      generalize hsv : (s d).value = w at hv
      cases hv with
      | error hx =>
        rw [bind_of_error hrv, bind_of_error hsv]
        exact .inl ⟨.error hx, hcursor, htrace⟩
    | ok a =>
      rw [hrv] at hv
      generalize hsv : (s d).value = w at hv
      cases hv with
      | ok hab =>
        have hrest := h _ _ _ _ ⟨hrv, rfl⟩ ⟨hsv, rfl⟩ hab hcursor
        rw [bind_of_ok hrv, bind_of_ok hsv]
        rcases hrest with ⟨hw, hend, hu⟩ | hapart
        · exact .inl ⟨hw, hend, hC.append htrace hu⟩
        · exact .inr (hC.before htrace hapart)
  · obtain ⟨u, hu, htelling⟩ := exists_trace_bind (r := r) (f := f) c
    obtain ⟨u', hu', -⟩ := exists_trace_bind (r := s) (f := g) d
    refine .inr ?_
    rw [hu, hu']
    exact hC.after hapart (htelling hf)

/-- Rules that are alike, and go on alike from like values, are alike together. -/
theorem alike_bind (hC : C.Lawful) (hr : r.Alike C s)
    (hf : ∀ a b, Like C.tokens a b → (f a).Alike C (g b)) : (r >>= f).Alike C (s >>= g) := by
  have htelling (a : α) : (f a).Obeys telling := (hf a a (Likeness.refl hC.refl a)).telling
  exact ⟨obeys_bind telling_recovers.toComposes hr.telling htelling, fun h =>
    alike_bind_at hC (hr.run h) htelling fun a b _ _ _ _ hab hcursor => (hf a b hab).run hcursor⟩

/-! ### Single steps -/

/-- Giving like values is alike. -/
theorem alike_pure (hC : C.Lawful) {a b : α} (h : Like C.tokens a b) :
    (pure a : Rule α).Alike C (pure b) :=
  ⟨obeys_pure telling_recovers.toComposes a, fun hcursor => .inl ⟨.ok h, hcursor, hC.nil⟩⟩

/-- Ending with like errors is alike. -/
theorem alike_raise (hC : C.Lawful) {x y : ParseError} (h : x.Like C.tokens y) :
    (raise x : Rule α).Alike C (raise y) :=
  ⟨fun c => telling_recovers.stay c, fun hcursor => .inl ⟨.error h, hcursor, hC.nil⟩⟩

/-- Looking at the next kind is alike: compared cursors show the same. -/
theorem alike_kind (hC : C.Lawful) : kind.Alike C kind :=
  ⟨obeys_kind telling_recovers.toComposes, fun h =>
    .inl ⟨.ok (hC.kind (hC.peek h)), h, hC.nil⟩⟩

/-- A check comes out the same at compared cursors. -/
theorem check_eq (hC : C.Lawful) (h : C.cursors c d) (k : Kind) : c.check k = d.check k := by
  rw [Cursor.check, Cursor.check, hC.isAtEnd h, hC.kind (hC.peek h)]

/-- Asking for a kind is alike. -/
theorem alike_nextIs (hC : C.Lawful) (k : Kind) : (nextIs k).Alike C (nextIs k) :=
  ⟨obeys_nextIs telling_recovers.toComposes k, fun h => .inl ⟨.ok (check_eq hC h k), h, hC.nil⟩⟩

/-- Taking the next token is alike. -/
theorem alike_take (hC : C.Lawful) : take.Alike C take := by
  refine ⟨obeys_take telling_recovers.toComposes, fun h => ?_⟩
  rcases hC.next h with hnext | hapart
  · exact .inl ⟨.ok (hC.peek h), hnext, hC.nil⟩
  · exact .inr hapart

/-- Both runs take a token, or neither does. -/
theorem refuses_iff (hC : C.Lawful) (h : C.cursors c d) (p : Kind → Bool) :
    (c.isAtEnd = true ∨ p c.peek.kind = false) ↔ (d.isAtEnd = true ∨ p d.peek.kind = false) := by
  rw [hC.isAtEnd h, hC.kind (hC.peek h)]

/-- Taking a token under a condition on its kind is alike. -/
theorem alike_takeIf? (hC : C.Lawful) (p : Kind → Bool) : (takeIf? p).Alike C (takeIf? p) := by
  refine ⟨obeys_takeIf? telling_recovers.toComposes p, fun {c d} h => ?_⟩
  by_cases hc : c.isAtEnd = true ∨ p c.peek.kind = false
  · rw [takeIf?_of_refuses hc, takeIf?_of_refuses ((refuses_iff hC h p).1 hc)]
    exact .inl ⟨.ok .none, h, hC.nil⟩
  · have hd := mt (refuses_iff hC h p).2 hc
    rw [takeIf?_of_accepts (by simpa using mt Or.inl hc) (by simpa using mt Or.inr hc),
      takeIf?_of_accepts (by simpa using mt Or.inl hd) (by simpa using mt Or.inr hd)]
    rcases hC.next h with hnext | hapart
    · exact .inl ⟨.ok (.some (hC.peek h)), hnext, hC.nil⟩
    · exact .inr hapart

/-- Complaining about the next token is alike. -/
theorem alike_complain (hC : C.Lawful) (k : Complaint) : (complain k).Alike C (complain k) :=
  ⟨fun c => telling_recovers.failed c k, fun h =>
    .inl ⟨.ok (.about k (hC.peek h)), h, hC.event (fun i t => .failed i k t) h⟩⟩

/-- Failing with the same complaint is alike. -/
theorem alike_fail (hC : C.Lawful) (k : Complaint) : (fail k : Rule α).Alike C (fail k) :=
  alike_bind hC (alike_complain hC k) fun _ _ h => alike_raise hC h

/-- Expecting a token is alike. -/
theorem alike_expect (hC : C.Lawful) (k : Kind) (x : Complaint) :
    (expect k x).Alike C (expect k x) := by
  refine alike_bind hC (alike_nextIs hC k) fun a b h => ?_
  obtain rfl : a = b := h
  split
  · exact alike_take hC
  · exact alike_fail hC x

/-- Rules that are alike are so in a region: it is refused on both sides or on none. -/
theorem alike_nested (hC : C.Lawful) (hr : r.Alike C s) : (nested r).Alike C (nested s) := by
  refine ⟨obeys_nested telling_recovers.toComposes hr.telling, fun {c d} h => ?_⟩
  have hdepth := hC.depth h
  rcases Nat.lt_or_ge c.depth maxNesting with hlt | hge
  · rw [nested_of_allows hlt, nested_of_allows (by omega)]
    rcases hr.run (hC.deeper h) with ⟨hv, hcursor, htrace⟩ | hapart
    · exact .inl ⟨hv, hC.ascend hcursor, htrace⟩
    · exact .inr (hC.apart_ascend hapart)
  · rw [nested_of_refuses hge, nested_of_refuses (by omega)]
    exact (alike_fail hC .tooDeep).run h

/-! ### Expressions -/

/-- The bounds of two chains do not matter if they are no less than the numbers of
tokens left. -/
theorem alike_links (hC : C.Lawful) {p : Kind → Bool} {operand : Rule Expr}
    (ho : operand.Alike C operand) {more more' : List Token} {left left' : Expr}
    (hlen : c.rest.length ≤ more.length) (hlen' : d.rest.length ≤ more'.length)
    (h : C.cursors c d) (hleft : left.Like C.tokens left') :
    C.Alike (links p operand more left c) (links p operand more' left' d) := by
  have hframe : operand.Obeys frame := fun c => (ho.telling c).1
  have htelling (e : Expr) (more : List Token) : (links p operand more e).Obeys telling :=
    obeys_links telling_recovers.toComposes ho.telling more e
  induction more generalizing more' left left' c d with
  | nil =>
    have hc := Cursor.isAtEnd_of_length_le hlen
    rw [links_of_refuses left (.inl hc), links_of_refuses left' (.inl ((hC.isAtEnd h).trans hc))]
    exact (alike_pure hC hleft).run h
  | cons t more ih =>
    by_cases hc : c.isAtEnd = true ∨ p c.peek.kind = false
    · rw [links_of_refuses left hc, links_of_refuses left' ((refuses_iff hC h p).1 hc)]
      exact (alike_pure hC hleft).run h
    have hd := mt (refuses_iff hC h p).2 hc
    have hce : c.isAtEnd = false := by simpa using mt Or.inl hc
    have hde : d.isAtEnd = false := by simpa using mt Or.inl hd
    have hcnext := (Cursor.passes_next hce).length
    have hdnext := (Cursor.passes_next hde).length
    rw [List.length_singleton] at hcnext hdnext
    cases more' with
    | nil => rw [List.length_nil] at hlen'; omega
    | cons t' more' =>
      rw [List.length_cons] at hlen hlen'
      rw [links_of_accepts left hce (by simpa using mt Or.inr hc),
        links_of_accepts left' hde (by simpa using mt Or.inr hd)]
      rcases hC.next h with hnext | hapart
      · refine alike_bind_at hC (ho.run hnext) (fun e => htelling _ more) ?_
        intro a b e e' ha hb hab hcursor
        have hadd := (ha.reaches hframe).position_add
        have hle := (ha.reaches hframe).position_le
        have hadd' := (hb.reaches hframe).position_add
        have hle' := (hb.reaches hframe).position_le
        exact ih (by omega) (by omega) hcursor (.binary hleft (hC.peek h) hab)
      · have hrest := obeys_bind telling_recovers.toComposes ho.telling
          (fun e => htelling (.binary left c.peek e) more) c.next
        exact .inr (hC.after hapart hrest)

/-- A chain of like operands is alike, with as many links on both sides. -/
theorem alike_chain (hC : C.Lawful) {p : Kind → Bool} {operand : Rule Expr}
    (ho : operand.Alike C operand) : (chain p operand).Alike C (chain p operand) := by
  have htail (e : Expr) : (tail p operand e).Obeys telling := fun c =>
    obeys_links telling_recovers.toComposes ho.telling c.rest e c
  refine alike_bind hC ho fun left left' hleft => ⟨htail left, fun h => ?_⟩
  exact alike_links hC ho (Nat.le_refl _) (Nat.le_refl _) h hleft

variable {inner : Region}

/-- Primary expressions are alike if the expressions in parentheses are. -/
theorem alike_primary (hC : C.Lawful) (hi : inner.expression.Alike C inner.expression) :
    (primary inner).Alike C (primary inner) := by
  refine alike_bind hC (alike_kind hC) fun k k' hk => ?_
  obtain rfl : k = k' := hk
  split
  · refine alike_bind hC (alike_take hC) fun _ _ _ => alike_bind hC (alike_nested hC hi) ?_
    intro e e' he
    exact alike_bind hC (alike_expect hC _ _) fun _ _ _ => alike_pure hC (.grouping he)
  · refine ⟨telling_recovers.returned, fun {c d} h => ?_⟩
    have hevent := hC.event (fun _ t => .returned t.line) h
    rcases hC.next h with hnext | hapart
    · exact .inl ⟨.ok (.literal (hC.peek h)), hnext, hevent⟩
    · have hboth := hC.before hevent hapart
      exact .inr hboth
  · split
    · exact alike_bind hC (alike_take hC) fun s t h => alike_pure hC (.literal h)
    · exact alike_fail hC _

/-- Prefix expressions are alike if their operands are. -/
theorem alike_unary (hC : C.Lawful) (he : inner.expression.Alike C inner.expression)
    (hu : inner.unary.Alike C inner.unary) : (unary inner).Alike C (unary inner) := by
  refine alike_bind hC (alike_takeIf? hC _) fun o o' ho => ?_
  cases ho with
  | none => exact alike_primary hC he
  | some hop => exact alike_bind hC (alike_nested hC hu) fun e e' h => alike_pure hC (.unary hop h)

/-- The levels of operators are alike. -/
theorem alike_disjunction (hC : C.Lawful) (he : inner.expression.Alike C inner.expression)
    (hu : inner.unary.Alike C inner.unary) : (disjunction inner).Alike C (disjunction inner) :=
  alike_chain hC <| alike_chain hC <| alike_chain hC <| alike_chain hC <| alike_chain hC <|
    alike_chain hC <| alike_unary hC he hu

/-- Expressions are alike if those in regions are. -/
theorem alike_expression (hC : C.Lawful) (he : inner.expression.Alike C inner.expression)
    (hu : inner.unary.Alike C inner.unary) : (expression inner).Alike C (expression inner) := by
  refine alike_bind hC (alike_disjunction hC he hu) fun target target' ht => ?_
  refine alike_bind hC (alike_nextIs hC _) fun b b' hb => ?_
  obtain rfl : b = b' := hb
  split
  · have hname := Expr.Like.identifier? hC.kind ht
    generalize target.identifier? = o at hname
    generalize target'.identifier? = o' at hname
    cases hname with
    | none => exact alike_fail hC _
    | some hname =>
      refine alike_bind hC (alike_take hC) fun _ _ _ => alike_bind hC (alike_nested hC he) ?_
      exact fun e e' h => alike_pure hC (.assign hname h)
  · exact alike_pure hC ht

/-! ### Statements without statements in them -/

/-- Declarations with a value are alike if expressions are. -/
theorem alike_bindingStatement (hC : C.Lawful) (hx : (expression inner).Alike C (expression inner))
    (b : Binding) : (bindingStatement inner b).Alike C (bindingStatement inner b) := by
  refine alike_bind hC (alike_expect hC _ _) fun name name' hname => ?_
  refine alike_bind hC (alike_kind hC) fun k k' hk => ?_
  obtain rfl : k = k' := hk
  have hend (v v' : Expr) (hv : v.Like C.tokens v') : (do
      let _ ← expect .semicolon .declarationEnd
      return .declare b name v : Rule Stmt).Alike C (do
      let _ ← expect .semicolon .declarationEnd
      return .declare b name' v') :=
    alike_bind hC (alike_expect hC _ _) fun _ _ _ => alike_pure hC (.declare hname hv)
  split
  · exact alike_bind hC (alike_take hC) fun _ _ _ => alike_pure hC (.declare hname .empty)
  · refine alike_bind hC (alike_take hC) fun _ _ _ => ?_
    refine alike_bind hC (alike_nextIs hC _) fun o o' ho => ?_
    obtain rfl : o = o' := ho
    split
    · exact hend _ _ .empty
    · exact alike_bind hC hx hend
  · exact alike_fail hC _

/-- Print statements are alike if expressions are. -/
theorem alike_printStatement (hC : C.Lawful) (hx : (expression inner).Alike C (expression inner)) :
    (printStatement inner).Alike C (printStatement inner) :=
  alike_bind hC hx fun _ _ h => alike_bind hC (alike_expect hC _ _) fun _ _ _ =>
    alike_pure hC (.print h)

/-- Expression statements are alike if expressions are. -/
theorem alike_expressionStatement (hC : C.Lawful)
    (hx : (expression inner).Alike C (expression inner)) :
    (expressionStatement inner).Alike C (expressionStatement inner) :=
  alike_bind hC hx fun _ _ h => alike_bind hC (alike_expect hC _ _) fun _ _ _ =>
    alike_pure hC (.expression h)

/-- Initial clauses are alike if expressions are. -/
theorem alike_initialClause (hC : C.Lawful) (hx : (expression inner).Alike C (expression inner)) :
    (initialClause inner).Alike C (initialClause inner) := by
  refine alike_bind hC (alike_kind hC) fun k k' hk => ?_
  obtain rfl : k = k' := hk
  split
  · exact alike_bind hC (alike_take hC) fun _ _ _ => alike_pure hC .none
  · split
    · refine alike_bind hC (alike_take hC) fun _ _ _ => ?_
      exact alike_bind hC (alike_bindingStatement hC hx _) fun _ _ h => alike_pure hC (.some h)
    · exact alike_bind hC (alike_expressionStatement hC hx) fun _ _ h => alike_pure hC (.some h)

/-- Clauses that may be missing are alike: they are missing on both sides or on none. -/
theorem alike_optional (hC : C.Lawful) (hx : (expression inner).Alike C (expression inner))
    (k : Kind) : (optional inner k).Alike C (optional inner k) := by
  refine alike_bind hC (alike_nextIs hC k) fun b b' hb => ?_
  obtain rfl : b = b' := hb
  split
  · exact alike_pure hC .none
  · exact alike_bind hC hx fun _ _ h => alike_pure hC (.some h)

/-! ### Statements with statements in them -/

/-- Conditions are alike if expressions are. -/
theorem alike_condition (hC : C.Lawful) (hx : (expression inner).Alike C (expression inner))
    (opening closing : Complaint) :
    (condition inner opening closing).Alike C (condition inner opening closing) :=
  alike_bind hC (alike_expect hC _ _) fun _ _ _ => alike_bind hC hx fun _ _ h =>
    alike_bind hC (alike_expect hC _ _) fun _ _ _ => alike_pure hC h

/-- The clauses of loops are alike if expressions are. -/
theorem alike_clauses (hC : C.Lawful) (hx : (expression inner).Alike C (expression inner)) :
    (clauses inner).Alike C (clauses inner) := by
  refine alike_bind hC (alike_expect hC _ _) fun _ _ _ => ?_
  refine alike_bind hC (alike_initialClause hC hx) fun _ _ hi => ?_
  refine alike_bind hC (alike_optional hC hx _) fun _ _ hc => ?_
  refine alike_bind hC (alike_expect hC _ _) fun _ _ _ => ?_
  refine alike_bind hC (alike_optional hC hx _) fun _ _ hs => ?_
  exact alike_bind hC (alike_expect hC _ _) fun _ _ _ => alike_pure hC ⟨hi, hc, hs⟩

/-- Behind like branches an `else` is alike, or its absence. -/
theorem alike_elseBranch (hC : C.Lawful) (hs : inner.statement.Alike C inner.statement)
    {v v' : Expr} {yes yes' : Stmt} (hv : v.Like C.tokens v') (hyes : yes.Like C.tokens yes') :
    (elseBranch inner v yes).Alike C (elseBranch inner v' yes') := by
  refine alike_bind hC (alike_nextIs hC _) fun b b' hb => ?_
  obtain rfl : b = b' := hb
  split
  · refine alike_bind hC (alike_take hC) fun _ _ _ => ?_
    exact alike_bind hC (alike_nested hC hs) fun _ _ hno => alike_pure hC (.ifElse hv hyes hno)
  · exact alike_pure hC (.ifThen hv hyes)

/-- Conditionals are alike if expressions and the statements in regions are. -/
theorem alike_ifStatement (hC : C.Lawful) (hx : (expression inner).Alike C (expression inner))
    (hs : inner.statement.Alike C inner.statement) :
    (ifStatement inner).Alike C (ifStatement inner) := by
  rw [ifStatement_eq]
  refine alike_bind hC (alike_condition hC hx _ _) fun _ _ hv => ?_
  exact alike_bind hC (alike_nested hC hs) fun _ _ hyes => alike_elseBranch hC hs hv hyes

/-- Loops are alike if expressions and the statements in regions are. -/
theorem alike_whileStatement (hC : C.Lawful) (hx : (expression inner).Alike C (expression inner))
    (hs : inner.statement.Alike C inner.statement) :
    (whileStatement inner).Alike C (whileStatement inner) := by
  rw [whileStatement_eq]
  refine alike_bind hC (alike_condition hC hx _ _) fun _ _ hv => ?_
  exact alike_bind hC (alike_nested hC hs) fun _ _ hb => alike_pure hC (.whileLoop hv hb)

/-- `for` loops are alike if besides the words `true` that stand in for a missing condition are. -/
theorem alike_forStatement (hC : C.Lawful) (hx : (expression inner).Alike C (expression inner))
    (hs : inner.statement.Alike C inner.statement) {keyword keyword' : Token}
    (htrue : C.tokens ⟨.trueWord, "true", keyword.line, .none⟩
      ⟨.trueWord, "true", keyword'.line, .none⟩) :
    (forStatement inner keyword).Alike C (forStatement inner keyword') := by
  rw [forStatement_eq, forStatement_eq]
  refine alike_bind hC (alike_clauses hC hx) fun _ _ hhead => ?_
  refine alike_bind hC (alike_nested hC hs) fun _ _ hb => alike_pure hC ?_
  exact .forLoop htrue hhead.1 hhead.2.1 hhead.2.2 hb

/-- Statements are alike if expressions, blocks and the statements in regions are. -/
theorem alike_statement (hC : C.Lawful) (hx : (expression inner).Alike C (expression inner))
    (hb : inner.block.Alike C inner.block) (hs : inner.statement.Alike C inner.statement) :
    (statement inner).Alike C (statement inner) := by
  refine alike_bind hC (alike_kind hC) fun k k' hk => ?_
  obtain rfl : k = k' := hk
  split
  · exact alike_bind hC (alike_take hC) fun _ _ _ => alike_printStatement hC hx
  · exact alike_bind hC (alike_take hC) fun _ _ _ => alike_nested hC hb
  · exact alike_bind hC (alike_take hC) fun _ _ _ => alike_ifStatement hC hx hs
  · exact alike_bind hC (alike_take hC) fun _ _ h => alike_forStatement hC hx hs (hC.line h)
  · exact alike_bind hC (alike_take hC) fun _ _ _ => alike_whileStatement hC hx hs
  · exact alike_expressionStatement hC hx

/-! ### Declarations -/

/-- So are declarations before they are recovered. -/
theorem alike_item (hC : C.Lawful) (hx : (expression inner).Alike C (expression inner))
    (hb : inner.block.Alike C inner.block) (hs : inner.statement.Alike C inner.statement) :
    (item inner).Alike C (item inner) := by
  refine alike_bind hC (alike_kind hC) fun k k' hk => ?_
  obtain rfl : k = k' := hk
  split
  · exact alike_bind hC (alike_take hC) fun _ _ _ => alike_bindingStatement hC hx _
  · exact alike_statement hC hx hb hs

/-- Panic mode tells of the place where it begins and of what it drops. -/
theorem telling_resume (c : Cursor) : telling c none c.resume
    [.panicked c.position c.peek.line, .resumed (c.resume.position - c.position)] :=
  ⟨c.reaches_resume, List.forall_mem_cons.2 ⟨⟨c, .refl c, rfl, rfl⟩, List.forall_mem_cons.2
    ⟨⟨c, .refl c, Nat.add_sub_cancel' c.reaches_resume.position_le⟩, List.forall_mem_nil _⟩⟩⟩

/-- A declaration that has been read or has failed, with the rest of its trace. -/
theorem exists_trace_recover (r : Rule Stmt) (c : Cursor) :
    ∃ u, (recover r c).trace = .entered c.position :: ((r c).trace ++ u) ∧
      telling (r c).cursor none (recover r c).cursor u := by
  cases hv : (r c).value with
  | ok s =>
    rw [recover_of_ok hv]
    exact ⟨[], congrArg _ (List.append_nil _).symm, telling_recovers.stay _⟩
  | error e =>
    rw [recover_of_error hv]
    exact ⟨_, rfl, telling_resume _⟩

/-- Recovering is alike: like errors are resumed behind at compared places. -/
theorem alike_recover (hC : C.Lawful) {r s : Rule Stmt} (hr : r.Alike C s) :
    (always (recover r)).Alike C (always (recover s)) := by
  refine ⟨obeys_recover telling_recovers hr.telling, fun {c d} h => ?_⟩
  have hentered := hC.event (fun i _ => .entered i) h
  rcases hr.run h with ⟨hv, hcursor, htrace⟩ | hapart
  · generalize hrv : (r c).value = v at hv
    generalize hsv : (s d).value = w at hv
    cases hv with
    | ok hv =>
      rw [always, always, recover_of_ok hrv, recover_of_ok hsv]
      exact .inl ⟨.ok hv, hcursor, hC.append hentered htrace⟩
    | error hx =>
      have hpanicked := hC.event (fun i t => .panicked i t.line) hcursor
      have hbefore := hC.append (hC.append hentered htrace) hpanicked
      rw [always, always, recover_of_error hrv, recover_of_error hsv]
      rcases hC.resume hcursor with ⟨hresume, hresumed⟩ | hapart
      · refine .inl ⟨.ok (.error hx), hresume, ?_⟩
        simpa using hC.append hbefore hresumed
      · refine .inr ?_
        simpa using hC.before hbefore hapart
  · obtain ⟨u, hu, htelling⟩ := exists_trace_recover r c
    obtain ⟨u', hu', -⟩ := exists_trace_recover s d
    refine .inr ?_
    show C.apart (recover r c).trace (recover r c).cursor (recover s d).trace
    rw [hu, hu']
    exact hC.after (hC.before hentered hapart) htelling

/-- No declaration of a block begins here. -/
def Ends (c : Cursor) : Prop := c.isAtEnd = true ∨ c.check .rightBrace = true

/-- Where no declaration begins the loop of a block stops. -/
theorem declarations_of_ends {item : Cursor → Parsed Stmt} (h : Ends c) (more : List Token) :
    declarations item more c = ⟨[], c, []⟩ := by
  cases more with
  | nil => rfl
  | cons t more => rw [declarations, if_pos (by simpa [Ends] using h)]

/-- Elsewhere it reads one and goes on behind it. -/
theorem declarations_of_goes {item : Cursor → Parsed Stmt} (h : ¬Ends c) (t : Token)
    (more : List Token) :
    declarations item (t :: more) c =
      ⟨(item c).value :: (declarations item more (item c).cursor).value,
        (declarations item more (item c).cursor).cursor,
        (item c).trace ++ (declarations item more (item c).cursor).trace⟩ := by
  rw [declarations, if_neg (by simpa [Ends] using h)]

/-- A declaration leaves fewer tokens. -/
theorem length_declaration_lt (n : Nat) (hm : c.marker.kind = .eof) (he : c.isAtEnd = false) :
    (declaration (.upTo n) c).cursor.rest.length < c.rest.length := by
  have hadd := (declaration_obeys frame_recovers n c).position_add
  have hlt := declaration_advances n hm he
  omega

variable {n : Nat}

/-- Declarations in a row are alike, given rounds enough on both sides. -/
theorem alike_declarations (hC : C.Lawful) (hi : (item (.upTo n)).Alike C (item (.upTo n)))
    {more more' : List Token} (hlen : c.rest.length ≤ more.length)
    (hlen' : d.rest.length ≤ more'.length) (h : C.cursors c d) :
    C.Alike (declarations (declaration (.upTo n)) more c)
      (declarations (declaration (.upTo n)) more' d) := by
  induction more generalizing more' c d with
  | nil =>
    have hc : Ends c := .inl (Cursor.isAtEnd_of_length_le hlen)
    have hd : Ends d := .inl ((hC.isAtEnd h).trans (Cursor.isAtEnd_of_length_le hlen))
    rw [declarations_of_ends hc, declarations_of_ends hd]
    exact .inl ⟨.nil, h, hC.nil⟩
  | cons t more ih =>
    have hends : Ends c ↔ Ends d := by rw [Ends, Ends, hC.isAtEnd h, check_eq hC h]
    by_cases hc : Ends c
    · rw [declarations_of_ends hc, declarations_of_ends (hends.1 hc)]
      exact .inl ⟨.nil, h, hC.nil⟩
    have hce : c.isAtEnd = false := by simpa using mt Or.inl hc
    have hclt := length_declaration_lt n (hC.marker h).1 hce
    have hdlt := length_declaration_lt n (hC.marker h).2 ((hC.isAtEnd h).trans hce)
    cases more' with
    | nil => rw [List.length_nil] at hlen'; omega
    | cons t' more' =>
      rw [List.length_cons] at hlen hlen'
      rw [declarations_of_goes hc, declarations_of_goes (mt hends.2 hc)]
      have hfirst : C.Alike (declaration (.upTo n) c) (declaration (.upTo n) d) := by
        rcases (alike_recover hC hi).run h with ⟨hv, hrest⟩ | hapart
        · cases hv with
          | ok hv => exact .inl ⟨hv, hrest⟩
        · exact .inr hapart
      rcases hfirst with ⟨hv, hcursor, htrace⟩ | hapart
      · have hrest : C.Alike (declarations (declaration (.upTo n)) more _)
            (declarations (declaration (.upTo n)) more' _) := ih (by omega) (by omega) hcursor
        rcases hrest with ⟨hvs, hend, hu⟩ | hapart
        · exact .inl ⟨.cons hv hvs, hend, hC.append htrace hu⟩
        · exact .inr (hC.before htrace hapart)
      · refine .inr (hC.after hapart ?_)
        exact obeys_declarations telling_recovers.toComposes
          (declaration_obeys telling_recovers n) more _

/-- The end of a block is alike behind like statements. -/
theorem alike_blockEnd (hC : C.Lawful) {body body' : List Stmt}
    (h : Stmt.AllLike C.tokens body body') : (blockEnd body).Alike C (blockEnd body') := by
  refine alike_bind hC (alike_nextIs hC _) fun b b' hb => ?_
  obtain rfl : b = b' := hb
  split
  · exact alike_bind hC (alike_take hC) fun _ _ _ => alike_pure hC (.block h)
  · refine alike_bind hC (alike_complain hC .openBlock) fun e e' he => ?_
    rw [h.any_hasErrors]
    split
    · exact alike_pure hC (.block (h.append (.singleton (.error he))))
    · exact alike_raise hC he

/-- The declarations of a block. -/
theorem alike_body (hC : C.Lawful) (hi : (item (.upTo n)).Alike C (item (.upTo n))) :
    (always fun c => declarations (declaration (.upTo n)) c.rest c).Alike C
      (always fun c => declarations (declaration (.upTo n)) c.rest c) := by
  refine ⟨fun c => ?_, fun h => ?_⟩
  · exact obeys_declarations telling_recovers.toComposes (declaration_obeys telling_recovers n)
      c.rest c
  · rcases alike_declarations hC hi (Nat.le_refl _) (Nat.le_refl _) h with ⟨hv, hrest⟩ | hapart
    · exact .inl ⟨.ok hv, hrest⟩
    · exact .inr hapart

/-- Blocks are alike if declarations are. -/
theorem alike_block (hC : C.Lawful) (hi : (item (.upTo n)).Alike C (item (.upTo n))) :
    (block (.upTo n)).Alike C (block (.upTo n)) := by
  rw [block_eq]
  exact alike_bind hC (alike_body hC hi) fun body body' h => alike_blockEnd hC h

end Rule

/-! ### All rules -/

variable {C : Comparison}

/-- Runs of the rules of a region are alike. -/
structure Region.Alike (C : Comparison) (r : Region) : Prop where
  expression : r.expression.Alike C r.expression
  unary : r.unary.Alike C r.unary
  block : r.block.Alike C r.block
  statement : r.statement.Alike C r.statement

/-- **A comparison of steps holds of every rule**, however many regions can be
opened. -/
theorem Region.alike_upTo (hC : C.Lawful) (n : Nat) : (Region.upTo n).Alike C := by
  induction n with
  | zero =>
    exact ⟨Rule.alike_fail hC _, Rule.alike_fail hC _, Rule.alike_fail hC _, Rule.alike_fail hC _⟩
  | succ n ih =>
    have hx := Rule.alike_expression hC ih.expression ih.unary
    have hi := Rule.alike_item hC hx ih.block ih.statement
    exact ⟨hx, Rule.alike_unary hC ih.expression ih.unary, Rule.alike_block hC hi,
      Rule.alike_statement hC hx ih.block ih.statement⟩

namespace Rule

/-- Expressions are alike, whatever the number of regions. -/
theorem expression_alike (hC : C.Lawful) (n : Nat) :
    (expression (.upTo n)).Alike C (expression (.upTo n)) :=
  alike_expression hC (Region.alike_upTo hC n).expression (Region.alike_upTo hC n).unary

/-- Declarations are alike, whatever the number of regions. -/
theorem item_alike (hC : C.Lawful) (n : Nat) : (item (.upTo n)).Alike C (item (.upTo n)) :=
  alike_item hC (expression_alike hC n) (Region.alike_upTo hC n).block
    (Region.alike_upTo hC n).statement

end Rule
end LoxFront
