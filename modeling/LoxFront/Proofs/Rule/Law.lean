/-
# Laws that all rules obey

A law speaks of a cursor, the error that a rule ends with if it does, the place
where the rule stops and the events on the way.  A law that the steps of rules
keep (`Law.Composes`) holds of every rule for expressions, and one that the declarations
of a block keep besides (`Law.Loops`) of every rule for statements, whatever number of
regions can be opened (`Law.Loops.region_obeys`).  They do so if a failed declaration
keeps the law (`Law.Recovers`).
-/

import LoxFront.Proofs.Rule.Heads

namespace LoxFront

/-- What may happen from a cursor on: with an error or none, up to a place, with
some events. -/
abbrev Law : Type := Cursor → Option ParseError → Cursor → List Event → Prop

/-- The error of a result. -/
def errorOf? {α : Type} : Except ParseError α → Option ParseError
  | .ok _ => none
  | .error e => some e

/-- The steps of rules keep the law. -/
structure Law.Composes (L : Law) : Prop where
  stay (c : Cursor) : L c none c []
  step (c : Cursor) : L c none c.next []
  returned (c : Cursor) : L c none c.next [.returned c.peek.line]
  failed (c : Cursor) (k : Complaint) :
    L c (some (k.about c.peek)) c [.failed c.position k c.peek]
  trans {c d e : Cursor} {o : Option ParseError} {t u : List Event} :
    L c none d t → L d o e u → L c o e (t ++ u)
  region {c d : Cursor} {o : Option ParseError} {t : List Event} :
    c.depth < maxNesting → L c.deeper o d t → L c o d.ascend t

/-- Declarations and blocks keep the law too. -/
structure Law.Recovers (L : Law) : Prop extends L.Composes where
  entered {c d : Cursor} {t : List Event} : L c none d t → L c none d (.entered c.position :: t)
  panicked {c d : Cursor} {e : ParseError} {t : List Event} : L c (some e) d t →
    L c none d.resume (.entered c.position :: t ++
      [.panicked d.position d.peek.line, .resumed (d.resume.position - d.position)])
  unclosed (c : Cursor) : L c none c [.failed c.position .openBlock c.peek]

namespace Rule

variable {α β : Type} {L : Law}

/-- Every run of the rule is as the law says. -/
def Obeys (L : Law) (r : Rule α) : Prop :=
  ∀ c, L c (errorOf? (r c).value) (r c).cursor (r c).trace

/-- Giving a value keeps the law. -/
theorem obeys_pure (hL : L.Composes) (a : α) : (pure a : Rule α).Obeys L := hL.stay

/-- Rules that keep the law keep it one behind the other. -/
theorem obeys_bind (hL : L.Composes) {r : Rule α} {f : α → Rule β} (hr : r.Obeys L)
    (hf : ∀ a, (f a).Obeys L) : (r >>= f).Obeys L := by
  intro c
  have hc := hr c
  cases hv : (r c).value with
  | error e =>
    rw [bind_of_error hv]
    rw [hv] at hc
    exact hc
  | ok a =>
    rw [bind_of_ok hv]
    rw [hv] at hc
    exact hL.trans hc (hf a _)

/-- Looking at the next kind keeps the law. -/
theorem obeys_kind (hL : L.Composes) : kind.Obeys L := hL.stay

/-- Asking for a kind keeps the law. -/
theorem obeys_nextIs (hL : L.Composes) (k : Kind) : (nextIs k).Obeys L := hL.stay

/-- Taking the next token keeps the law. -/
theorem obeys_take (hL : L.Composes) : take.Obeys L := hL.step

/-- Taking a token under a condition keeps the law. -/
theorem obeys_takeIf? (hL : L.Composes) (p : Kind → Bool) : (takeIf? p).Obeys L := by
  intro c
  by_cases h : c.isAtEnd = true ∨ p c.peek.kind = false
  · rw [takeIf?_of_refuses h]
    exact hL.stay c
  · rw [takeIf?_of_accepts (by simpa using mt Or.inl h) (by simpa using mt Or.inr h)]
    exact hL.step c

/-- Failing with a complaint keeps the law. -/
theorem obeys_fail (hL : L.Composes) (k : Complaint) : (fail k : Rule α).Obeys L :=
  fun c => hL.failed c k

/-- Expecting a token keeps the law. -/
theorem obeys_expect (hL : L.Composes) (k : Kind) (m : Complaint) : (expect k m).Obeys L := by
  refine obeys_bind hL (obeys_nextIs hL k) fun b => ?_
  split
  · exact obeys_take hL
  · exact obeys_fail hL m

/-- A rule that keeps the law keeps it in a region, also where the region is refused. -/
theorem obeys_nested (hL : L.Composes) {r : Rule α} (hr : r.Obeys L) : (nested r).Obeys L := by
  intro c
  rcases Nat.lt_or_ge c.depth maxNesting with h | h
  · rw [nested_of_allows h]
    exact hL.region h (hr _)
  · rw [nested_of_refuses h]
    exact hL.failed c .tooDeep

/-! ### Expressions -/

/-- The links of a chain keep the law if the operands do. -/
theorem obeys_links (hL : L.Composes) {p : Kind → Bool} {operand : Rule Expr}
    (ho : operand.Obeys L) (more : List Token) (left : Expr) :
    (links p operand more left).Obeys L := by
  induction more generalizing left with
  | nil => exact obeys_pure hL left
  | cons t more ih =>
    refine obeys_bind hL (obeys_takeIf? hL p) fun o => ?_
    split
    · exact obeys_bind hL ho fun e => ih _
    · exact obeys_pure hL left

/-- So does the chain. -/
theorem obeys_chain (hL : L.Composes) {p : Kind → Bool} {operand : Rule Expr}
    (ho : operand.Obeys L) : (chain p operand).Obeys L :=
  obeys_bind hL ho fun left c => obeys_links hL ho c.rest left c

end Rule

/-- Every rule of the region is as the law says. -/
structure Region.Obeys (L : Law) (r : Region) : Prop where
  expression : r.expression.Obeys L
  unary : r.unary.Obeys L
  block : r.block.Obeys L
  statement : r.statement.Obeys L

namespace Rule

variable {L : Law} {inner : Region}

/-- Primary expressions keep the law if those in parentheses do. -/
theorem obeys_primary (hL : L.Composes) (hi : inner.expression.Obeys L) :
    (primary inner).Obeys L := by
  refine obeys_bind hL (obeys_kind hL) fun k => ?_
  split
  · refine obeys_bind hL (obeys_take hL) fun _ => obeys_bind hL (obeys_nested hL hi) fun e => ?_
    exact obeys_bind hL (obeys_expect hL _ _) fun _ => obeys_pure hL _
  · exact hL.returned
  · split
    · exact obeys_bind hL (obeys_take hL) fun t => obeys_pure hL _
    · exact obeys_fail hL _

/-- Prefix expressions keep the law if their operands do. -/
theorem obeys_unary (hL : L.Composes) (he : inner.expression.Obeys L)
    (hu : inner.unary.Obeys L) : (unary inner).Obeys L := by
  refine obeys_bind hL (obeys_takeIf? hL _) fun o => ?_
  split
  · exact obeys_bind hL (obeys_nested hL hu) fun e => obeys_pure hL _
  · exact obeys_primary hL he

/-- So do the levels of operators. -/
theorem obeys_disjunction (hL : L.Composes) (he : inner.expression.Obeys L)
    (hu : inner.unary.Obeys L) : (disjunction inner).Obeys L :=
  obeys_chain hL <| obeys_chain hL <| obeys_chain hL <| obeys_chain hL <| obeys_chain hL <|
    obeys_chain hL <| obeys_unary hL he hu

/-- What may make an assignment keeps the law if expressions in regions do. -/
theorem obeys_assignmentRest (hL : L.Composes) (he : inner.expression.Obeys L) (target : Expr) :
    (assignmentRest inner target).Obeys L := by
  refine obeys_bind hL (obeys_nextIs hL _) fun b => ?_
  split
  · split
    · refine obeys_bind hL (obeys_take hL) fun _ => ?_
      exact obeys_bind hL (obeys_nested hL he) fun e => obeys_pure hL _
    · exact obeys_fail hL _
  · exact obeys_pure hL _

/-- Expressions keep the law if those in regions do. -/
theorem obeys_expression (hL : L.Composes) (he : inner.expression.Obeys L)
    (hu : inner.unary.Obeys L) : (expression inner).Obeys L := by
  rw [expression_eq]
  exact obeys_bind hL (obeys_disjunction hL he hu) (obeys_assignmentRest hL he)

/-! ### Statements without statements in them -/

/-- What stands behind the name of a declaration keeps the law if expressions do. -/
theorem obeys_bindingRest (hL : L.Composes) (hx : (expression inner).Obeys L) (b : Binding)
    (name : Token) : (bindingRest inner b name).Obeys L := by
  have hend (value : Expr) : (bindingEnd b name value).Obeys L :=
    obeys_bind hL (obeys_expect hL _ _) fun _ => obeys_pure hL _
  refine obeys_bind hL (obeys_kind hL) fun k => ?_
  split
  · exact obeys_bind hL (obeys_take hL) fun _ => obeys_pure hL _
  · refine obeys_bind hL (obeys_take hL) fun _ => ?_
    refine obeys_bind hL (obeys_nextIs hL _) fun omitted => ?_
    split
    · exact hend _
    · exact obeys_bind hL hx hend
  · exact obeys_fail hL _

/-- Declarations with a value keep the law if expressions do. -/
theorem obeys_bindingStatement (hL : L.Composes) (hx : (expression inner).Obeys L) (b : Binding) :
    (bindingStatement inner b).Obeys L := by
  rw [bindingStatement_eq]
  exact obeys_bind hL (obeys_expect hL _ _) (obeys_bindingRest hL hx b)

/-- Print statements keep the law if expressions do. -/
theorem obeys_printStatement (hL : L.Composes) (hx : (expression inner).Obeys L) :
    (printStatement inner).Obeys L :=
  obeys_bind hL hx fun _ => obeys_bind hL (obeys_expect hL _ _) fun _ => obeys_pure hL _

/-- Expression statements keep the law if expressions do. -/
theorem obeys_expressionStatement (hL : L.Composes) (hx : (expression inner).Obeys L) :
    (expressionStatement inner).Obeys L :=
  obeys_bind hL hx fun _ => obeys_bind hL (obeys_expect hL _ _) fun _ => obeys_pure hL _

/-- Initial clauses keep the law if expressions do. -/
theorem obeys_initialClause (hL : L.Composes) (hx : (expression inner).Obeys L) :
    (initialClause inner).Obeys L := by
  refine obeys_bind hL (obeys_kind hL) fun k => ?_
  split
  · exact obeys_bind hL (obeys_take hL) fun _ => obeys_pure hL _
  · split
    · refine obeys_bind hL (obeys_take hL) fun _ => ?_
      exact obeys_bind hL (obeys_bindingStatement hL hx _) fun _ => obeys_pure hL _
    · exact obeys_bind hL (obeys_expressionStatement hL hx) fun _ => obeys_pure hL _

/-- Clauses that may be missing keep the law if expressions do. -/
theorem obeys_optional (hL : L.Composes) (hx : (expression inner).Obeys L) (k : Kind) :
    (optional inner k).Obeys L := by
  refine obeys_bind hL (obeys_nextIs hL k) fun b => ?_
  split
  · exact obeys_pure hL _
  · exact obeys_bind hL hx fun _ => obeys_pure hL _

/-! ### Statements with statements in them -/

/-- Conditions keep the law if expressions do. -/
theorem obeys_condition (hL : L.Composes) (hx : (expression inner).Obeys L)
    (opening closing : Complaint) : (condition inner opening closing).Obeys L :=
  obeys_bind hL (obeys_expect hL _ _) fun _ => obeys_bind hL hx fun _ =>
    obeys_bind hL (obeys_expect hL _ _) fun _ => obeys_pure hL _

/-- The clauses of loops keep the law if expressions do. -/
theorem obeys_clauses (hL : L.Composes) (hx : (expression inner).Obeys L) :
    (clauses inner).Obeys L := by
  refine obeys_bind hL (obeys_expect hL _ _) fun _ => ?_
  refine obeys_bind hL (obeys_initialClause hL hx) fun initial => ?_
  refine obeys_bind hL (obeys_optional hL hx _) fun condition => ?_
  refine obeys_bind hL (obeys_expect hL _ _) fun _ => ?_
  refine obeys_bind hL (obeys_optional hL hx _) fun step => ?_
  exact obeys_bind hL (obeys_expect hL _ _) fun _ => obeys_pure hL _

/-- An `else`, or its absence, keeps the law if the statements in regions do. -/
theorem obeys_elseBranch (hL : L.Composes) (hs : inner.statement.Obeys L) (value : Expr)
    (yes : Stmt) : (elseBranch inner value yes).Obeys L := by
  refine obeys_bind hL (obeys_nextIs hL _) fun b => ?_
  split
  · refine obeys_bind hL (obeys_take hL) fun _ => ?_
    exact obeys_bind hL (obeys_nested hL hs) fun no => obeys_pure hL _
  · exact obeys_pure hL _

/-- Conditionals keep the law if expressions and the statements in regions do. -/
theorem obeys_ifStatement (hL : L.Composes) (hx : (expression inner).Obeys L)
    (hs : inner.statement.Obeys L) : (ifStatement inner).Obeys L := by
  rw [ifStatement_eq]
  refine obeys_bind hL (obeys_condition hL hx _ _) fun value => ?_
  exact obeys_bind hL (obeys_nested hL hs) fun yes => obeys_elseBranch hL hs value yes

/-- Loops keep the law if expressions and the statements in regions do. -/
theorem obeys_whileStatement (hL : L.Composes) (hx : (expression inner).Obeys L)
    (hs : inner.statement.Obeys L) : (whileStatement inner).Obeys L := by
  rw [whileStatement_eq]
  refine obeys_bind hL (obeys_condition hL hx _ _) fun value => ?_
  exact obeys_bind hL (obeys_nested hL hs) fun body => obeys_pure hL _

/-- `for` loops keep the law if expressions and the statements in regions do. -/
theorem obeys_forStatement (hL : L.Composes) (hx : (expression inner).Obeys L)
    (hs : inner.statement.Obeys L) (keyword : Token) : (forStatement inner keyword).Obeys L := by
  rw [forStatement_eq]
  refine obeys_bind hL (obeys_clauses hL hx) fun head => ?_
  exact obeys_bind hL (obeys_nested hL hs) fun body => obeys_pure hL _

/-- Statements keep the law if expressions, blocks and the statements in regions do. -/
theorem obeys_statement (hL : L.Composes) (hx : (expression inner).Obeys L)
    (hb : inner.block.Obeys L) (hs : inner.statement.Obeys L) : (statement inner).Obeys L := by
  refine obeys_bind hL (obeys_kind hL) fun k => ?_
  split
  · exact obeys_bind hL (obeys_take hL) fun _ => obeys_printStatement hL hx
  · exact obeys_bind hL (obeys_take hL) fun _ => obeys_nested hL hb
  · exact obeys_bind hL (obeys_take hL) fun _ => obeys_ifStatement hL hx hs
  · exact obeys_bind hL (obeys_take hL) fun keyword => obeys_forStatement hL hx hs keyword
  · exact obeys_bind hL (obeys_take hL) fun _ => obeys_whileStatement hL hx hs
  · exact obeys_expressionStatement hL hx

/-- A declaration before its error is dealt with. -/
def item (inner : Region) : Rule Stmt := do
  match binding? (← kind) with
  | some binding =>
    let _ ← take
    bindingStatement inner binding
  | none => statement inner

/-- A declaration is a rule that is recovered. -/
theorem declaration_eq (inner : Region) : declaration inner = recover (item inner) := rfl

/-- Declarations before they are recovered keep the law if their parts do. -/
theorem obeys_item (hL : L.Composes) (hx : (expression inner).Obeys L)
    (hb : inner.block.Obeys L) (hs : inner.statement.Obeys L) : (item inner).Obeys L := by
  refine obeys_bind hL (obeys_kind hL) fun k => ?_
  split
  · exact obeys_bind hL (obeys_take hL) fun _ => obeys_bindingStatement hL hx _
  · exact obeys_statement hL hx hb hs

/-- What is read is told of as entered, and nothing is dropped. -/
theorem recover_of_ok {r : Rule Stmt} {c : Cursor} {s : Stmt} (h : (r c).value = .ok s) :
    recover r c = ⟨s, (r c).cursor, .entered c.position :: (r c).trace⟩ := by
  rw [recover]
  rcases hr : r c with ⟨value, d, trace⟩
  obtain rfl : value = .ok s := by rw [hr] at h; exact h
  rfl

/-- An error stands as a statement, and panic mode is told of with what it drops. -/
theorem recover_of_error {r : Rule Stmt} {c : Cursor} {e : ParseError}
    (h : (r c).value = .error e) :
    recover r c = ⟨.error e, (r c).cursor.resume,
      .entered c.position :: (r c).trace ++ [.panicked (r c).cursor.position (r c).cursor.peek.line,
        .resumed ((r c).cursor.resume.position - (r c).cursor.position)]⟩ := by
  rw [recover]
  rcases hr : r c with ⟨value, d, trace⟩
  obtain rfl : value = .error e := by rw [hr] at h; exact h
  rfl

/-- A rule that keeps the law keeps it when it is recovered, if panic mode does. -/
theorem obeys_recover (hL : L.Recovers) {r : Rule Stmt} (hr : r.Obeys L) (c : Cursor) :
    L c none (recover r c).cursor (recover r c).trace := by
  have hc := hr c
  cases hv : (r c).value with
  | ok s =>
    rw [recover_of_ok hv]
    rw [hv] at hc
    exact hL.entered hc
  | error e =>
    rw [recover_of_error hv]
    rw [hv] at hc
    exact hL.panicked hc

/-- Declarations in a row keep the law if each does. -/
theorem obeys_declarations (hL : L.Composes) {item : Cursor → Parsed Stmt}
    (hi : ∀ c, L c none (item c).cursor (item c).trace) (more : List Token) (c : Cursor) :
    L c none (declarations item more c).cursor (declarations item more c).trace := by
  induction more generalizing c with
  | nil => exact hL.stay c
  | cons t more ih =>
    rw [declarations]
    split
    · exact hL.stay c
    · exact hL.trans (hi c) (ih _)

end Rule

/-! ### All rules -/

/-- The steps of rules keep the law, and so do the declarations of a block, if the
rules for what stands in them do, and a block that is not closed. -/
structure Law.Loops (L : Law) : Prop extends L.Composes where
  body {n : Nat} (h : (Region.upTo n).Obeys L) (c : Cursor) :
    L c none (Rule.declarations (Rule.declaration (.upTo n)) c.rest c).cursor
      (Rule.declarations (Rule.declaration (.upTo n)) c.rest c).trace
  unclosed (c : Cursor) : L c none c [.failed c.position .openBlock c.peek]

variable {L : Law}

/-- **A law of steps holds of every rule for expressions.** -/
theorem Region.obeys_upTo_expression (hL : L.Composes) (n : Nat) :
    (Region.upTo n).expression.Obeys L ∧ (Region.upTo n).unary.Obeys L := by
  induction n with
  | zero => exact ⟨Rule.obeys_fail hL _, Rule.obeys_fail hL _⟩
  | succ n ih => exact ⟨Rule.obeys_expression hL ih.1 ih.2, Rule.obeys_unary hL ih.1 ih.2⟩

/-- Expressions keep the law in any number of regions. -/
theorem Rule.expression_obeys (hL : L.Composes) (n : Nat) : (expression (.upTo n)).Obeys L :=
  obeys_expression hL (Region.obeys_upTo_expression hL n).1 (Region.obeys_upTo_expression hL n).2

/-- A law that a failed declaration keeps is kept by one after another. -/
theorem Law.Recovers.loops (hL : L.Recovers) : L.Loops where
  toComposes := hL.toComposes
  unclosed := hL.unclosed
  body {n} h c := by
    have hx := Rule.expression_obeys hL.toComposes n
    have hi := Rule.obeys_item hL.toComposes hx h.block h.statement
    exact Rule.obeys_declarations hL.toComposes (Rule.obeys_recover hL hi) c.rest c

namespace Rule

/-- What closes a block keeps the law. -/
theorem obeys_blockEnd (hL : L.Loops) (body : List Stmt) : (blockEnd body).Obeys L := by
  have hL' := hL.toComposes
  refine obeys_bind hL' (obeys_nextIs hL' _) fun closed => ?_
  split
  · exact obeys_bind hL' (obeys_take hL') fun _ => obeys_pure hL' _
  · intro c
    cases hb : body.any Stmt.hasErrors with
    | true =>
      simp only [if_true]
      exact hL.unclosed c
    | false =>
      simp only [if_neg Bool.false_ne_true]
      exact hL.failed c .openBlock

/-- Blocks keep the law if the rules of their region do. -/
theorem obeys_block (hL : L.Loops) {n : Nat} (h : (Region.upTo n).Obeys L) :
    (block (.upTo n)).Obeys L := by
  have hbody : (always fun c => declarations (declaration (.upTo n)) c.rest c).Obeys L := hL.body h
  rw [block_eq]
  exact obeys_bind hL.toComposes hbody fun body => obeys_blockEnd hL body

end Rule

namespace Law.Loops

/-- **A law of declarations holds of every rule.**  However many regions can be
opened, all rules for what stands in them obey a law that the steps of rules and
the declarations of a block keep. -/
theorem region_obeys (hL : L.Loops) (n : Nat) : (Region.upTo n).Obeys L := by
  induction n with
  | zero =>
    exact ⟨Rule.obeys_fail hL.toComposes _, Rule.obeys_fail hL.toComposes _,
      Rule.obeys_fail hL.toComposes _, Rule.obeys_fail hL.toComposes _⟩
  | succ n ih =>
    have hx := Rule.expression_obeys hL.toComposes n
    exact ⟨hx, Rule.obeys_unary hL.toComposes ih.expression ih.unary, Rule.obeys_block hL ih,
      Rule.obeys_statement hL.toComposes hx ih.block ih.statement⟩

/-- Declarations before they are recovered keep the law in any number of regions. -/
theorem item_obeys (hL : L.Loops) (n : Nat) : (Rule.item (.upTo n)).Obeys L :=
  Rule.obeys_item hL.toComposes (Rule.expression_obeys hL.toComposes n) (hL.region_obeys n).block
    (hL.region_obeys n).statement

end Law.Loops

/-- All rules of a region keep a law that panic mode keeps. -/
theorem Region.obeys_upTo (hL : L.Recovers) (n : Nat) : (Region.upTo n).Obeys L :=
  hL.loops.region_obeys n

namespace Rule

/-- So do declarations before they are recovered. -/
theorem item_obeys (hL : L.Recovers) (n : Nat) : (item (.upTo n)).Obeys L := hL.loops.item_obeys n

/-- So do declarations. -/
theorem declaration_obeys (hL : L.Recovers) (n : Nat) (c : Cursor) :
    L c none (declaration (.upTo n) c).cursor (declaration (.upTo n) c).trace :=
  obeys_recover hL (item_obeys hL n) c

end Rule
end LoxFront
