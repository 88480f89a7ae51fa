/-
# All rules keep their place

The rules of the grammar are those for expressions (`Rule.ForExpr`) and those for
statements (`Rule.ForStmt`), and such rules in regions of their own.  From whatever place
they begin, they stop in the same tokens, with the same regions open and no further back;
and a rule that reads something takes a token for it (`Rule.ForExpr.advances`,
`Rule.ForStmt.advances`).  So do declarations, and panic mode stops likewise
(`Rule.framed`).
-/

import LoxFront.Proofs.Cursor.Semicolons
import LoxFront.Proofs.Cursor.Start
import LoxFront.Proofs.Rule.Progress

namespace LoxFront
namespace Rule

/-! ### The rules of the grammar -/

/-- The rules for expressions, where `n` regions can be opened.  The levels from products to
disjunctions are chains. -/
inductive ForExpr : Nat → Rule Expr → Prop where
  | primary (n : Nat) : ForExpr n (primary (.upTo n))
  | unary (n : Nat) : ForExpr n (unary (.upTo n))
  | chain {n : Nat} {operand : Rule Expr} (accepts : Kind → Bool) :
    ForExpr n operand → ForExpr n (chain accepts operand)
  | expression (n : Nat) : ForExpr n (expression (.upTo n))
  | nested {n : Nat} {r : Rule Expr} : ForExpr (n - 1) r → ForExpr n (nested r)

/-- The rules for statements, where `n` regions can be opened. -/
inductive ForStmt : Nat → Rule Stmt → Prop where
  | bindingStatement (n : Nat) (b : Binding) : ForStmt n (bindingStatement (.upTo n) b)
  | printStatement (n : Nat) : ForStmt n (printStatement (.upTo n))
  | expressionStatement (n : Nat) : ForStmt n (expressionStatement (.upTo n))
  | block (n : Nat) : ForStmt n (block (.upTo n))
  | ifStatement (n : Nat) : ForStmt n (ifStatement (.upTo n))
  | whileStatement (n : Nat) : ForStmt n (whileStatement (.upTo n))
  | forStatement (n : Nat) (keyword : Token) : ForStmt n (forStatement (.upTo n) keyword)
  | statement (n : Nat) : ForStmt n (statement (.upTo n))
  | nested {n : Nat} {r : Rule Stmt} : ForStmt (n - 1) r → ForStmt n (nested r)

/-- The level of disjunctions is a rule for expressions: chains on top of chains. -/
theorem ForExpr.disjunction (n : Nat) : ForExpr n (disjunction (.upTo n)) :=
  .chain _ (.chain _ (.chain _ (.chain _ (.chain _ (.chain _ (.unary n))))))

variable {α β : Type} {L : Law} {n : Nat} {c d : Cursor}

/-- Every rule for expressions keeps every law that single steps keep. -/
theorem ForExpr.obeys {r : Rule Expr} (hr : ForExpr n r) (hL : L.Composes) : r.Obeys L := by
  induction hr with
  | primary n => exact obeys_primary hL (Region.obeys_upTo_expression hL n).1
  | unary n =>
    exact obeys_unary hL (Region.obeys_upTo_expression hL n).1
      (Region.obeys_upTo_expression hL n).2
  | chain _ _ ih => exact obeys_chain hL ih
  | expression n => exact expression_obeys hL n
  | nested _ ih => exact obeys_nested hL ih

/-- Every rule for statements keeps every law that single steps and loops keep. -/
theorem ForStmt.obeys {r : Rule Stmt} (hr : ForStmt n r) (hL : L.Loops) : r.Obeys L := by
  have hx (n : Nat) := expression_obeys hL.toComposes n
  have hs (n : Nat) := (hL.region_obeys n).statement
  induction hr with
  | bindingStatement n b => exact obeys_bindingStatement hL.toComposes (hx n) b
  | printStatement n => exact obeys_printStatement hL.toComposes (hx n)
  | expressionStatement n => exact obeys_expressionStatement hL.toComposes (hx n)
  | block n => exact obeys_block hL (hL.region_obeys n)
  | ifStatement n => exact obeys_ifStatement hL.toComposes (hx n) (hs n)
  | whileStatement n => exact obeys_whileStatement hL.toComposes (hx n) (hs n)
  | forStatement n keyword => exact obeys_forStatement hL.toComposes (hx n) (hs n) keyword
  | statement n => exact obeys_statement hL.toComposes (hx n) (hL.region_obeys n).block (hs n)
  | nested _ ih => exact obeys_nested hL.toComposes ih

/-! ### Rules that take a token -/

/-- The rule takes a token for what it reads. -/
def Advances (r : Rule α) : Prop :=
  ∀ ⦃c a d⦄, c.marker.kind = .eof → r.Yields c a d → c.position < d.position

/-- A rule whose first part takes a token takes one, if the rest does not go back. -/
theorem Advances.bind {r : Rule α} {f : α → Rule β} (hr : r.Advances)
    (hf : ∀ a, (f a).Obeys frame) : (r >>= f).Advances := by
  intro c b d hm h
  obtain ⟨a, m, ha, h⟩ := yields_bind.1 h
  exact Nat.lt_of_lt_of_le (hr hm ha) (h.reaches (hf a)).position_le

/-- A rule in a region takes the token that it takes inside. -/
theorem Advances.nested {r : Rule α} (hr : r.Advances) : (nested r).Advances := by
  intro c a d hm h
  obtain ⟨-, m, hread, rfl⟩ := yields_nested.1 h
  have hlt : c.deeper.position < m.position := hr hm hread
  exact hlt

/-- To expect a token is to take it. -/
theorem advances_expect (k : Kind) (m : Complaint) : (expect k m).Advances := by
  intro c t d _ h
  rw [(yields_expect.1 h).2.position, List.length_singleton]
  exact Nat.lt_succ_self _

/-- A chain takes a token with its first operand. -/
theorem Advances.chain {operand : Rule Expr} (accepts : Kind → Bool) (ho : operand.Advances)
    (hf : operand.Obeys frame) : (chain accepts operand).Advances :=
  ho.bind fun left c => obeys_links frame_composes hf c.rest left c

/-- Every primary expression takes a token. -/
theorem advances_primary (n : Nat) : (primary (.upTo n)).Advances := by
  have hL := frame_composes
  have hi := (Region.obeys_upTo_expression hL n).1
  intro c e d hm h
  rw [primary, yields_kind_bind] at h
  split at h
  · next hk =>
    refine advances_of_take hm (by rw [hk]; decide) (fun _ => ?_) h
    exact obeys_bind hL (obeys_nested hL hi) fun _ => obeys_bind hL (obeys_expect hL _ _) fun _ =>
      obeys_pure hL _
  · next hk =>
    refine advances_of_take hm (by rw [hk]; decide) (fun _ => ?_) h
    exact obeys_bind hL .refl fun _ => obeys_pure hL _
  · split at h
    · next hk =>
      exact advances_of_take hm (by rintro heof; rw [heof] at hk; exact nomatch hk)
        (fun _ => obeys_pure hL _) h
    · exact absurd h not_yields_fail

/-- Every prefix expression takes a token. -/
theorem advances_unary (n : Nat) : (unary (.upTo n)).Advances := by
  have hL := frame_composes
  have hi := Region.obeys_upTo_expression hL n
  intro c e d hm h
  obtain ⟨o, m, ho, hbehind⟩ := yields_bind.1 h
  rcases yields_takeIf?.1 ho with ⟨op, rfl, -, hop⟩ | ⟨rfl, rfl, -⟩
  · have hle := (hbehind.reaches
      (obeys_bind hL (obeys_nested hL hi.2) fun _ => obeys_pure hL _)).position_le
    rw [hop.position, List.length_singleton] at hle
    exact hle
  · exact advances_primary n hm hbehind

/-- So do the levels of operators. -/
theorem advances_disjunction (n : Nat) : (disjunction (.upTo n)).Advances := by
  have hchain {operand : Rule Expr} (accepts : Kind → Bool)
      (ho : ForExpr n operand ∧ operand.Advances) :
      ForExpr n (chain accepts operand) ∧ (chain accepts operand).Advances :=
    ⟨.chain accepts ho.1, ho.2.chain accepts (ho.1.obeys frame_composes)⟩
  exact (hchain _ (hchain _ (hchain _ (hchain _ (hchain _ (hchain _
    ⟨.unary n, advances_unary n⟩)))))).2

/-- So does every expression. -/
theorem advances_expression (n : Nat) : (expression (.upTo n)).Advances := by
  rw [expression_eq]
  exact (advances_disjunction n).bind
    (obeys_assignmentRest frame_composes (Region.obeys_upTo_expression frame_composes n).1)

/-- **A rule for expressions takes a token for what it reads.** -/
theorem ForExpr.advances {r : Rule Expr} (hr : ForExpr n r) : r.Advances := by
  induction hr with
  | primary n => exact advances_primary n
  | unary n => exact advances_unary n
  | chain accepts hr ih => exact ih.chain accepts (hr.obeys frame_composes)
  | expression n => exact advances_expression n
  | nested _ ih => exact ih.nested

/-- A condition takes its parentheses at least. -/
theorem advances_condition (n : Nat) (opening closing : Complaint) :
    (condition (.upTo n) opening closing).Advances := by
  have hL := frame_composes
  exact (advances_expect _ _).bind fun _ => obeys_bind hL (expression_obeys hL n) fun _ =>
    obeys_bind hL (obeys_expect hL _ _) fun _ => obeys_pure hL _

/-- The clauses of a loop take their parentheses and semicolons at least. -/
theorem advances_clauses (n : Nat) : (clauses (.upTo n)).Advances := by
  have hL := frame_composes
  have hx := expression_obeys hL n
  refine (advances_expect _ _).bind fun _ => ?_
  refine obeys_bind hL (obeys_initialClause hL hx) fun initial => ?_
  refine obeys_bind hL (obeys_optional hL hx _) fun condition => ?_
  refine obeys_bind hL (obeys_expect hL _ _) fun _ => ?_
  refine obeys_bind hL (obeys_optional hL hx _) fun step => ?_
  exact obeys_bind hL (obeys_expect hL _ _) fun _ => obeys_pure hL _

/-- A block takes its closing brace.  If it is read without one, then up to the end, and it
has not begun there: an error stands in it. -/
theorem advances_block (n : Nat) : (block (.upTo n)).Advances := by
  intro c s d hm h
  rw [block_eq] at h
  obtain ⟨body, m, ⟨hbody, hmiddle⟩, hend⟩ := yields_bind.1 h
  have hreach : c.Reaches m :=
    hmiddle ▸ obeys_declarations frame_composes (declaration_obeys frame_recovers n) c.rest c
  rcases yields_blockEnd.1 hend with ⟨hclosed, -, rfl⟩ | ⟨hopen, herrors, -, rfl⟩
  · have hlt := Cursor.position_lt_next (Cursor.check_eq_true_iff.1 hclosed).1
    exact Nat.lt_of_le_of_lt hreach.position_le hlt
  · have hstop : d.isAtEnd = true ∨ d.check .rightBrace = true :=
      hmiddle ▸ declarations_stop n hm (Nat.le_refl c.rest.length)
    refine hreach.position_lt_of_isAtEnd ?_ (hstop.resolve_right (by simp [hopen]))
    refine Bool.of_not_eq_true fun hc => ?_
    have hnil : (declarations (declaration (.upTo n)) c.rest c).value = [] := by
      rw [Cursor.rest_eq_nil hc, declarations]
    rw [← Except.ok.inj hbody, hnil] at herrors
    exact absurd herrors Bool.false_ne_true

/-- **A rule for statements takes a token for what it reads.** -/
theorem ForStmt.advances {r : Rule Stmt} (hr : ForStmt n r) : r.Advances := by
  have hL := frame_composes
  have hx (n : Nat) := expression_obeys hL n
  have hs (n : Nat) := (Region.obeys_upTo frame_recovers n).statement
  induction hr with
  | bindingStatement n b =>
    rw [bindingStatement_eq]
    exact (advances_expect _ _).bind (obeys_bindingRest hL (hx n) b)
  | printStatement n | expressionStatement n =>
    exact (advances_expression n).bind fun _ => obeys_bind hL (obeys_expect hL _ _) fun _ =>
      obeys_pure hL _
  | block n => exact advances_block n
  | ifStatement n =>
    rw [ifStatement_eq]
    exact (advances_condition n _ _).bind fun value => obeys_bind hL (obeys_nested hL (hs n))
      fun yes => obeys_elseBranch hL (hs n) value yes
  | whileStatement n =>
    rw [whileStatement_eq]
    exact (advances_condition n _ _).bind fun _ => obeys_bind hL (obeys_nested hL (hs n))
      fun _ => obeys_pure hL _
  | forStatement n keyword =>
    rw [forStatement_eq]
    exact (advances_clauses n).bind fun _ => obeys_bind hL (obeys_nested hL (hs n))
      fun _ => obeys_pure hL _
  | statement n => exact fun c s d hm h => statement_advances hm h
  | nested _ ih => exact ih.nested

/-! ### From one place to another -/

/-- From the cursor `c` a way leads to the cursor `d` in the same tokens: the same regions are
open there, and it stands at the end marker or before it and not before `c`. -/
structure Leads (tokens : List Token) (c d : Cursor) : Prop where
  on : d.On tokens
  depth : d.depth = c.depth
  position_le : c.position ≤ d.position
  position_lt : d.position < tokens.length

/-- A place reached from a place in a list is led to in that list. -/
theorem Leads.of_reaches {tokens : List Token} (hc : c.On tokens) (h : c.Reaches d) :
    Leads tokens c d where
  on := hc.of_reaches h
  depth := h.depth
  position_le := h.position_le
  position_lt := by
    have hlen := (hc.of_reaches h).length
    omega

/-- Whatever the rule ends with, it stops at a place that the cursor leads to, and behind the
cursor if it reads something. -/
structure Keeps (tokens : List Token) (c : Cursor) (r : Rule α) : Prop where
  leads : Leads tokens c (r c).cursor
  advances : ∀ a, (r c).value = .ok a → c.position < (r c).cursor.position

/-- A rule that goes forward and takes a token for what it reads keeps its place. -/
theorem Keeps.of_obeys {tokens : List Token} {r : Rule α} (hr : r.Obeys frame) (ha : r.Advances)
    (hc : c.On tokens) (hm : c.marker.kind = .eof) : Keeps tokens c r where
  leads := .of_reaches hc (hr c)
  advances _ hv := ha hm ⟨hv, rfl⟩

/-- All that begins at a cursor keeps its place, where `n` regions can be opened.  A rule that
stands in a region stops with this region open, so closing it takes one region off. -/
structure Framed (tokens : List Token) (n : Nat) (c : Cursor) : Prop where
  expression : ∀ r, ForExpr n r → Keeps tokens c r
  statement : ∀ r, ForStmt n r → Keeps tokens c r
  declaration : Leads tokens c (declaration (.upTo n) c).cursor
  declaration_advances : (Rule.declaration (.upTo n) c).value.isError = false →
    c.position < (Rule.declaration (.upTo n) c).cursor.position
  resume : Leads tokens c c.resume
  region_expression : ∀ i, c.descend? = some i → ∀ r, ForExpr n r →
    (r i).cursor.depth = c.depth + 1
  region_statement : ∀ i, c.descend? = some i → ∀ r, ForStmt n r →
    (r i).cursor.depth = c.depth + 1

/-- A declaration that is no error takes a token. -/
theorem declaration_advances_of_no_error (hm : c.marker.kind = .eof)
    (h : (declaration (.upTo n) c).value.isError = false) :
    c.position < (declaration (.upTo n) c).cursor.position := by
  rw [declaration_eq] at h ⊢
  cases hv : (item (.upTo n) c).value with
  | ok s =>
    rw [recover_of_ok hv]
    exact item_advances hm ⟨hv, rfl⟩
  | error e =>
    rw [recover_of_error hv] at h
    exact absurd h (by simp [Stmt.isError])

end Rule

/-- The marker of a cursor in sound tokens is an end marker. -/
theorem Cursor.On.marker_kind {tokens : List Token} {s c : Cursor}
    (hs : Cursor.ofTokens tokens = .ok s) (hc : c.On tokens) : c.marker.kind = .eof := by
  obtain ⟨body, marker, hsound, rfl, -⟩ := Cursor.ofTokens_eq_ok_iff.1 hs
  have hlast := hc.getLast?
  rw [List.getLast?_concat] at hlast
  exact Option.some.inj hlast ▸ hsound.marker_kind

/-- **Every rule keeps its place.**  Wherever a cursor stands in sound tokens and however many
regions are open there, every rule of the grammar and panic mode stop in the same tokens, with
the same regions open, not past the end marker and no further back; and what reads something
takes a token. -/
theorem Rule.framed {tokens : List Token} {s c : Cursor} (hs : Cursor.ofTokens tokens = .ok s)
    (hc : c.On tokens) (n : Nat) : Framed tokens n c := by
  have hm := hc.marker_kind hs
  have hloops := frame_recovers.loops
  have hdepth {i d : Cursor} (hi : c.descend? = some i) (h : i.Reaches d) :
      d.depth = c.depth + 1 := by
    obtain ⟨-, rfl⟩ := Cursor.descend?_eq_some_iff.1 hi
    exact h.depth
  exact {
    expression := fun r hr => .of_obeys (hr.obeys frame_composes) hr.advances hc hm
    statement := fun r hr => .of_obeys (hr.obeys hloops) hr.advances hc hm
    declaration := .of_reaches hc (declaration_obeys frame_recovers n c)
    declaration_advances := declaration_advances_of_no_error hm
    resume := .of_reaches hc c.reaches_resume
    region_expression := fun i hi r hr => hdepth hi (hr.obeys frame_composes i)
    region_statement := fun i hi r hr => hdepth hi (hr.obeys hloops i) }

/-- At the opening brace of `{ a + ; b ; }`, with thirty-one regions open. -/
theorem Rule.framed_block :
    let semicolon : Token := ⟨.semicolon, ";", 1, .none⟩
    let body : List Token :=
      [⟨.leftBrace, "\x7b", 1, .none⟩, ⟨.identifier, "a", 1, .none⟩, ⟨.plus, "+", 1, .none⟩,
        semicolon, ⟨.identifier, "b", 1, .none⟩, semicolon, ⟨.rightBrace, "\x7d", 1, .none⟩]
    let tokens := body ++ [.atEnd 1]
    let c : Cursor := ⟨body, .atEnd 1, 0, 31⟩
    Cursor.ofTokens tokens = .ok ⟨body, .atEnd 1, 0, 0⟩ ∧ c.On tokens ∧ Framed tokens 1 c := by
  intro semicolon body tokens c
  have hs : Cursor.ofTokens tokens = .ok ⟨body, .atEnd 1, 0, 0⟩ := rfl
  have hc : c.On tokens := rfl
  exact ⟨hs, hc, framed hs hc 1⟩

end LoxFront
