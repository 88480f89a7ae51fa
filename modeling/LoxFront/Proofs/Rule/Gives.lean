/-
# What rules give is confined

A condition on the values of a rule (`Rule.Gives`) goes from the parts of the rule to the
rule, and from the rules of the regions in it.  Rules for expressions give whole
expressions (`Rule.expression_gives`), and rules for statements give statements whose
errors stand in blocks (`Rule.item_gives`).
-/

import LoxFront.Proofs.Rule.Law
import LoxFront.Proofs.Tree.Errors

namespace LoxFront
namespace Rule

variable {α β : Type} {P : α → Prop} {Q : β → Prop} {r : Rule α} {f : α → Rule β}

/-- All that the rule reads meets the condition. -/
def Gives (P : α → Prop) (r : Rule α) : Prop := ∀ ⦃c a d⦄, r.Yields c a d → P a

/-- A value is given if it is one to be given. -/
theorem gives_pure {a : α} (h : P a) : (pure a : Rule α).Gives P := by
  intro c b d hb
  obtain ⟨rfl, -⟩ := yields_pure.1 hb
  exact h

/-- A complaint gives nothing. -/
theorem gives_fail (k : Complaint) : (fail k : Rule α).Gives P :=
  fun _ _ _ h => absurd h not_yields_fail

/-- A rule gives what its second part does from all that its first part gives. -/
theorem Gives.bind (hr : r.Gives P) (hf : ∀ a, P a → (f a).Gives Q) : (r >>= f).Gives Q := by
  intro c b d h
  obtain ⟨a, m, ha, hb⟩ := yields_bind.1 h
  exact hf a (hr ha) hb

/-- The condition may not depend on what comes first. -/
theorem gives_bind (hf : ∀ a, (f a).Gives Q) : (r >>= f).Gives Q := by
  intro c b d h
  obtain ⟨a, m, -, hb⟩ := yields_bind.1 h
  exact hf a hb

/-- A rule in a region gives what it gives inside. -/
theorem Gives.nested (hr : r.Gives P) : (nested r).Gives P := by
  intro c a d h
  obtain ⟨-, m, ha, -⟩ := yields_nested.1 h
  exact hr ha

/-! ### Rules for expressions -/

/-- The links of a chain give whole expressions if the operands are whole. -/
theorem links_gives {accepts : Kind → Bool} {operand : Rule Expr}
    (ho : operand.Gives Expr.Whole) {left : Expr} (hl : left.Whole) (more : List Token) :
    (links accepts operand more left).Gives Expr.Whole := by
  induction more generalizing left with
  | nil => exact gives_pure hl
  | cons t more ih =>
    refine gives_bind fun o => ?_
    split
    · exact ho.bind fun right hr => ih ⟨hl, hr⟩
    · exact gives_pure hl

/-- So does the chain. -/
theorem Gives.chain {accepts : Kind → Bool} {operand : Rule Expr}
    (ho : operand.Gives Expr.Whole) : (chain accepts operand).Gives Expr.Whole :=
  ho.bind fun _ hl c _ _ h => links_gives ho hl c.rest h

variable {inner : Region}

/-- Primary expressions are whole if those in parentheses are. -/
theorem primary_gives (he : inner.expression.Gives Expr.Whole) :
    (primary inner).Gives Expr.Whole := by
  refine gives_bind fun k => ?_
  split
  · exact gives_bind fun _ => he.nested.bind fun e h => gives_bind fun _ => gives_pure h
  · exact gives_bind fun _ => gives_bind fun _ => gives_pure trivial
  · split
    · exact gives_bind fun _ => gives_pure trivial
    · exact gives_fail _

/-- Prefix expressions are whole if their operands are. -/
theorem unary_gives (he : inner.expression.Gives Expr.Whole)
    (hu : inner.unary.Gives Expr.Whole) : (unary inner).Gives Expr.Whole := by
  refine gives_bind fun o => ?_
  split
  · exact hu.nested.bind fun e h => gives_pure h
  · exact primary_gives he

/-- An assignment to a whole target is whole. -/
theorem assignmentRest_gives (he : inner.expression.Gives Expr.Whole) {target : Expr}
    (ht : target.Whole) : (assignmentRest inner target).Gives Expr.Whole := by
  refine gives_bind fun b => ?_
  split
  · split
    · exact gives_bind fun _ => he.nested.bind fun e h => gives_pure h
    · exact gives_fail _
  · exact gives_pure ht

/-- Expressions are whole if those in regions are. -/
theorem expression_gives_of (he : inner.expression.Gives Expr.Whole)
    (hu : inner.unary.Gives Expr.Whole) : (expression inner).Gives Expr.Whole := by
  rw [expression_eq]
  have hd : (disjunction inner).Gives Expr.Whole :=
    (unary_gives he hu).chain.chain.chain.chain.chain.chain
  exact hd.bind fun _ ht => assignmentRest_gives he ht

/-- So they are in any number of regions. -/
theorem region_gives_whole (n : Nat) :
    (Region.upTo n).expression.Gives Expr.Whole ∧ (Region.upTo n).unary.Gives Expr.Whole := by
  induction n with
  | zero => exact ⟨gives_fail _, gives_fail _⟩
  | succ n ih => exact ⟨expression_gives_of ih.1 ih.2, unary_gives ih.1 ih.2⟩

/-- **Whatever is read as an expression is whole.** -/
theorem expression_gives (n : Nat) : (expression (.upTo n)).Gives Expr.Whole :=
  expression_gives_of (region_gives_whole n).1 (region_gives_whole n).2

/-! ### Statements without statements in them -/

section

variable (hx : (expression inner).Gives Expr.Whole)
include hx

/-- A declaration is confined: its value is whole or missing. -/
theorem bindingRest_gives (b : Binding) (name : Token) :
    (bindingRest inner b name).Gives Stmt.Confined := by
  have hend {value : Expr} (hv : value = .empty ∨ value.Whole) :
      (bindingEnd b name value).Gives Stmt.Confined :=
    gives_bind fun _ => gives_pure (by rwa [Stmt.Confined])
  refine gives_bind fun k => ?_
  split
  · exact gives_bind fun _ => gives_pure (by rw [Stmt.Confined]; exact .inl rfl)
  · refine gives_bind fun _ => gives_bind fun omitted => ?_
    split
    · exact hend (.inl rfl)
    · exact hx.bind fun value hv => hend (.inr hv)
  · exact gives_fail _

/-- The same from the name on. -/
theorem bindingStatement_gives (b : Binding) :
    (bindingStatement inner b).Gives Stmt.Confined := by
  rw [bindingStatement_eq]
  exact gives_bind fun name => bindingRest_gives hx b name

/-- Print statements are confined. -/
theorem printStatement_gives : (printStatement inner).Gives Stmt.Confined :=
  hx.bind fun _ h => gives_bind fun _ => gives_pure (by rwa [Stmt.Confined])

/-- Expression statements are confined. -/
theorem expressionStatement_gives : (expressionStatement inner).Gives Stmt.Confined :=
  hx.bind fun _ h => gives_bind fun _ => gives_pure (by rwa [Stmt.Confined])

/-- An initial clause is confined, if it is there. -/
theorem initialClause_gives :
    (initialClause inner).Gives fun initial => ∀ s ∈ initial, s.Confined := by
  refine gives_bind fun k => ?_
  split
  · exact gives_bind fun _ => gives_pure nofun
  · split
    · refine gives_bind fun _ => (bindingStatement_gives hx _).bind fun s h => gives_pure ?_
      rintro _ ⟨⟩
      exact h
    · refine (expressionStatement_gives hx).bind fun s h => gives_pure ?_
      rintro _ ⟨⟩
      exact h

/-- A clause is whole, if it is there. -/
theorem optional_gives (k : Kind) :
    (optional inner k).Gives fun value => ∀ e ∈ value, e.Whole := by
  refine gives_bind fun omitted => ?_
  split
  · exact gives_pure nofun
  · refine hx.bind fun e h => gives_pure ?_
    rintro _ ⟨⟩
    exact h

/-- A condition is whole. -/
theorem condition_gives (opening closing : Complaint) :
    (condition inner opening closing).Gives Expr.Whole :=
  gives_bind fun _ => hx.bind fun _ h => gives_bind fun _ => gives_pure h

/-- The parts of a `for` statement in its parentheses are confined. -/
theorem clauses_gives : (clauses inner).Gives fun head =>
    (∀ s ∈ head.1, s.Confined) ∧ (∀ e ∈ head.2.1, e.Whole) ∧ ∀ e ∈ head.2.2, e.Whole := by
  refine gives_bind fun _ => (initialClause_gives hx).bind fun initial hi => ?_
  refine (optional_gives hx _).bind fun condition hc => gives_bind fun _ => ?_
  exact (optional_gives hx _).bind fun step hs => gives_bind fun _ => gives_pure ⟨hi, hc, hs⟩

/-! ### Statements with statements in them -/

variable (hs : inner.statement.Gives Stmt.Confined)
include hs

/-- Conditionals are confined if the statements in regions are. -/
theorem ifStatement_gives : (ifStatement inner).Gives Stmt.Confined := by
  rw [ifStatement_eq]
  refine (condition_gives hx _ _).bind fun value hv => hs.nested.bind fun yes hy => ?_
  refine gives_bind fun otherwise => ?_
  split
  · refine gives_bind fun _ => hs.nested.bind fun no hn => gives_pure ?_
    rw [Stmt.Confined]
    exact ⟨hv, hy, hn⟩
  · refine gives_pure ?_
    rw [Stmt.Confined]
    exact ⟨hv, hy⟩

/-- Loops are confined if the statements in regions are. -/
theorem whileStatement_gives : (whileStatement inner).Gives Stmt.Confined := by
  rw [whileStatement_eq]
  refine (condition_gives hx _ _).bind fun value hv => hs.nested.bind fun body hb => ?_
  refine gives_pure ?_
  rw [Stmt.Confined]
  exact ⟨hv, hb⟩

/-- `for` loops are confined if the statements in regions are. -/
theorem forStatement_gives (keyword : Token) :
    (forStatement inner keyword).Gives Stmt.Confined := by
  rw [forStatement_eq]
  refine (clauses_gives hx).bind fun head ⟨hi, hc, hstep⟩ => hs.nested.bind fun body hb => ?_
  exact gives_pure (.forLoop hi hc hstep hb)

variable (hb : inner.block.Gives Stmt.Confined)
include hb

/-- Statements are confined if those in regions are. -/
theorem statement_gives_of : (statement inner).Gives Stmt.Confined := by
  refine gives_bind fun k => ?_
  split
  · exact gives_bind fun _ => printStatement_gives hx
  · exact gives_bind fun _ => hb.nested
  · exact gives_bind fun _ => ifStatement_gives hx hs
  · exact gives_bind fun keyword => forStatement_gives hx hs keyword
  · exact gives_bind fun _ => whileStatement_gives hx hs
  · exact expressionStatement_gives hx

/-- So are declarations before they are recovered. -/
theorem item_gives_of : (item inner).Gives Stmt.Confined := by
  refine gives_bind fun k => ?_
  split
  · exact gives_bind fun _ => bindingStatement_gives hx _
  · exact statement_gives_of hx hs hb

end

/-! ### Declarations and blocks -/

/-- An error takes the place of a statement, or the statement is confined. -/
theorem Gives.recover {r : Rule Stmt} (hr : r.Gives Stmt.Confined) (c : Cursor) :
    (recover r c).value.isError = true ∨ (recover r c).value.Confined := by
  cases hv : (r c).value with
  | ok s =>
    rw [recover_of_ok hv]
    exact .inr (hr ⟨hv, rfl⟩)
  | error e =>
    rw [recover_of_error hv]
    exact .inl rfl

/-- In a row of declarations each is confined or an error. -/
theorem declarations_confined {item : Cursor → Parsed Stmt}
    (hi : ∀ c, (item c).value.isError = true ∨ (item c).value.Confined) (more : List Token)
    (c : Cursor) : Stmt.AllConfined (declarations item more c).value := by
  induction more generalizing c with
  | nil => exact Stmt.allConfined_iff.2 (List.forall_mem_nil _)
  | cons t more ih =>
    rw [declarations]
    split
    · exact Stmt.allConfined_iff.2 (List.forall_mem_nil _)
    · rw [Stmt.AllConfined]
      exact ⟨hi c, ih _⟩

/-- A block is confined, also with the error for a missing brace as its last statement. -/
theorem blockEnd_gives {body : List Stmt} (hb : Stmt.AllConfined body) :
    (blockEnd body).Gives Stmt.Confined := by
  intro c s d h
  rcases yields_blockEnd.1 h with ⟨-, rfl, -⟩ | ⟨-, -, rfl, -⟩
  · rwa [Stmt.Confined]
  · rw [Stmt.Confined, Stmt.allConfined_iff]
    intro s hs
    rcases List.mem_append.1 hs with hs | hs
    · exact Stmt.allConfined_iff.1 hb s hs
    · exact .inl (List.mem_singleton.1 hs ▸ rfl)

/-- Blocks are confined if declarations are. -/
theorem block_gives_of (hi : (item inner).Gives Stmt.Confined) :
    (block inner).Gives Stmt.Confined := by
  have hbody : (always fun c => declarations (declaration inner) c.rest c).Gives
      Stmt.AllConfined := by
    rintro c body d ⟨hv, -⟩
    exact Except.ok.inj hv ▸ declarations_confined hi.recover c.rest c
  rw [block_eq]
  exact hbody.bind fun _ => blockEnd_gives

/-- The statements and the blocks of every region are confined. -/
theorem region_gives_confined (n : Nat) :
    (Region.upTo n).statement.Gives Stmt.Confined ∧ (Region.upTo n).block.Gives Stmt.Confined := by
  induction n with
  | zero => exact ⟨gives_fail _, gives_fail _⟩
  | succ n ih =>
    have hx := expression_gives n
    exact ⟨statement_gives_of hx ih.1 ih.2, block_gives_of (item_gives_of hx ih.1 ih.2)⟩

/-- **Whatever is read as a declaration is confined.** -/
theorem item_gives (n : Nat) : (item (.upTo n)).Gives Stmt.Confined :=
  item_gives_of (expression_gives n) (region_gives_confined n).1 (region_gives_confined n).2

end Rule
end LoxFront
