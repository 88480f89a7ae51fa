/-
# The parts of statements

What stands between a keyword and the first statement behind it has no statement
in it: the condition of an `if` or `while` (`Rule.condition`) and the clauses of a
`for` (`Rule.clauses`).  Two rules go on behind statements: `Rule.elseBranch`
behind the first branch of an `if`, and `Rule.blockEnd` behind those of a block.  A
declaration goes on behind its name (`Rule.bindingRest`), and an assignment behind what
it assigns to (`Rule.assignmentRest`).
-/

import LoxFront.Rule.Stmt
import LoxFront.Proofs.Rule.Yields

namespace LoxFront
namespace Rule

/-- There are two keywords that declarations begin with. -/
theorem binding?_eq_some_iff {k : Kind} {b : Binding} :
    binding? k = some b ↔ (k = .varWord ∧ b = .var) ∨ (k = .constWord ∧ b = .const) := by
  cases k <;> simp [binding?, eq_comm]

/-- Neither of them is the end marker. -/
theorem ne_eof_of_binding? {k : Kind} {b : Binding} (h : binding? k = some b) : k ≠ .eof := by
  rintro rfl
  exact nomatch h

/-- A condition in parentheses. -/
def condition (inner : Region) (opening closing : Complaint) : Rule Expr := do
  let _ ← expect .leftParen opening
  let value ← expression inner
  let _ ← expect .rightParen closing
  return value

/-- The clauses of a `for` statement in parentheses: what comes first, the
condition and the step. -/
def clauses (inner : Region) : Rule (Option Stmt × Option Expr × Option Expr) := do
  let _ ← expect .leftParen .forOpening
  let initial ← initialClause inner
  let condition ← optional inner .semicolon
  let _ ← expect .semicolon .conditionEnd
  let step ← optional inner .rightParen
  let _ ← expect .rightParen .forClosing
  return (initial, condition, step)

/-- What stands behind the first branch of an `if`: the other one, if there is an
`else`. -/
def elseBranch (inner : Region) (value : Expr) (yes : Stmt) : Rule Stmt := do
  if ← nextIs .elseWord then
    let _ ← take
    return .ifElse value yes (← nested inner.statement)
  else return .ifThen value yes

/-- The end of a block with these statements in it. -/
def blockEnd (body : List Stmt) : Rule Stmt := do
  if ← nextIs .rightBrace then
    let _ ← take
    return .block body
  else
    let e ← complain .openBlock
    if body.any Stmt.hasErrors then return .block (body ++ [.error e]) else raise e

/-- What stands behind the left side of an assignment, or behind an expression that is no
assignment. -/
def assignmentRest (inner : Region) (target : Expr) : Rule Expr := do
  if ← nextIs .equal then
    match target.identifier? with
    | some name =>
      let _ ← take
      return .assign name (← nested inner.expression)
    | none => fail .noTarget
  else return target

/-- The end of a declaration with this value. -/
def bindingEnd (binding : Binding) (name : Token) (value : Expr) : Rule Stmt := do
  let _ ← expect .semicolon .declarationEnd
  return .declare binding name value

/-- What stands behind the name of a declaration. -/
def bindingRest (inner : Region) (binding : Binding) (name : Token) : Rule Stmt := do
  match ← kind with
  | .semicolon =>
    let _ ← take
    return .declare binding name .empty
  | .equal =>
    let _ ← take
    let value ← if ← nextIs .semicolon then pure .empty else expression inner
    bindingEnd binding name value
  | _ => fail .afterName

variable (inner : Region)

/-- An expression is a disjunction and, behind it, what may make it an assignment. -/
theorem expression_eq : expression inner = disjunction inner >>= assignmentRest inner := rfl

/-- A declaration is a name and what may stand behind it. -/
theorem bindingStatement_eq (binding : Binding) :
    bindingStatement inner binding =
      expect .identifier .noName >>= fun name => bindingRest inner binding name := rfl

/-- A block is its declarations and what closes it. -/
theorem block_eq :
    block inner = always (fun c => declarations (declaration inner) c.rest c) >>= blockEnd := rfl

/-- A conditional is a condition, a statement in a region and what may stand behind it. -/
theorem ifStatement_eq :
    ifStatement inner = condition inner .ifOpening .ifClosing >>= fun value =>
      nested inner.statement >>= fun yes => elseBranch inner value yes := by
  simp only [ifStatement, condition, elseBranch, bind_assoc, pure_bind]

/-- A loop is a condition and a statement in a region. -/
theorem whileStatement_eq :
    whileStatement inner = condition inner .whileOpening .whileClosing >>= fun value =>
      nested inner.statement >>= fun body => pure (.whileLoop value body) := by
  simp only [whileStatement, condition, bind_assoc, pure_bind]

/-- A `for` loop is its clauses and a statement in a region. -/
theorem forStatement_eq (keyword : Token) :
    forStatement inner keyword = clauses inner >>= fun head =>
      nested inner.statement >>= fun body =>
        pure (.forLoop keyword.line head.1 head.2.1 head.2.2 body) := by
  simp only [forStatement, clauses, bind_assoc, pure_bind]

/-- A block ends with its closing brace, or where there is none with its error behind the
others in it. -/
theorem yields_blockEnd {body : List Stmt} {s : Stmt} {c d : Cursor} :
    (blockEnd body).Yields c s d ↔
      (c.check .rightBrace = true ∧ s = .block body ∧ d = c.next) ∨
        (c.check .rightBrace = false ∧ body.any Stmt.hasErrors = true ∧
          s = .block (body ++ [.error (Complaint.openBlock.about c.peek)]) ∧ d = c) := by
  rw [blockEnd, yields_nextIs_bind]
  cases hclosed : c.check .rightBrace with
  | true =>
    rw [if_pos rfl]
    simpa [yields_take] using and_comm
  | false =>
    rw [if_neg Bool.false_ne_true]
    cases herrors : body.any Stmt.hasErrors with
    | true => simp [Yields, complain, Bind.bind, andThen, Pure.pure, give, eq_comm]
    | false => simp [Yields, complain, raise, Bind.bind, andThen]

end Rule
end LoxFront
