/-
# Rules for statements

The statements of section 4.3 of SPEC_FULL.md, with the functions `declaration`,
`var_declaration`, `statement`, `print_statement`, `expression_statement`, `block`,
`if_statement`, `while_statement`, `for_statement` and `desugar_for`:

    declaration  = ("var" | "const") name ("=" expression?)? ";" | statement
    statement    = expression ";" | "print" expression ";" | block
                 | "if" "(" expression ")" statement ("else" statement)?
                 | "while" "(" expression ")" statement
                 | "for" "(" initial expression? ";" expression? ")" statement
    initial      = ("var" | "const") … ";" | expression ";" | ";"
    block        = "{" declaration* "}"

A declaration never fails: its error becomes a statement, and what follows up to the next
semicolon is dropped (section 4.4, `Rule.recover`).  A `for` loop is written with `while`,
with the word `true` for a condition that is missing (section 15, `Stmt.forLoop`).
-/

import LoxFront.Rule.Expr

namespace LoxFront

/-- A `for` loop on the line of its keyword: the initial statement, then a loop
over the body with the step behind it.  Without a condition the loop goes on
for ever. -/
def Stmt.forLoop (line : Nat) (initial : Option Stmt) (condition step : Option Expr)
    (body : Stmt) : Stmt :=
  let body :=
    match step with
    | some e => .block [body, .expression e]
    | none => body
  let loop := .whileLoop (condition.getD (.literal ⟨.trueWord, "true", line, .none⟩)) body
  match initial with
  | some s => .block [s, loop]
  | none => loop

namespace Rule

/-- The declarations that a kind of token begins. -/
def binding? : Kind → Option Binding
  | .varWord => some .var
  | .constWord => some .const
  | _ => none

/-- A declaration behind its keyword. -/
def bindingStatement (inner : Region) (binding : Binding) : Rule Stmt := do
  let name ← expect .identifier .noName
  match ← kind with
  | .semicolon =>
    let _ ← take
    return .declare binding name .empty
  | .equal =>
    let _ ← take
    let value ← if ← nextIs .semicolon then pure .empty else expression inner
    let _ ← expect .semicolon .declarationEnd
    return .declare binding name value
  | _ => fail .afterName

/-- A `print` statement behind its keyword. -/
def printStatement (inner : Region) : Rule Stmt := do
  let value ← expression inner
  let _ ← expect .semicolon .printEnd
  return .print value

/-- An expression as a statement. -/
def expressionStatement (inner : Region) : Rule Stmt := do
  let value ← expression inner
  let _ ← expect .semicolon .expressionEnd
  return .expression value

/-- An `if` statement behind its keyword.  An `else` goes with the nearest `if`
before it. -/
def ifStatement (inner : Region) : Rule Stmt := do
  let _ ← expect .leftParen .ifOpening
  let condition ← expression inner
  let _ ← expect .rightParen .ifClosing
  let yes ← nested inner.statement
  if ← nextIs .elseWord then
    let _ ← take
    return .ifElse condition yes (← nested inner.statement)
  else return .ifThen condition yes

/-- A `while` statement behind its keyword. -/
def whileStatement (inner : Region) : Rule Stmt := do
  let _ ← expect .leftParen .whileOpening
  let condition ← expression inner
  let _ ← expect .rightParen .whileClosing
  return .whileLoop condition (← nested inner.statement)

/-- The first clause of a `for` statement. -/
def initialClause (inner : Region) : Rule (Option Stmt) := do
  match ← kind with
  | .semicolon =>
    let _ ← take
    return none
  | k =>
    match binding? k with
    | some binding =>
      let _ ← take
      return some (← bindingStatement inner binding)
    | none => return some (← expressionStatement inner)

/-- An expression, unless it is left out before this kind of token. -/
def optional (inner : Region) (k : Kind) : Rule (Option Expr) := do
  if ← nextIs k then return none else return some (← expression inner)

/-- A `for` statement behind its keyword. -/
def forStatement (inner : Region) (keyword : Token) : Rule Stmt := do
  let _ ← expect .leftParen .forOpening
  let initial ← initialClause inner
  let condition ← optional inner .semicolon
  let _ ← expect .semicolon .conditionEnd
  let step ← optional inner .rightParen
  let _ ← expect .rightParen .forClosing
  let body ← nested inner.statement
  return .forLoop keyword.line initial condition step body

/-- A statement. -/
def statement (inner : Region) : Rule Stmt := do
  match ← kind with
  | .printWord =>
    let _ ← take
    printStatement inner
  | .leftBrace =>
    let _ ← take
    nested inner.block
  | .ifWord =>
    let _ ← take
    ifStatement inner
  | .forWord =>
    let keyword ← take
    forStatement inner keyword
  | .whileWord =>
    let _ ← take
    whileStatement inner
  | _ => expressionStatement inner

/-- A statement that takes the place of its error, with the tokens up to the
next semicolon dropped. -/
def recover (r : Rule Stmt) (c : Cursor) : Parsed Stmt :=
  match r c with
  | ⟨.ok s, d, trace⟩ => ⟨s, d, .entered c.position :: trace⟩
  | ⟨.error e, d, trace⟩ =>
    let after := d.resume
    ⟨.error e, after,
      .entered c.position :: trace
        ++ [.panicked d.position d.peek.line, .resumed (after.position - d.position)]⟩

/-- A declaration. -/
def declaration (inner : Region) : Cursor → Parsed Stmt :=
  recover do
    match binding? (← kind) with
    | some binding =>
      let _ ← take
      bindingStatement inner binding
    | none => statement inner

/-- Declarations up to a closing brace, no more than there are tokens in the
list. -/
def declarations (item : Cursor → Parsed Stmt) : List Token → Cursor → Parsed (List Stmt)
  | [], c => ⟨[], c, []⟩
  | _ :: more, c =>
    if c.isAtEnd || c.check .rightBrace then ⟨[], c, []⟩
    else
      let p := item c
      let q := declarations item more p.cursor
      ⟨p.value :: q.value, q.cursor, p.trace ++ q.trace⟩

/-- A block behind its opening brace.  If it is not closed and errors stand in
it, the error goes behind them; else it takes the place of the block. -/
def block (inner : Region) : Rule Stmt := do
  let body ← always fun c => declarations (declaration inner) c.rest c
  if ← nextIs .rightBrace then
    let _ ← take
    return .block body
  else
    let e ← complain .openBlock
    if body.any Stmt.hasErrors then return .block (body ++ [.error e]) else raise e

end Rule

namespace Region

/-- The rules of a region, by the rules of the regions in it. -/
def around (inner : Region) : Region :=
  ⟨Rule.expression inner, Rule.unary inner, Rule.block inner, Rule.statement inner⟩

/-- The rules for so many regions in one another.  `Rule.nested` refuses a region
too many before it asks for the rules of that region, so those of level zero
are never used. -/
def upTo : Nat → Region
  | 0 => ⟨Rule.fail .tooDeep, Rule.fail .tooDeep, Rule.fail .tooDeep, Rule.fail .tooDeep⟩
  | n + 1 => (upTo n).around

end Region
end LoxFront
