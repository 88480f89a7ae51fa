/-
# Syntax errors and reports

`ParseError`, `ParseReport` and `ParseFailure` of section 11 of SPEC_FULL.md with their
texts, and the messages that the functions of the grammar raise.

A syntax error is a message at a token.  The errors that a rule of the grammar raises are
the finitely many complaints below (`Complaint`); a report lists all errors of a pass.
-/

import LoxFront.Diagnostic
import LoxFront.Token

namespace LoxFront

/-- A message at a token. -/
structure ParseError where
  message : String
  token : Token
  deriving DecidableEq, Repr

namespace ParseError

/-- The line of a report. -/
def text (e : ParseError) : String :=
  if e.token.kind = .eof then s!"[line {e.token.line}] Error at end: {e.message}"
  else s!"[line {e.token.line}] Error at '{e.token.lexeme}': {e.message}"

/-- Same message at the same token. -/
def same (d e : ParseError) : Bool := d.message == e.message && d.token.same e.token

end ParseError

/-- What a rule of the grammar misses at a token. -/
inductive Complaint where
  /-- No expression begins here. -/
  | noExpression
  /-- What stands before the equals sign is no variable. -/
  | noTarget
  /-- A grouping is not closed. -/
  | openGrouping
  /-- No name follows `var` or `const`. -/
  | noName
  /-- Neither a value nor a semicolon follows a declared name. -/
  | afterName
  | declarationEnd
  | printEnd
  | expressionEnd
  /-- A block is not closed. -/
  | openBlock
  | ifOpening
  | ifClosing
  | whileOpening
  | whileClosing
  | forOpening
  | conditionEnd
  | forClosing
  /-- The construct would stand in too many others. -/
  | tooDeep
  deriving DecidableEq, Repr

namespace Complaint

/-- The message of a complaint about a token. -/
def message (t : Token) : Complaint → String
  | noExpression => "Unexpected Character"
  | noTarget => "Invalid assignment target."
  | openGrouping => "Expect ')' after expression."
  | noName => "Expect variable name."
  | afterName =>
    if t.kind = .eof then "Unexpected end of input after variable name."
    else s!"Unexpected token '{t.lexeme}' after variable name."
  | declarationEnd => "Expect ';' after variable declaration."
  | printEnd => "Expect ';' after value."
  | expressionEnd => "Expect ';' after expression."
  | openBlock => "Expect '\x7d' after block"
  | ifOpening => "Expect '(' after 'if'."
  | ifClosing => "Expect ')' after if condition."
  | whileOpening => "Expect '(' after 'while'."
  | whileClosing => "Expect ')' after condition."
  | forOpening => "Expect '(' after 'for'."
  | conditionEnd => "Expect ';' after loop condition."
  | forClosing => "Expect ')' after for clauses."
  | tooDeep => "Too much nesting."

/-- The error of a complaint about a token. -/
def about (c : Complaint) (t : Token) : ParseError := ⟨c.message t, t⟩

end Complaint

/-- All syntax errors of a pass, in order. -/
structure Report where
  errors : List ParseError
  deriving DecidableEq, Repr

namespace Report

/-- One error a line. -/
def text (r : Report) : String := "\n".intercalate (r.errors.map ParseError.text)

end Report

/-- Why there is no tree. -/
inductive Failure where
  /-- The tokens are no program. -/
  | rejected (report : Report)
  /-- The list of tokens is unsound, or there is nothing in it to parse. -/
  | fatal (cause : Diagnostic)
  deriving DecidableEq, Repr

namespace Failure

/-- The text of a failure. -/
def text : Failure → String
  | rejected report => report.text
  | fatal cause => cause.text

/-- The syntax errors of a failure. -/
def errors : Failure → List ParseError
  | rejected report => report.errors
  | fatal _ => []

end Failure
end LoxFront
