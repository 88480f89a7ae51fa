/-
# Diagnostics outside the grammar

`LoxError` of section 11 of SPEC_FULL.md, with `lex` and `internal`, and the messages of
`Cursor::new` and `advance`.

What is wrong with a source text before any word of it is parsed, and what is wrong with a
list of tokens that no scan makes.
-/

namespace LoxFront

/-- A lexical error on its line, or a breach of what one part of the program
promises another. -/
inductive Diagnostic where
  | lexical (line : Nat) (message : String)
  | internal (message : String)
  deriving DecidableEq, Repr

namespace Diagnostic

/-- What is wrong. -/
def message : Diagnostic → String
  | lexical _ m => m
  | internal m => m

/-- The line of a report. -/
def text : Diagnostic → String
  | lexical line m => s!"[line {line}] Error: {m}"
  | internal m => s!"Internal error: {m}"

end Diagnostic

/-- What is wrong with a list of tokens, or with a walk over it. -/
inductive Fault where
  /-- There are no tokens. -/
  | noTokens
  /-- The last token, with this text and line, is not the end marker. -/
  | noEnd (lexeme : String) (line : Nat)
  /-- There is nothing before the end marker. -/
  | onlyEnd
  /-- An end marker stands at this position, before the last. -/
  | strayEnd (position : Nat)
  /-- A step was taken at the end marker, on this line. -/
  | pastEnd (line : Nat)
  /-- A declaration that began here took no token. -/
  | stalled (position line : Nat)
  deriving DecidableEq, Repr

namespace Fault

/-- The message of a fault. -/
def message : Fault → String
  | noTokens => "token sequence is empty"
  | noEnd lexeme line =>
    s!"token sequence does not end with EOF (last token '{lexeme}' on line {line})"
  | onlyEnd => "token sequence holds only the end-of-input marker"
  | strayEnd position =>
    s!"EOF marker at position {position} before the end of the token sequence"
  | pastEnd line => s!"attempted to advance past end of input (line {line})"
  | stalled position line => s!"no progress at token {position} (line {line})"

/-- A fault as a diagnostic. -/
def diagnostic (f : Fault) : Diagnostic := .internal f.message

end Fault
end LoxFront
