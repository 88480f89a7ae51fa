/-
# The log of a pass

What `Parser::new`, `parse`, `parse_recovering`, `Cursor::new` and the functions of the
grammar say to the log (section 12 of SPEC_FULL.md): each event of a pass leaves one record,
between those that open and close the pass.
-/

import LoxFront.Log.Scan
import LoxFront.Parse

namespace LoxFront

/-- The part of the grammar that a complaint comes from. -/
def Complaint.origin : Complaint → String
  | noExpression | noTarget | openGrouping => "parser::expr"
  | tooDeep => "parser"
  | _ => "parser::stmt"

/-- The mark of a complaint. -/
def Complaint.mark : Complaint → Nat
  | noTarget => 43
  | openGrouping => 158
  | noExpression => 170
  | noName => 44
  | afterName => 64
  | declarationEnd => 75
  | printEnd => 103
  | expressionEnd => 115
  | openBlock => 142
  | ifOpening => 163
  | ifClosing => 170
  | whileOpening => 194
  | whileClosing => 201
  | forOpening => 215
  | conditionEnd => 237
  | forClosing => 249
  | tooDeep => 180

/-- The text of a complaint about a token: a limit is named with its bound. -/
def Complaint.recordText (c : Complaint) (t : Token) : String :=
  (c.about t).text ++ if c = .tooDeep then s!" (limit {maxNesting})" else ""

/-- The record of an event. -/
def Event.record : Event → Record
  | entered position => ⟨.debug, "parser::stmt", 20, s!"Entering declaration at token {position}"⟩
  | failed _ c t => ⟨.debug, c.origin, c.mark, c.recordText t⟩
  | panicked position line =>
    ⟨.debug, "parser", 193, s!"Entering panic mode at token {position} (line {line})"⟩
  | resumed dropped =>
    ⟨.debug, "parser", 211, s!"Resynchronized after discarding {dropped} token(s)"⟩
  | returned line =>
    ⟨.debug, "parser::expr", 151, s!"Accepting 'return' as a literal on line {line}"⟩

namespace Pass

/-- The records that open a pass. -/
def opening (tokens : List Token) : List Record :=
  [⟨.info, "parser", 106, s!"Parser created with {tokens.length} tokens"⟩,
   ⟨.info, "parser", 116, "Beginning parse phase"⟩]

/-- The record that closes a pass over sound tokens. -/
def closing : Except Fault (List Stmt) → Record
  | .error f => f.diagnostic.record
  | .ok statements =>
    let errors := Stmt.collectAll [] statements
    if errors.isEmpty then
      ⟨.info, "parser", 121, s!"Parsed {statements.length} statement(s) without errors"⟩
    else
      ⟨.info, "parser", 126,
        s!"Parse failed with {errors.length} error(s) across {statements.length} statement(s)"⟩

/-- The records of a pass. -/
def records (tokens : List Token) : List Record :=
  opening tokens ++
    match Cursor.ofTokens tokens with
    | .error f => [f.diagnostic.record]
    | .ok c =>
      let p := pass c
      ⟨.debug, "cursor", 55, s!"Cursor created over {tokens.length} tokens"⟩
        :: p.trace.map Event.record ++ [closing p.statements]

end Pass
end LoxFront
