/-
# Records of the log

The line that `init_logger` makes of a record (section 12 of SPEC_FULL.md):
`[module:line] - message`.

A record says which part of the program it comes from and how much it matters.  Each sort
of record has a mark of its own, a number that stands behind the name of the part in the
file of the log.
-/

namespace LoxFront

/-- How much a record matters. -/
inductive Severity where
  | info
  | debug
  deriving DecidableEq, Repr

/-- The name of a severity. -/
def Severity.name : Severity → String
  | .info => "INFO"
  | .debug => "DEBUG"

/-- A record of the log. -/
structure Record where
  severity : Severity
  /-- The part of the program that it comes from. -/
  origin : String
  mark : Nat
  text : String
  deriving DecidableEq, Repr

namespace Record

/-- A record with its severity. -/
def line (r : Record) : String := s!"{r.severity.name} {r.origin} {r.text}"

/-- A record as it stands in the file of the log. -/
def stamped (r : Record) : String := s!"[{r.origin}:{r.mark}] - {r.text}"

end Record
end LoxFront
