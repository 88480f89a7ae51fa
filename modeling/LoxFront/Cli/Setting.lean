/-
# What a run takes from its surroundings

`init_logger` leaves it to two environment variables what the log keeps and in what form
(section 13 of SPEC_FULL.md: the one overrides the filter), and the reader of arguments
has its own words for help and for a command line that it refuses.  All of that is given
from outside; a run is one in a setting, and `Setting.usual` is the one in which neither
variable is set.
-/

import LoxFront.Cli.Args
import LoxFront.Log.Record
import LoxFront.Text.Plain

namespace LoxFront
namespace Cli

/-- Texts, one a line. -/
def lines (texts : List String) : String := String.join (texts.map (· ++ "\n"))

/-- How the command line is used. -/
def usageText : String :=
  lines
    ["Usage: rox [--log] <command>", "",
     "  tokenize [file]        list the tokens of a file",
     "  parse [--json] [file]  print the syntax tree of a file", "",
     "  --log      keep a log in app.log",
     "  --version  print the version"]

/-- What a run takes from its surroundings. -/
structure Setting where
  /-- The filter of the log. -/
  keeps : Record → Bool
  /-- The control sequences of a text stay in the log. -/
  styled : Bool
  /-- What is said about variables that cannot be made out, once a log is begun. -/
  warnings : String
  /-- The words in which a command line is refused. -/
  refusal : List String → String
  help : Topic → String

namespace Setting

/-- The setting in which no variable is set: the log keeps all, and in plain text. -/
def usual : Setting where
  keeps _ := true
  styled := false
  warnings := ""
  refusal arguments :=
    match read arguments with
    | .error m => m.message ++ "\n\n" ++ usageText
    | .ok _ => ""
  help _ := usageText

/-- A record as it stands in the log.  It is made plain together with the end of its
line, which a sequence that is left open swallows. -/
def lineOf (s : Setting) (r : Record) : String :=
  if s.styled then r.stamped ++ "\n" else Text.plain (r.stamped ++ "\n")

/-- The bytes of a log. -/
def logBytes (s : Setting) (records : List Record) : ByteArray :=
  (String.join ((records.filter s.keeps).map s.lineOf)).toUTF8

end Setting
end Cli
end LoxFront
