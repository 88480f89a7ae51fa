/-
# The log of a scan

What `Scanner::new`, `next` and `LoxError::lex` say to the log (section 12 of SPEC_FULL.md):
one record for the source and one for each find; the end of the input leaves none.
-/

import LoxFront.Log.Record
import LoxFront.Scan.Item

namespace LoxFront

/-- The record of a diagnostic when it is made. -/
def Diagnostic.record : Diagnostic → Record
  | .lexical line m => ⟨.info, "error", 45, s!"Creating Lex error: line={line}, msg={m}"⟩
  | .internal m => ⟨.info, "error", 54, s!"Creating Internal error: msg={m}"⟩

namespace Scan

/-- The record that opens a scan. -/
def opening (source : String) : Record :=
  ⟨.info, "scanner", 72, s!"Scanner created over {source.utf8ByteSize} bytes"⟩

/-- The record of a find. -/
def Item.record? : Item → Option Record
  | .token t =>
    if t.kind = .eof then none
    else some ⟨.debug, "scanner", 353, s!"Scanned token ({t.debug}) on line {t.line}"⟩
  | .trouble line cause => some (Diagnostic.lexical line cause.message).record

/-- The records of a scan. -/
def records (source : String) : List Record :=
  opening source :: (items source).filterMap Item.record?

end Scan
end LoxFront
