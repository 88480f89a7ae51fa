/-
# Comparing sources

The equality that is derived for tokens, trees and reports, on what `scan_tokens` and
`parse` make of two source texts.
-/

import LoxFront.Parse
import LoxFront.Scan.Item

namespace LoxFront
namespace Compare

/-- Same tokens, one for one. -/
def sameTokens (s t : List Token) : Bool := s.isEqv t Token.same

/-- Same errors, one for one. -/
def sameErrors (d e : List ParseError) : Bool := d.isEqv e ParseError.same

/-- Two sources scan to the same tokens, if both scan. -/
def tokens? (a b : String) : Option Bool :=
  match Scan.tokens a, Scan.tokens b with
  | .ok s, .ok t => some (sameTokens s t)
  | _, _ => none

/-- Two lists of tokens parse to the same tree or fail with the same errors, if
both parse or both fail. -/
def outcomes? (s t : List Token) : Option Bool :=
  match parse s, parse t with
  | .ok p, .ok q => some (p.same q)
  | .error f, .error g => some (sameErrors f.errors g.errors)
  | _, _ => none

/-- Two sources have the same outcome, if both scan and both parse or fail. -/
def trees? (a b : String) : Option Bool :=
  match Scan.tokens a, Scan.tokens b with
  | .ok s, .ok t => outcomes? s t
  | _, _ => none

end Compare
end LoxFront
