/-
# A `for` loop written out

A `for` loop is read as what a `while` loop is read as in which all its parts are
written out (`Source.expansion`): one tree comes from both texts, but for the line of
the `true` of a loop without a condition (`parse_expansion`).
-/

import LoxFront.Proofs.Parse.Program

namespace LoxFront
namespace Source

/-- The tokens of a loop written out that are not those of its parts.  The `true` that
is written for a condition left out is on a line of its own. -/
structure LoopMarks where
  opening : Mark .leftBrace
  keyword : Mark .whileWord
  left : Mark .leftParen
  line : Nat
  right : Mark .rightParen
  bodyOpening : Mark .leftBrace
  semicolon : Mark .semicolon
  bodyClosing : Mark .rightBrace
  closing : Mark .rightBrace

/-- The condition of a loop written out: `true` if it is left out. -/
def LoopMarks.condition (m : LoopMarks) (e : Option Expr) : Expr :=
  e.getD (.atom ⟨trueAt m.line, show Kind.StandsAlone .trueWord by decide⟩)

/-- The body of a loop written out, with the step behind it in braces of their own. -/
def LoopMarks.body (m : LoopMarks) (step : Option Expr) (body : Stmt) : Stmt :=
  step.elim body fun v => .block m.bodyOpening [body, .expression v m.semicolon] m.bodyClosing

/-- What comes first in a loop written out, if it is not left out. -/
def Initial.statement? : Initial → Option Stmt
  | omitted _ => none
  | declaration d => some (.declaration d)
  | expression e semicolon => some (.expression e semicolon)

/-- A `for` loop written out: what comes first and the loop, in braces of their own
unless nothing comes first. -/
def expansion (m : LoopMarks) (i : Initial) (e step : Option Expr) (body : Stmt) : Stmt :=
  let loop := .whileLoop m.keyword m.left (m.condition e) m.right (m.body step body)
  i.statement?.elim loop fun s => .block m.opening [s, loop] m.closing

variable {m : LoopMarks} {i : Initial} {e step : Option Expr} {body : Stmt}

/-! ### The loop is what the grammar has -/

/-- The condition of the loop fits, also where the word `true` stands in for it. -/
theorem LoopMarks.fits_condition (he : ClauseFits e) : (m.condition e).Fits 0 := by
  cases e with
  | none => trivial
  | some e => exact he e rfl

/-- The body of the loop fits as a statement, with the step behind it or alone. -/
theorem LoopMarks.fits_body (hstep : ClauseFits step) (hst : body.isStatement = true)
    (hbody : body.Fits) : (m.body step body).isStatement = true ∧ (m.body step body).Fits := by
  cases step with
  | none => exact ⟨hst, hbody⟩
  | some v => exact ⟨rfl, hbody, hstep v rfl, trivial⟩

/-- The initial clause, written as a statement before the loop, fits as one. -/
theorem Initial.fits_statement? {s : Stmt} (hi : i.Fits) (hs : i.statement? = some s) :
    s.Fits := by
  cases i with
  | omitted => exact nomatch hs
  | declaration d => exact Option.some.inj hs ▸ hi
  | expression v semicolon => exact Option.some.inj hs ▸ hi

/-- What a loop is spelled out as fits if the clauses and the body of the loop do. -/
theorem fits_expansion (hi : i.Fits) (he : ClauseFits e) (hstep : ClauseFits step)
    (hst : body.isStatement = true) (hbody : body.Fits) : (expansion m i e step body).Fits := by
  have hloop : (Stmt.whileLoop m.keyword m.left (m.condition e) m.right (m.body step body)).Fits :=
    ⟨m.fits_condition he, m.fits_body hstep hst hbody⟩
  rw [expansion]
  cases hs : i.statement? with
  | none => exact hloop
  | some s => exact ⟨i.fits_statement? hi hs, hloop, trivial⟩

/-- Its tree is that of the `for` loop. -/
theorem tree_expansion :
    (expansion m i e step body).tree =
      .forLoop m.line i.tree? (e.map Expr.tree) (step.map Expr.tree) body.tree := by
  cases i <;> cases e <;> cases step <;> rfl

/-- More regions stand in one another in it than in the `for` loop, if any. -/
theorem nesting_le_expansion {keyword : Mark .forWord} {l : Mark .leftParen}
    {semicolon : Mark .semicolon} {r : Mark .rightParen} :
    (Stmt.forLoop keyword l i e semicolon step r body).nesting ≤
      (expansion m i e step body).nesting := by
  have hcondition : clauseNesting e ≤ (m.condition e).nesting := by
    cases e with
    | none => exact Nat.zero_le _
    | some e => exact Nat.le_refl _
  have hbody : clauseNesting step ≤ (m.body step body).nesting ∧
      body.nesting ≤ (m.body step body).nesting := by
    cases step with
    | none => exact ⟨Nat.zero_le _, Nat.le_refl _⟩
    | some v =>
      simp only [LoopMarks.body, Option.elim_some, Stmt.nesting, Stmt.nestingOf, clauseNesting]
      omega
  rw [expansion]
  cases i <;>
    simp only [Initial.statement?, Option.elim_none, Option.elim_some, Stmt.nesting, Stmt.nestingOf,
      Initial.nesting] <;> omega

end Source

/-- **A `for` loop is what it is when it is written out.**  If a `for` loop parses and
no region too many is opened in the loop written out, then that parses too, as the
same tree, but for the line of the `true` that stands for a condition left out. -/
theorem parse_expansion {keyword : Source.Mark .forWord} {l : Source.Mark .leftParen}
    {i : Source.Initial} {e step : Option Source.Expr} {semicolon : Source.Mark .semicolon}
    {r : Source.Mark .rightParen} {body : Source.Stmt} {m : Source.LoopMarks}
    (marker marker' : Source.Mark .eof) {p : Program}
    (hi : i.Fits) (he : Source.ClauseFits e) (hstep : Source.ClauseFits step)
    (hst : body.isStatement = true) (hbody : body.Fits)
    (hp : parse ((Source.Stmt.forLoop keyword l i e semicolon step r body).tokens ++ [marker.1]) =
      .ok p)
    (hn : (Source.expansion m i e step body).nesting ≤ maxNesting) :
    ∃ p', parse ((Source.expansion m i e step body).tokens ++ [marker'.1]) = .ok p' ∧
      p.statements = [.forLoop keyword.1.line i.tree? (e.map Source.Expr.tree)
        (step.map Source.Expr.tree) body.tree] ∧
      p'.statements = [.forLoop m.line i.tree? (e.map Source.Expr.tree)
        (step.map Source.Expr.tree) body.tree] ∧
      (e.isSome = true ∨ m.line = keyword.1.line → p' = p) := by
  have hprogram (s : Source.Stmt) (hs : s.Fits) (hn : s.nesting ≤ maxNesting)
      (marker : Source.Mark .eof) : parse (s.tokens ++ [marker.1]) = .ok ⟨[s.tree]⟩ := by
    refine parse_eq_ok_iff_program.2 ⟨[s], marker, ⟨List.cons_ne_nil _ _, ⟨hs, trivial⟩, ?_⟩, ?_, rfl⟩
    · exact Nat.max_le.2 ⟨hn, Nat.zero_le _⟩
    · rw [Source.Stmt.tokensOf, Source.Stmt.tokensOf, List.append_nil]
  have hfor := hprogram (.forLoop keyword l i e semicolon step r body)
    ⟨hi, he, hstep, hst, hbody⟩ (Nat.le_trans Source.nesting_le_expansion hn) marker
  have hwritten := hprogram (Source.expansion m i e step body)
    (Source.fits_expansion hi he hstep hst hbody) hn marker'
  obtain rfl := Except.ok.inj (hp.symm.trans hfor)
  refine ⟨_, hwritten, rfl, ?_, fun h => ?_⟩
  · rw [Source.tree_expansion]
  · rw [Source.tree_expansion, Source.Stmt.tree]
    rcases h with h | h
    · obtain ⟨v, rfl⟩ := Option.isSome_iff_exists.1 h
      rfl
    · rw [h]

/-- The loops `for (; ; x) x;` and `while (true) { x; x; }`, the `true` on another line. -/
theorem parse_expansion_forEver :
    let mark (k : Kind) (lexeme : String) : Source.Mark k := ⟨⟨k, lexeme, 1, .none⟩, rfl⟩
    let x : Source.Expr := .atom ⟨⟨.identifier, "x", 1, .none⟩, by decide⟩
    let body : Source.Stmt := .expression x (mark .semicolon ";")
    let first : Source.Initial := .omitted (mark .semicolon ";")
    let m : Source.LoopMarks := ⟨mark .leftBrace "\x7b", mark .whileWord "while",
      mark .leftParen "(", 2, mark .rightParen ")", mark .leftBrace "\x7b", mark .semicolon ";",
      mark .rightBrace "\x7d", mark .rightBrace "\x7d"⟩
    let loop : Source.Stmt := .forLoop (mark .forWord "for") (mark .leftParen "(") first none
      (mark .semicolon ";") (some x) (mark .rightParen ")") body
    let written := Source.expansion m first none (some x) body
    let tree (line : Nat) : Stmt := .forLoop line none none (some x.tree) body.tree
    first.Fits ∧ Source.ClauseFits none ∧ Source.ClauseFits (some x) ∧ body.isStatement = true ∧
      body.Fits ∧ parse (loop.tokens ++ [.atEnd 1]) = .ok ⟨[tree 1]⟩ ∧
      written.nesting ≤ maxNesting ∧
      written.tokens.map Token.lexeme =
        ["while", "(", "true", ")", "\x7b", "x", ";", "x", ";", "\x7d"] ∧
      ∃ p', parse (written.tokens ++ [.atEnd 1]) = .ok p' ∧ p'.statements = [tree 2] := by
  intro mark x body first m loop written tree
  have hfirst : first.Fits := trivial
  have hstep : Source.ClauseFits (some x) := Source.clauseFits_some trivial
  have hbody : body.Fits := trivial
  have hp : parse (loop.tokens ++ [.atEnd 1]) = .ok ⟨[tree 1]⟩ := by cbv
  have hn : written.nesting ≤ maxNesting := by decide
  obtain ⟨p', hp', -, hstatements, -⟩ := parse_expansion ⟨.atEnd 1, rfl⟩ ⟨.atEnd 1, rfl⟩ hfirst
    Source.clauseFits_none hstep rfl hbody hp hn
  exact ⟨hfirst, Source.clauseFits_none, hstep, rfl, hbody, hp, hn, rfl, p', hp', hstatements⟩

end LoxFront
