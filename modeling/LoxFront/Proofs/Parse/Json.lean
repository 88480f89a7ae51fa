/-
# Outcomes are the same if their JSON texts are

The tokens of a source text are lexemes, and so are those in its tree and in its report.
So two sources parse to the same program, or have the same errors, if and only if the JSON
texts are equal (`same_iff_json`).
-/

import LoxFront.Compare
import LoxFront.Proofs.Parse.Program
import LoxFront.Proofs.Parse.Spaced
import LoxFront.Proofs.Source.Tree
import LoxFront.Proofs.Tree.Json

namespace LoxFront

/-! ### Tokens of a source text -/

/-- The end marker is as a scan makes it. -/
theorem Token.lexed_atEnd (line : Nat) : (atEnd line).Lexed := .inl rfl

/-- All tokens of a scan are. -/
theorem Scan.lexed_of_tokens {source : String} {ts : List Token} (h : tokens source = .ok ts) :
    ∀ t ∈ ts, t.Lexed := by
  obtain ⟨body, line, rfl, hbody⟩ := tokens_eq_ok h
  intro t ht
  rcases List.mem_append.1 ht with ht | ht
  · exact .inr (hbody t ht)
  · rw [List.mem_singleton.1 ht]
    exact Token.lexed_atEnd line

/-! ### Tokens of a tree -/

/-- The condition of a `for` loop without one is a lexeme. -/
theorem Source.lexed_trueAt (line : Nat) : (trueAt line).Lexed :=
  .inr (@Scan.Belongs.reserved "true" .trueWord (by decide))

namespace Source
namespace Stmt

mutual

/-- Tokens that a tree brings in by itself are as a scan would make them. -/
theorem lexed_of_mem_foreign : ∀ s : Stmt, ∀ t ∈ s.foreign, t.Lexed
  | .declaration d | .expression e _ | .print _ e _ => by
    rw [foreign]
    exact List.forall_mem_nil _
  | .block _ body _ => by
    rw [foreign]
    exact lexed_of_mem_foreignOf body
  | .ifThen _ _ _ _ yes => by
    rw [foreign]
    exact lexed_of_mem_foreign yes
  | .ifElse _ _ _ _ yes _ no => by
    rw [foreign]
    exact List.forall_mem_append.2 ⟨lexed_of_mem_foreign yes, lexed_of_mem_foreign no⟩
  | .whileLoop _ _ _ _ body => by
    rw [foreign]
    exact lexed_of_mem_foreign body
  | .forLoop keyword _ _ e _ _ _ body => by
    rw [foreign]
    refine List.forall_mem_append.2 ⟨?_, lexed_of_mem_foreign body⟩
    cases e with
    | none => exact List.forall_mem_singleton.2 (lexed_trueAt keyword.1.line)
    | some e => exact List.forall_mem_nil _

/-- The same of the trees of several statements. -/
theorem lexed_of_mem_foreignOf : ∀ body : List Stmt, ∀ t ∈ foreignOf body, t.Lexed
  | [] => by
    rw [foreignOf]
    exact List.forall_mem_nil _
  | s :: rest => by
    rw [foreignOf]
    exact List.forall_mem_append.2 ⟨lexed_of_mem_foreign s, lexed_of_mem_foreignOf rest⟩

end

end Stmt
end Source

/-- A whole expression that holds lexemes. -/
theorem Expr.Whole.lexed {e : Expr} (h : e.Whole) (hheld : ∀ t ∈ e.held, t.Lexed) : e.Lexed := by
  induction e with
  | literal t => exact hheld t List.mem_cons_self
  | grouping e ih => exact ih h hheld
  | unary op e ih | assign op e ih =>
    obtain ⟨hop, he⟩ := List.forall_mem_cons.1 hheld
    exact ⟨hop, ih h he⟩
  | binary l op r ihl ihr =>
    obtain ⟨hl, hrest⟩ := List.forall_mem_append.1 hheld
    obtain ⟨hop, hr⟩ := List.forall_mem_cons.1 hrest
    exact ⟨ihl h.1 hl, hop, ihr h.2 hr⟩
  | empty | error => exact h.elim

namespace Stmt

mutual

/-- A whole statement that holds lexemes. -/
theorem Whole.lexed : ∀ {s : Stmt}, s.Whole → (∀ t ∈ s.held, t.Lexed) → s.Lexed
  | expression e, h, hheld | print e, h, hheld => by
    rw [Whole] at h
    rw [held] at hheld
    rw [Lexed]
    exact h.lexed hheld
  | declare _ name e, h, hheld => by
    rw [Whole] at h
    rw [held] at hheld
    obtain ⟨hname, he⟩ := List.forall_mem_cons.1 hheld
    rw [Lexed]
    rcases h with rfl | h
    · exact ⟨hname, trivial⟩
    · exact ⟨hname, h.lexed he⟩
  | block body, h, hheld => by
    rw [Whole] at h
    rw [held] at hheld
    rw [Lexed]
    exact AllWhole.lexed h hheld
  | ifThen c yes, h, hheld => by
    rw [Whole] at h
    rw [held] at hheld
    obtain ⟨hc, hyes⟩ := List.forall_mem_append.1 hheld
    rw [Lexed]
    exact ⟨h.1.lexed hc, Whole.lexed h.2 hyes⟩
  | ifElse c yes no, h, hheld => by
    rw [Whole] at h
    rw [held] at hheld
    obtain ⟨hc, hrest⟩ := List.forall_mem_append.1 hheld
    obtain ⟨hyes, hno⟩ := List.forall_mem_append.1 hrest
    rw [Lexed]
    exact ⟨h.1.lexed hc, Whole.lexed h.2.1 hyes, Whole.lexed h.2.2 hno⟩
  | whileLoop c body, h, hheld => by
    rw [Whole] at h
    rw [held] at hheld
    obtain ⟨hc, hbody⟩ := List.forall_mem_append.1 hheld
    rw [Lexed]
    exact ⟨h.1.lexed hc, Whole.lexed h.2 hbody⟩
  | error e, h, hheld => by simp [Whole] at h

/-- Trees without errors whose tokens come from a scan are trees of scanned tokens. -/
theorem AllWhole.lexed : ∀ {body : List Stmt}, AllWhole body → (∀ t ∈ heldOf body, t.Lexed) →
    AllLexed body
  | [], _, _ => by
    rw [AllLexed]
    trivial
  | s :: rest, h, hheld => by
    rw [AllWhole] at h
    rw [heldOf] at hheld
    obtain ⟨hs, hrest⟩ := List.forall_mem_append.1 hheld
    rw [AllLexed]
    exact ⟨Whole.lexed h.1 hs, AllWhole.lexed h.2 hrest⟩

end

end Stmt

/-- The tree of lexemes holds lexemes. -/
theorem lexed_of_parse {tokens : List Token} {p : Program} (h : parse tokens = .ok p)
    (htokens : ∀ t ∈ tokens, t.Lexed) : Stmt.AllLexed p.statements := by
  obtain ⟨body, marker, -, rfl, hstatements⟩ := parse_eq_ok_iff_program.1 h
  rw [hstatements]
  refine (Source.Stmt.trees_whole body).lexed fun t ht => ?_
  rcases List.mem_append.1 ((Source.Stmt.trees_hold body).mem_iff.1 ht) with htext | hforeign
  · exact htokens t (List.mem_append_left _ (List.mem_filter.1 htext |>.1))
  · exact Source.Stmt.lexed_of_mem_foreignOf body t hforeign

/-- The errors of a report on lexemes are at lexemes. -/
theorem lexed_of_report {tokens : List Token} {r : Report}
    (h : parse tokens = .error (.rejected r)) (htokens : ∀ t ∈ tokens, t.Lexed) :
    ∀ e ∈ r.errors, e.Lexed := by
  obtain ⟨c, d, body, hc, hruns, points, hpoints, herrors⟩ := exists_failures h
  intro e he
  rw [herrors] at he
  obtain ⟨x, hx, rfl⟩ := List.mem_map.1 he
  exact htokens x.token (List.mem_of_getElem? (hruns.token_of_failure hc x (hpoints.subset hx)))

/-- A constant with a semicolon behind it parses as itself. -/
theorem parse_constant {t : Token} (h : t.kind.StandsAlone) (line : Nat) :
    parse [t, ⟨.semicolon, ";", line, .none⟩, .atEnd line] =
      .ok ⟨[.expression (.literal t)]⟩ := by
  let s : Source.Stmt := .expression (.atom ⟨t, h⟩) ⟨⟨.semicolon, ";", line, .none⟩, rfl⟩
  have hprogram : Source.IsProgram [s] :=
    ⟨List.cons_ne_nil _ _, ⟨trivial, trivial⟩, Nat.zero_le _⟩
  exact parse_eq_ok_iff_program.2 ⟨[s], ⟨.atEnd line, rfl⟩, hprogram, rfl, rfl⟩

/-- Reports are of the same errors if and only if JSON shows the same of them. -/
theorem Report.sameErrors_iff {r r' : Report} (hr : ∀ e ∈ r.errors, e.Lexed)
    (hr' : ∀ e ∈ r'.errors, e.Lexed) :
    Compare.sameErrors r.errors r'.errors = true ↔ r.json.form = r'.json.form := by
  rw [Compare.sameErrors, ParseError.isEqv_same_iff hr hr']
  simp [json, Json.form, Json.fieldForms]

/-- **Outcomes are the same if and only if their JSON texts are equal.**  Two sources that scan and
parse have the same tree, values of tokens apart, if and only if the texts of the trees are equal,
without blanks and in lines; two that scan and are rejected have the same errors if and only if
the texts of the reports are. -/
theorem same_iff_json {a b : String} {s t : List Token} (ha : Scan.tokens a = .ok s)
    (hb : Scan.tokens b = .ok t) :
    (∀ p q, parse s = .ok p → parse t = .ok q →
      (p.same q = true ↔ p.json.compact = q.json.compact) ∧
      (p.same q = true ↔ p.json.pretty = q.json.pretty)) ∧
    ∀ r r', parse s = .error (.rejected r) → parse t = .error (.rejected r') →
      (Compare.sameErrors r.errors r'.errors = true ↔ r.json.compact = r'.json.compact) ∧
      (Compare.sameErrors r.errors r'.errors = true ↔ r.json.pretty = r'.json.pretty) := by
  have hs := Scan.lexed_of_tokens ha
  have ht := Scan.lexed_of_tokens hb
  constructor
  · intro p q hp hq
    have hform := Program.same_iff (lexed_of_parse hp hs) (lexed_of_parse hq ht)
    exact ⟨hform.trans Json.compact_eq_iff.symm, hform.trans Json.pretty_eq_iff.symm⟩
  · intro r r' hr hr'
    have hform := Report.sameErrors_iff (lexed_of_report hr hs) (lexed_of_report hr' ht)
    exact ⟨hform.trans Json.compact_eq_iff.symm, hform.trans Json.pretty_eq_iff.symm⟩

/-- Numbers that are spelled differently have different JSON texts, though both are one. -/
theorem same_iff_json_one :
    let one : Token := ⟨.number, "1", 1, .number (.ofDecimal 1 0)⟩
    let tenths : Token := ⟨.number, "1.0", 1, .number (.ofDecimal 10 1)⟩
    let plus : Token := ⟨.plus, "+", 1, .none⟩
    let semicolon (line : Nat) : Token := ⟨.semicolon, ";", line, .none⟩
    let p (t : Token) : Program := ⟨[.expression (.literal t)]⟩
    let r (line : Nat) : Report := ⟨[Complaint.noExpression.about (semicolon line)]⟩
    Scan.tokens "1;" = .ok [one, semicolon 1, .atEnd 1] ∧
      Scan.tokens "1.0;" = .ok [tenths, semicolon 1, .atEnd 1] ∧
      parse [one, semicolon 1, .atEnd 1] = .ok (p one) ∧
      parse [tenths, semicolon 1, .atEnd 1] = .ok (p tenths) ∧
      (p one).json.compact ≠ (p tenths).json.compact ∧
      (p one).json.pretty ≠ (p tenths).json.pretty ∧
      Scan.tokens "1+;" = .ok [one, plus, semicolon 1, .atEnd 1] ∧
      Scan.tokens "1+\n;" = .ok [one, plus, semicolon 2, .atEnd 2] ∧
      parse [one, plus, semicolon 1, .atEnd 1] = .error (.rejected (r 1)) ∧
      parse [one, plus, semicolon 2, .atEnd 2] = .error (.rejected (r 2)) ∧
      (r 1).json.compact ≠ (r 2).json.compact ∧ (r 1).json.pretty ≠ (r 2).json.pretty := by
  intro one tenths plus semicolon p r
  have ha : Scan.tokens "1;" = .ok [one, semicolon 1, .atEnd 1] := by decide +kernel
  have hb : Scan.tokens "1.0;" = .ok [tenths, semicolon 1, .atEnd 1] := by decide +kernel
  have hc : Scan.tokens "1+;" = .ok [one, plus, semicolon 1, .atEnd 1] := by decide +kernel
  have hd : Scan.tokens "1+\n;" = .ok [one, plus, semicolon 2, .atEnd 2] := by decide +kernel
  have hp : parse [one, semicolon 1, .atEnd 1] = .ok (p one) :=
    parse_constant (show Kind.number.StandsAlone by decide) 1
  have hq : parse [tenths, semicolon 1, .atEnd 1] = .ok (p tenths) :=
    parse_constant (show Kind.number.StandsAlone by decide) 1
  -- what a number holds is nothing to the grammar
  have hreport (text : String) (value : Payload) (line : Nat) :
      parse [⟨.number, text, 1, value⟩, plus, semicolon line, .atEnd line] =
        .error (.rejected (r line)) := rfl
  obtain ⟨hcompact, hpretty⟩ := (same_iff_json ha hb).1 (p one) (p tenths) hp hq
  obtain ⟨hcompact', hpretty'⟩ :=
    (same_iff_json hc hd).2 (r 1) (r 2) (hreport "1" _ 1) (hreport "1" _ 2)
  have htrees : (p one).same (p tenths) ≠ true := by decide +kernel
  have herrors : Compare.sameErrors (r 1).errors (r 2).errors ≠ true := by decide +kernel
  exact ⟨ha, hb, hp, hq, fun h => htrees (hcompact.2 h),
    fun h => htrees (hpretty.2 h), hc, hd, hreport "1" _ 1, hreport "1" _ 2,
    fun h => herrors (hcompact'.2 h), fun h => herrors (hpretty'.2 h)⟩

end LoxFront
