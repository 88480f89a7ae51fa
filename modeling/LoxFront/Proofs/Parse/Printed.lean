/-
# Programs that print the same text

The tree of a source text is legible (`legible_of_parse`), so that of two source texts that parse
the trees print the same text if and only if they are the same tree, but for the lines of tokens
and the spelling of leaves that print alike (`parse_text_eq_iff`).
-/

import LoxFront.Proofs.Parse.Json
import LoxFront.Proofs.Tree.Printed

namespace LoxFront

/-- A `for` loop of legible parts is legible. -/
theorem Stmt.Legible.forLoop {line : Nat} {initial : Option Stmt} {condition step : Option Expr}
    {body : Stmt} (hi : ∀ s ∈ initial, s.Legible) (hc : ∀ e ∈ condition, e.Legible)
    (hs : ∀ e ∈ step, e.Legible) (hb : body.Legible) :
    (Stmt.forLoop line initial condition step body).Legible := by
  have htrue : (Expr.literal (Source.trueAt line)).Legible :=
    ⟨Source.lexed_trueAt line, show Kind.StandsAlone .trueWord by decide⟩
  rw [Source.trueAt] at htrue
  cases initial <;> cases condition <;> cases step <;>
    simp_all [Stmt.forLoop, Legible, AllLegible]

namespace Source

/-- The tree of an expression is legible if its tokens come from a scan. -/
theorem Expr.tree_legible (e : Expr) (h : ∀ t ∈ e.tokens, t.Lexed) : e.tree.Legible := by
  induction e with
  | atom t => exact ⟨h t.1 List.mem_cons_self, t.2⟩
  | grouping l e r ih =>
    rw [tokens, List.forall_mem_cons, List.forall_mem_append] at h
    exact ih h.2.1
  | unary op e ih =>
    rw [tokens, List.forall_mem_cons] at h
    exact ⟨⟨h.1, op.2⟩, ih h.2⟩
  | binary l op r ihl ihr =>
    rw [tokens, List.forall_mem_append, List.forall_mem_cons] at h
    exact ⟨ihl h.1, ⟨h.2.1, op.2⟩, ihr h.2.2⟩
  | assign name equals e ih =>
    rw [tokens, List.forall_mem_cons, List.forall_mem_cons] at h
    exact ⟨⟨h.1, name.2⟩, ih h.2.2⟩

/-- The same of a clause that may be missing. -/
theorem legible_of_mem_map_tree {e : Option Expr} (h : ∀ t ∈ clauseTokens e, t.Lexed) :
    ∀ v ∈ e.map Expr.tree, v.Legible := by
  intro v hv
  obtain ⟨w, rfl, rfl⟩ := Option.map_eq_some_iff.1 hv
  exact w.tree_legible h

/-- The same of a declaration. -/
theorem Declaration.tree_legible (d : Declaration) (h : ∀ t ∈ d.tokens, t.Lexed) :
    d.tree.Legible := by
  rw [tokens, List.forall_mem_cons, List.forall_mem_cons, List.forall_mem_append] at h
  obtain ⟨-, hname, hinitial, -⟩ := h
  rw [tree, LoxFront.Stmt.Legible]
  refine ⟨⟨hname, d.name.2⟩, ?_⟩
  rw [value?]
  rcases hd : d.initial with _ | ⟨equals, _ | e⟩
  · exact .inl rfl
  · exact .inl rfl
  · rw [hd, Option.elim_some, List.forall_mem_cons] at hinitial
    exact .inr (e.tree_legible hinitial.2)

/-- The same of an initial clause. -/
theorem Initial.legible_of_mem_tree? (i : Initial) (h : ∀ t ∈ i.tokens, t.Lexed) :
    ∀ s ∈ i.tree?, s.Legible := by
  cases i with
  | omitted => exact fun s hs => nomatch hs
  | declaration d => exact fun s hs => Option.some.inj hs ▸ d.tree_legible h
  | expression e semicolon =>
    intro s hs
    rw [tokens, List.forall_mem_append] at h
    rw [← Option.some.inj hs, LoxFront.Stmt.Legible]
    exact e.tree_legible h.1

namespace Stmt

mutual

/-- The tree of a statement is legible if its tokens come from a scan; the `true` of a loop is
legible as well. -/
theorem tree_legible : ∀ {s : Stmt}, (∀ t ∈ s.tokens, t.Lexed) → s.tree.Legible
  | declaration d, h => by
    rw [tokens] at h
    rw [tree]
    exact d.tree_legible h
  | expression e _, h => by
    rw [tokens, List.forall_mem_append] at h
    rw [tree, LoxFront.Stmt.Legible]
    exact e.tree_legible h.1
  | print _ e _, h => by
    rw [tokens, List.forall_mem_cons, List.forall_mem_append] at h
    rw [tree, LoxFront.Stmt.Legible]
    exact e.tree_legible h.2.1
  | block _ body _, h => by
    rw [tokens, List.forall_mem_cons, List.forall_mem_append] at h
    rw [tree, LoxFront.Stmt.Legible]
    exact trees_legible h.2.1
  | ifThen _ _ e _ yes, h => by
    simp only [tokens, List.forall_mem_cons, List.forall_mem_append] at h
    obtain ⟨-, -, he, -, hyes⟩ := h
    rw [tree, LoxFront.Stmt.Legible]
    exact ⟨e.tree_legible he, tree_legible hyes⟩
  | ifElse _ _ e _ yes _ no, h => by
    simp only [tokens, List.forall_mem_cons, List.forall_mem_append] at h
    obtain ⟨-, -, he, -, hyes, -, hno⟩ := h
    rw [tree, LoxFront.Stmt.Legible]
    exact ⟨e.tree_legible he, tree_legible hyes, tree_legible hno⟩
  | whileLoop _ _ e _ body, h => by
    simp only [tokens, List.forall_mem_cons, List.forall_mem_append] at h
    obtain ⟨-, -, he, -, hbody⟩ := h
    rw [tree, LoxFront.Stmt.Legible]
    exact ⟨e.tree_legible he, tree_legible hbody⟩
  | forLoop _ _ i e _ step _ body, h => by
    simp only [tokens, List.forall_mem_cons, List.forall_mem_append] at h
    obtain ⟨-, -, hi, he, -, hstep, -, hbody⟩ := h
    rw [tree]
    exact .forLoop (i.legible_of_mem_tree? hi) (legible_of_mem_map_tree he)
      (legible_of_mem_map_tree hstep) (tree_legible hbody)

/-- The same of several statements. -/
theorem trees_legible : ∀ {body : List Stmt}, (∀ t ∈ tokensOf body, t.Lexed) →
    LoxFront.Stmt.AllLegible (trees body)
  | [], _ => by
    rw [trees, LoxFront.Stmt.AllLegible]
    trivial
  | s :: rest, h => by
    rw [tokensOf, List.forall_mem_append] at h
    rw [trees, LoxFront.Stmt.AllLegible]
    exact ⟨tree_legible h.1, trees_legible h.2⟩

end

end Stmt
end Source

/-- The tree of lexemes is legible. -/
theorem legible_of_parse {tokens : List Token} {p : Program} (h : parse tokens = .ok p)
    (htokens : ∀ t ∈ tokens, t.Lexed) : Stmt.AllLegible p.statements := by
  obtain ⟨body, marker, -, rfl, hstatements⟩ := parse_eq_ok_iff_program.1 h
  rw [hstatements]
  exact Source.Stmt.trees_legible fun t ht => htokens t (List.mem_append_left _ ht)

/-- **The text of a tree settles the tree.**  Two sources that scan and parse print the same text
if and only if their trees have as many statements and the same nodes throughout, with the same
operators, kinds of declarations, names and strings, but for the lines of tokens and the
spelling of leaves that print alike. -/
theorem parse_text_eq_iff {a b : String} {s t : List Token} {p q : Program}
    (ha : Scan.tokens a = .ok s) (hb : Scan.tokens b = .ok t) (hp : parse s = .ok p)
    (hq : parse t = .ok q) :
    p.text = q.text ↔ Stmt.AllPrintLike p.statements q.statements :=
  Program.text_eq_iff (legible_of_parse hp (Scan.lexed_of_tokens ha))
    (legible_of_parse hq (Scan.lexed_of_tokens hb))

/-- A program on two lines and on one, with `1` and with `1.0`. -/
theorem parse_text_eq_iff_ones :
    let mark (k : Kind) (lexeme : String) (line : Nat) : Token := ⟨k, lexeme, line, .none⟩
    let string (line : Nat) : Token := ⟨.string, "\") (\"", line, .text ") ("⟩
    let ts (one : Token) (line : Nat) : List Token :=
      [mark .ifWord "if" 1, mark .leftParen "(" 1, mark .identifier "x" 1, mark .rightParen ")" 1,
        mark .printWord "print" 1, one, mark .semicolon ";" 1, mark .elseWord "else" line,
        mark .identifier "y" line, mark .equal "=" line, mark .minus "-" line, string line,
        mark .semicolon ";" line, .atEnd line]
    let p (one : Token) (line : Nat) : Program :=
      ⟨[.ifElse (.literal (mark .identifier "x" 1)) (.print (.literal one))
        (.expression (.assign (mark .identifier "y" line)
          (.unary (mark .minus "-" line) (.literal (string line)))))]⟩
    let one : Token := ⟨.number, "1", 1, .number (.ofDecimal 1 0)⟩
    let tenths : Token := ⟨.number, "1.0", 1, .number (.ofDecimal 10 1)⟩
    Scan.tokens "if (x) print 1;\nelse y = -\") (\";" = .ok (ts one 2) ∧
      Scan.tokens "if (x) print 1.0; else y = -\") (\";" = .ok (ts tenths 1) ∧
      parse (ts one 2) = .ok (p one 2) ∧ parse (ts tenths 1) = .ok (p tenths 1) ∧
      (p one 2).text = (p tenths 1).text ∧
      (p one 2).text = "(if x (print 1.0) (expr (= y (- \") (\"))))" := by
  intro mark string ts p one tenths
  have ha : Scan.tokens "if (x) print 1;\nelse y = -\") (\";" = .ok (ts one 2) := by
    decide +kernel
  have hb : Scan.tokens "if (x) print 1.0; else y = -\") (\";" = .ok (ts tenths 1) := by
    decide +kernel
  have hparse (lexeme : String) (value : Payload) (line : Nat) :
      parse (ts ⟨.number, lexeme, 1, value⟩ line) = .ok (p ⟨.number, lexeme, 1, value⟩ line) := by
    cbv
  have hvalue : Binary64.ofDecimal 1 0 = .ofDecimal 10 1 := by decide +kernel
  have hlike : Stmt.AllPrintLike (p one 2).statements (p tenths 1).statements :=
    .cons (.ifElse (.literal ⟨rfl, .inl ⟨rfl, rfl⟩⟩)
      (.print (.literal ⟨by decide +kernel, .inl ⟨rfl, congrArg Payload.number hvalue⟩⟩))
      (.expression (.assign rfl (.unary rfl (.literal ⟨rfl, .inl ⟨rfl, rfl⟩⟩))))) .nil
  have htext := (parse_text_eq_iff ha hb (hparse "1" _ 2) (hparse "1.0" _ 1)).2 hlike
  exact ⟨ha, hb, hparse "1" _ 2, hparse "1.0" _ 1, htext, by decide +kernel⟩

end LoxFront
