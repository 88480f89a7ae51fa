/-
# Trees are the same if their JSON shows the same

Sameness passes over the value that a token holds, and JSON shows it.  Where the tokens are
lexemes with the values that belong to them (`Token.Lexed`) this makes no difference: tokens,
errors and trees of such tokens are the same if and only if their JSON has the same form
(`Token.same_iff`, `ParseError.same_iff`, `Stmt.same_iff`).
-/

import LoxFront.Tree.Json
import LoxFront.Proofs.Json.Text
import LoxFront.Proofs.Scan.Apart

namespace LoxFront
namespace Json

/-! ### The forms of values, part by part -/

/-- Texts have the same form only if they are the same. -/
@[simp] theorem form_string_inj {s t : String} : (string s).form = (string t).form ↔ s = t := by
  rw [form, form, Form.quoted.injEq]

/-- Natural numbers have the same form only if they are the same. -/
@[simp] theorem form_natural_inj {m n : Nat} : (natural m).form = (natural n).form ↔ m = n := by
  rw [form, form, Form.word.injEq, Subtype.mk.injEq, toList_natural, toList_natural]
  constructor
  · intro h
    have hread (n : Nat) : Nat.ofDigitChars 10 (Nat.toDigits 10 n) 0 = n :=
      Nat.ofDigitChars_toDigits (by decide) (Nat.le_refl _)
    rw [← hread m, h, hread]
  · rintro rfl
    rfl

/-- Arrays have the same form exactly if their elements have. -/
@[simp] theorem form_array_inj {as bs : List Json} :
    (array as).form = (array bs).form ↔ forms as = forms bs := by
  rw [form, form, Form.group.injEq, eq_self, true_and]

/-- Elements have the same forms one by one. -/
@[simp] theorem forms_cons_inj {v w : Json} {as bs : List Json} :
    forms (v :: as) = forms (w :: bs) ↔ v.form = w.form ∧ forms as = forms bs := by
  rw [forms, forms, List.cons.injEq]

/-- Nodes have the same form exactly if their names are the same and their parts have the same
form. -/
@[simp] theorem form_node_inj {a b : String} {v w : Json} :
    (node a v).form = (node b w).form ↔ a = b ∧ v.form = w.form := by
  simp [node, form, fieldForms]

/-- A node with parts never looks like a name alone. -/
@[simp] theorem form_node_ne_string {name s : String} {v : Json} :
    (node name v).form ≠ (string s).form := by
  simp [node, form]

/-- A name alone never looks like a node with parts. -/
@[simp] theorem form_string_ne_node {name s : String} {v : Json} :
    (string s).form ≠ (node name v).form := by
  simp [node, form]

/-- A node with parts never looks like a missing one. -/
@[simp] theorem form_node_ne_null {name : String} {v : Json} : (node name v).form ≠ null.form := by
  simp [node, form]

end Json

/-! ### Tokens -/

/-- A token is the end of the input, or its value belongs to its text. -/
def Token.Lexed (t : Token) : Prop := t.kind = .eof ∨ Scan.Belongs t.kind t.payload t.lexeme.toList

namespace Kind

/-- No two kinds have the same name. -/
theorem name_inj {k l : Kind} : k.name = l.name ↔ k = l := by
  have hback : ∀ k : Kind, ofName? k.name = some k := by
    intro k
    cases k <;> decide
  constructor
  · intro h
    exact Option.some.inj (by rw [← hback k, ← hback l, h])
  · rintro rfl
    rfl

end Kind

namespace Token

variable {s t : Token}

/-- The name that JSON shows of a kind, alone or before its value. -/
def shownName : Json.Form → Option String
  | .quoted name => some name
  | .group _ (.field name _ :: _) => some name
  | _ => none

/-- The name of its kind can be read off the JSON of a token. -/
theorem shownName_kindJson (t : Token) : shownName t.kindJson.form = some t.kind.name := by
  rcases t with ⟨kind, lexeme, line, payload⟩
  cases kind <;> rfl

/-- The JSON of a token shows its kind with its value, its text and its line. -/
theorem json_form_inj : s.json.form = t.json.form ↔
    s.kindJson.form = t.kindJson.form ∧ s.lexeme = t.lexeme ∧ s.line = t.line := by
  rw [← Json.form_string_inj (s := s.lexeme), ← Json.form_natural_inj (m := s.line)]
  simp [json, Json.form, Json.fieldForms]

/-- Tokens are the same if they have the same kind, text and line, whatever they hold. -/
theorem same_iff_eq :
    s.same t = true ↔ s.kind = t.kind ∧ s.lexeme = t.lexeme ∧ s.line = t.line := by
  simp [same, and_assoc]

/-- The value of a lexeme is settled by its kind and its text. -/
theorem Lexed.kindJson_eq (hs : s.Lexed) (ht : t.Lexed) (hkind : s.kind = t.kind)
    (hlexeme : s.lexeme = t.lexeme) : s.kindJson = t.kindJson := by
  rcases hs with heof | hs
  · rw [kindJson, kindJson, ← hkind, heof]
  · rcases ht with heof | ht
    · rw [kindJson, kindJson, hkind, heof]
    · rw [← hlexeme] at ht
      have hpayload := (hs.unique ht).2
      rw [kindJson, kindJson, hkind, heldNumber, heldNumber, heldText, heldText, hpayload]

/-- Lexemes are the same token if and only if JSON shows the same of them. -/
theorem same_iff (hs : s.Lexed) (ht : t.Lexed) : s.same t = true ↔ s.json.form = t.json.form := by
  rw [json_form_inj, same_iff_eq]
  constructor
  · rintro ⟨hkind, hlexeme, hline⟩
    rw [hs.kindJson_eq ht hkind hlexeme]
    exact ⟨rfl, hlexeme, hline⟩
  · rintro ⟨hform, hlexeme, hline⟩
    have hname : some s.kind.name = some t.kind.name := by
      rw [← shownName_kindJson, ← shownName_kindJson, hform]
    exact ⟨Kind.name_inj.1 (Option.some.inj hname), hlexeme, hline⟩

end Token

/-! ### Errors -/

/-- An error is at a lexeme or at the end. -/
def ParseError.Lexed (e : ParseError) : Prop := e.token.Lexed

/-- Errors about scanned tokens are the same exactly if they look the same in JSON. -/
theorem ParseError.same_iff {d e : ParseError} (hd : d.Lexed) (he : e.Lexed) :
    d.same e = true ↔ d.json.form = e.json.form := by
  have hmessage := Json.form_string_inj (s := d.message) (t := e.message)
  simp [same, json, Json.form, Json.fieldForms, Token.same_iff hd he]

/-- Lists of errors are the same if and only if JSON shows the same of them. -/
theorem ParseError.isEqv_same_iff {ds es : List ParseError} (hds : ∀ d ∈ ds, d.Lexed)
    (hes : ∀ e ∈ es, e.Lexed) :
    ds.isEqv es ParseError.same = true ↔
      Json.forms (ds.map ParseError.json) = Json.forms (es.map ParseError.json) := by
  induction ds generalizing es with
  | nil => cases es <;> simp [List.isEqv, Json.forms]
  | cons d ds ih =>
    cases es with
    | nil => simp [List.isEqv, Json.forms]
    | cons e es =>
      obtain ⟨hd, hds⟩ := List.forall_mem_cons.1 hds
      obtain ⟨he, hes⟩ := List.forall_mem_cons.1 hes
      simp [List.isEqv, Json.forms, same_iff hd he, ih hds hes]

/-! ### Expressions -/

/-- All tokens in the expression are lexemes. -/
def Expr.Lexed : Expr → Prop
  | literal t => t.Lexed
  | grouping e => e.Lexed
  | unary op e => op.Lexed ∧ e.Lexed
  | binary l op r => l.Lexed ∧ op.Lexed ∧ r.Lexed
  | assign name e => name.Lexed ∧ e.Lexed
  | empty => True
  | error e => e.Lexed

/-- Expressions of scanned tokens are the same exactly if they look the same in JSON. -/
theorem Expr.same_iff {d e : Expr} (hd : d.Lexed) (he : e.Lexed) :
    d.same e = true ↔ d.json.form = e.json.form := by
  induction d generalizing e with
  | literal s =>
    cases e with
    | literal t => simpa [same, json] using Token.same_iff hd he
    | _ => simp [same, json]
  | grouping d ih =>
    cases e with
    | grouping e => simpa [same, json] using ih (e := e) hd he
    | _ => simp [same, json]
  | unary s d ih =>
    cases e with
    | unary t e => simp [same, json, Token.same_iff hd.1 he.1, ih hd.2 he.2]
    | _ => simp [same, json]
  | binary l s r ihl ihr =>
    cases e with
    | binary l' t r' =>
      simp [same, json, ihl hd.1 he.1, Token.same_iff hd.2.1 he.2.1, ihr hd.2.2 he.2.2, and_assoc]
    | _ => simp [same, json]
  | assign s d ih =>
    cases e with
    | assign t e => simp [same, json, Token.same_iff hd.1 he.1, ih hd.2 he.2]
    | _ => simp [same, json]
  | empty => cases e <;> simp [same, json]
  | error d =>
    cases e with
    | error e => simpa [same, json] using ParseError.same_iff hd he
    | _ => simp [same, json]

/-! ### Statements -/

/-- The two sorts of declarations have different names in JSON. -/
theorem Binding.json_form_inj {b c : Binding} : b.json.form = c.json.form ↔ b = c := by
  cases b <;> cases c <;> simp [json]

namespace Stmt

mutual

/-- All tokens in the statement are lexemes. -/
def Lexed : Stmt → Prop
  | expression e | print e => e.Lexed
  | declare _ name e => name.Lexed ∧ e.Lexed
  | block body => AllLexed body
  | ifThen c yes => c.Lexed ∧ yes.Lexed
  | ifElse c yes no => c.Lexed ∧ yes.Lexed ∧ no.Lexed
  | whileLoop c body => c.Lexed ∧ body.Lexed
  | error e => e.Lexed

/-- All tokens in the statements are lexemes. -/
def AllLexed : List Stmt → Prop
  | [] => True
  | s :: rest => s.Lexed ∧ AllLexed rest

end

/-- The JSON of a statement is a node. -/
theorem exists_json (s : Stmt) : ∃ name part, s.json = .node name part := by
  cases s <;> exact ⟨_, _, by rw [json]⟩

/-- No statement looks like a missing one. -/
theorem json_form_ne_null (s : Stmt) : s.json.form ≠ Json.null.form := by
  obtain ⟨name, part, h⟩ := s.exists_json
  rw [h]
  exact Json.form_node_ne_null

mutual

/-- **Statements are the same if and only if JSON shows the same of them**, if their tokens are
lexemes. -/
theorem same_iff : ∀ {a b : Stmt}, a.Lexed → b.Lexed →
    (a.same b = true ↔ a.json.form = b.json.form)
  | expression d, b, hd, he => by
    cases b with
    | expression e =>
      rw [Lexed] at hd he
      simpa [same, json] using Expr.same_iff hd he
    | _ => simp [same, json]
  | print d, b, hd, he => by
    cases b with
    | print e =>
      rw [Lexed] at hd he
      simpa [same, json] using Expr.same_iff hd he
    | _ => simp [same, json]
  | declare k s d, b, hd, he => by
    cases b with
    | declare l t e =>
      rw [Lexed] at hd he
      simp [same, json, Binding.json_form_inj, Token.same_iff hd.1 he.1, Expr.same_iff hd.2 he.2,
        and_assoc]
    | _ => simp [same, json]
  | block as, b, hd, he => by
    cases b with
    | block bs =>
      rw [Lexed] at hd he
      simpa [same, json] using allSame_iff hd he
    | _ => simp [same, json]
  | ifThen c yes, b, hd, he => by
    cases b with
    | ifThen d yes' =>
      rw [Lexed] at hd he
      simp [same, json, Expr.same_iff hd.1 he.1, same_iff hd.2 he.2]
    | ifElse d yes' no => simp [same, json, (json_form_ne_null no).symm]
    | _ => simp [same, json]
  | ifElse c yes no, b, hd, he => by
    cases b with
    | ifElse d yes' no' =>
      rw [Lexed] at hd he
      simp [same, json, Expr.same_iff hd.1 he.1, same_iff hd.2.1 he.2.1, same_iff hd.2.2 he.2.2,
        and_assoc]
    | ifThen d yes' => simp [same, json, json_form_ne_null no]
    | _ => simp [same, json]
  | whileLoop c body, b, hd, he => by
    cases b with
    | whileLoop d body' =>
      rw [Lexed] at hd he
      simp [same, json, Expr.same_iff hd.1 he.1, same_iff hd.2 he.2]
    | _ => simp [same, json]
  | error d, b, hd, he => by
    cases b with
    | error e =>
      rw [Lexed] at hd he
      simpa [same, json] using ParseError.same_iff hd he
    | _ => simp [same, json]

/-- Rows of statements of scanned tokens are the same exactly if they look the same in JSON. -/
theorem allSame_iff : ∀ {as bs : List Stmt}, AllLexed as → AllLexed bs →
    (allSame as bs = true ↔ Json.forms (jsons as) = Json.forms (jsons bs))
  | [], [], _, _ => by simp [allSame]
  | [], b :: bs, _, _ => by simp [allSame, jsons, Json.forms]
  | a :: as, [], _, _ => by simp [allSame, jsons, Json.forms]
  | a :: as, b :: bs, ha, hb => by
    rw [AllLexed] at ha hb
    simp [allSame, jsons, same_iff ha.1 hb.1, allSame_iff ha.2 hb.2]

end

/-- The JSON of several statements is that of each of them. -/
theorem jsons_eq_map (body : List Stmt) : jsons body = body.map json := by
  induction body with
  | nil => rfl
  | cons s rest ih => rw [jsons, ih, List.map_cons]

end Stmt

/-- Programs are the same if and only if JSON shows the same of them. -/
theorem Program.same_iff {p q : Program} (hp : Stmt.AllLexed p.statements)
    (hq : Stmt.AllLexed q.statements) : p.same q = true ↔ p.json.form = q.json.form := by
  rw [same, Stmt.allSame_iff hp hq, json, json, Json.form_array_inj, Stmt.jsons_eq_map,
    Stmt.jsons_eq_map]

end LoxFront
