/-
# A printed tree is read back in one way

Trees print alike (`Stmt.PrintsLike`) if they have the same nodes, with the same operators and
names, and leaves that print alike.  What a tree prints is the text of what it shows
(`Stmt.nested_text`).  If the tokens of a tree are lexemes, each of a kind that its node is for
(`Stmt.Legible`), then the tree is settled by what it shows, and so by its text
(`Program.text_eq_iff`).
-/

import LoxFront.Proofs.Tree.Leaf

namespace LoxFront

/-! ### Trees that print alike -/

/-- The same nodes without errors: the tokens of operators and names are the same but for their
lines, and leaves print alike. -/
inductive Expr.PrintsLike : Expr → Expr → Prop where
  | literal {s t : Token} : s.LeafLike t → PrintsLike (.literal s) (.literal t)
  | grouping {d e : Expr} : PrintsLike d e → PrintsLike (.grouping d) (.grouping e)
  | unary {s t : Token} {d e : Expr} :
    s.word = t.word → PrintsLike d e → PrintsLike (.unary s d) (.unary t e)
  | binary {l l' r r' : Expr} {s t : Token} :
    PrintsLike l l' → s.word = t.word → PrintsLike r r' →
      PrintsLike (.binary l s r) (.binary l' t r')
  | assign {s t : Token} {d e : Expr} :
    s.word = t.word → PrintsLike d e → PrintsLike (.assign s d) (.assign t e)
  | empty : PrintsLike .empty .empty

mutual

/-- The same nodes without errors: the declarations are of the same kind, names are the same but
for their lines, and the expressions print alike. -/
inductive Stmt.PrintsLike : Stmt → Stmt → Prop where
  | expression {d e : Expr} : d.PrintsLike e → Stmt.PrintsLike (.expression d) (.expression e)
  | print {d e : Expr} : d.PrintsLike e → Stmt.PrintsLike (.print d) (.print e)
  | declare {b : Binding} {s t : Token} {d e : Expr} :
    s.word = t.word → d.PrintsLike e → Stmt.PrintsLike (.declare b s d) (.declare b t e)
  | block {a b : List Stmt} : Stmt.AllPrintLike a b → Stmt.PrintsLike (.block a) (.block b)
  | ifThen {d e : Expr} {a b : Stmt} :
    d.PrintsLike e → Stmt.PrintsLike a b → Stmt.PrintsLike (.ifThen d a) (.ifThen e b)
  | ifElse {d e : Expr} {a a' b b' : Stmt} :
    d.PrintsLike e → Stmt.PrintsLike a b → Stmt.PrintsLike a' b' →
      Stmt.PrintsLike (.ifElse d a a') (.ifElse e b b')
  | whileLoop {d e : Expr} {a b : Stmt} :
    d.PrintsLike e → Stmt.PrintsLike a b → Stmt.PrintsLike (.whileLoop d a) (.whileLoop e b)

/-- As many statements, which print alike one for one. -/
inductive Stmt.AllPrintLike : List Stmt → List Stmt → Prop where
  | nil : Stmt.AllPrintLike [] []
  | cons {s t : Stmt} {a b : List Stmt} :
    Stmt.PrintsLike s t → Stmt.AllPrintLike a b → Stmt.AllPrintLike (s :: a) (t :: b)

end

/-! ### What a tree shows -/

/-- What an expression shows. -/
def Expr.nested : Expr → Nested
  | literal t => t.nested
  | grouping e => .list "group".toList [e.nested]
  | unary op e => .list op.lexeme.toList [e.nested]
  | binary l op r => .list op.lexeme.toList [l.nested, r.nested]
  | assign name e => .list "=".toList [.word name.lexeme.toList, e.nested]
  | empty => .word "<empty>".toList
  | error e => .word e.leaf.toList

namespace Stmt

mutual

/-- What a statement shows. -/
def nested : Stmt → Nested
  | expression e => .list "expr".toList [e.nested]
  | print e => .list "print".toList [e.nested]
  | declare b name .empty => .list b.keyword.toList [.word name.lexeme.toList]
  | declare b name e => .list b.keyword.toList [.word name.lexeme.toList, e.nested]
  | block body => .list "block".toList (nestedAll body)
  | ifThen c yes => .list "if".toList [c.nested, yes.nested]
  | ifElse c yes no => .list "if".toList [c.nested, yes.nested, no.nested]
  | whileLoop c body => .list "while".toList [c.nested, body.nested]
  | error e => .word e.leaf.toList

/-- What statements show. -/
def nestedAll : List Stmt → List Nested
  | [] => []
  | s :: rest => s.nested :: nestedAll rest

end

end Stmt

/-! ### The text of a tree -/

/-- Items in parentheses, the head first. -/
theorem toList_parenthesised (head : String) (items : List String) :
    (parenthesised (head :: items)).toList =
      '(' :: (head.toList ++ ((items.map String.toList).flatMap (' ' :: ·) ++ [')'])) := by
  rw [parenthesised, String.toList_append, String.toList_append, String.toList_intercalate,
    List.map_cons, Json.intercalate_cons]
  simp

/-- An expression is printed as its items in parentheses. -/
theorem Expr.nested_text (e : Expr) : e.nested.text = e.text.toList := by
  induction e with
  | literal t => exact t.nested_text
  | empty | error e => rw [nested, text, Nested.text]
  | grouping e ih | unary op e ih | assign name e ih =>
    simp [nested, text, Nested.text, Nested.behind_eq_flatMap, toList_parenthesised, ih]
  | binary l op r ihl ihr =>
    simp [nested, text, Nested.text, Nested.behind_eq_flatMap, toList_parenthesised, ihl, ihr]

namespace Stmt

mutual

/-- A statement is printed as its items in parentheses. -/
theorem nested_text : ∀ s : Stmt, s.nested.text = s.text.toList
  | expression e | print e => by
    simp [nested, text, Nested.text, Nested.behind_eq_flatMap, toList_parenthesised, e.nested_text]
  | declare b name e => by
    cases e <;>
      simp [nested, text, Nested.text, Nested.behind_eq_flatMap, toList_parenthesised, Expr.nested_text]
  | block body => by
    simp [nested, text, Nested.text, Nested.behind_eq_flatMap, toList_parenthesised, nestedAll_text body]
  | ifThen c yes => by
    simp [nested, text, Nested.text, Nested.behind_eq_flatMap, toList_parenthesised, c.nested_text,
      nested_text yes]
  | ifElse c yes no => by
    simp [nested, text, Nested.text, Nested.behind_eq_flatMap, toList_parenthesised, c.nested_text,
      nested_text yes, nested_text no]
  | whileLoop c body => by
    simp [nested, text, Nested.text, Nested.behind_eq_flatMap, toList_parenthesised, c.nested_text,
      nested_text body]
  | error e => by rw [nested, text, Nested.text]

/-- The same of several statements. -/
theorem nestedAll_text : ∀ body : List Stmt,
    (nestedAll body).map Nested.text = (texts body).map String.toList
  | [] => rfl
  | s :: rest => by
    rw [nestedAll, texts, List.map_cons, List.map_cons, nested_text s, nestedAll_text rest]

end

end Stmt

/-- The text of a program is what its statements show, one a line. -/
theorem Program.toList_text (p : Program) :
    p.text.toList = Nested.lines (p.statements.map Stmt.nested) := by
  have hmap : p.statements.map (Nested.text ∘ Stmt.nested) =
      p.statements.map (String.toList ∘ Stmt.text) :=
    List.map_congr_left fun s _ => s.nested_text
  rw [text, String.toList_intercalate, List.map_map, Nested.lines, List.map_map, hmap]
  rfl

/-! ### Legible trees -/

/-- The tokens of an expression without errors are lexemes, each of a kind that its node is
for. -/
def Expr.Legible : Expr → Prop
  | literal t => t.Lexed ∧ t.kind.StandsAlone
  | grouping e => e.Legible
  | unary op e => (op.Lexed ∧ op.kind.Prefixes) ∧ e.Legible
  | binary l op r => l.Legible ∧ (op.Lexed ∧ 1 ≤ op.kind.rank) ∧ r.Legible
  | assign name e => (name.Lexed ∧ name.kind = .identifier) ∧ e.Legible
  | empty | error _ => False

namespace Stmt

mutual

/-- The tokens of a statement without errors are lexemes, each of a kind that its node is
for; only a declaration may be without a value. -/
def Legible : Stmt → Prop
  | expression e | print e => e.Legible
  | declare _ name e => (name.Lexed ∧ name.kind = .identifier) ∧ (e = .empty ∨ e.Legible)
  | block body => AllLegible body
  | ifThen c yes => c.Legible ∧ yes.Legible
  | ifElse c yes no => c.Legible ∧ yes.Legible ∧ no.Legible
  | whileLoop c body => c.Legible ∧ body.Legible
  | error _ => False

/-- All the statements are legible. -/
def AllLegible : List Stmt → Prop
  | [] => True
  | s :: rest => s.Legible ∧ AllLegible rest

end

/-- A declaration whose value is legible is printed as its keyword, its name and its value. -/
theorem nested_declare {b : Binding} {name : Token} {e : Expr} (h : e.Legible) :
    (declare b name e).nested = .list b.keyword.toList [.word name.lexeme.toList, e.nested] := by
  cases e with
  | empty => exact h.elim
  | literal | grouping | unary | binary | assign | error => rw [nested]; simp

end Stmt

/-- What a legible expression shows is sound. -/
theorem Expr.Legible.sound {e : Expr} (h : e.Legible) : e.nested.Sound := by
  induction e with
  | literal t => exact h.1.nested_sound h.2
  | grouping e ih =>
    rw [nested, Nested.Sound, Nested.AllSound, Nested.AllSound]
    exact ⟨by decide, ih h, trivial⟩
  | unary op e ih =>
    rw [nested, Nested.Sound, Nested.AllSound, Nested.AllSound]
    exact ⟨(h.1.1.operator (.inl h.1.2)).1, ih h.2, trivial⟩
  | binary l op r ihl ihr =>
    rw [nested, Nested.Sound, Nested.AllSound, Nested.AllSound, Nested.AllSound]
    exact ⟨(h.2.1.1.operator (.inr h.2.1.2)).1, ihl h.1, ihr h.2.2, trivial⟩
  | assign name e ih =>
    rw [nested, Nested.Sound, Nested.AllSound, Nested.AllSound, Nested.AllSound, Nested.Sound]
    exact ⟨by decide, h.1.1.isWord_name h.1.2, ih h.2, trivial⟩
  | empty | error => exact h.elim

namespace Stmt

/-- The keywords of declarations are words of the print. -/
theorem isWord_keyword (b : Binding) : Nested.IsWord b.keyword.toList := by
  cases b <;> decide

mutual

/-- What is printed of a legible statement can be read back. -/
theorem Legible.sound : ∀ {s : Stmt}, s.Legible → s.nested.Sound
  | expression e, h | print e, h => by
    rw [Legible] at h
    rw [nested, Nested.Sound, Nested.AllSound, Nested.AllSound]
    exact ⟨by decide, h.sound, trivial⟩
  | declare b name e, h => by
    rw [Legible] at h
    have hname := h.1.1.isWord_name h.1.2
    rcases h.2 with rfl | he
    · rw [nested, Nested.Sound, Nested.AllSound, Nested.AllSound, Nested.Sound]
      exact ⟨isWord_keyword b, hname, trivial⟩
    · rw [nested_declare he, Nested.Sound, Nested.AllSound, Nested.AllSound, Nested.AllSound,
        Nested.Sound]
      exact ⟨isWord_keyword b, hname, he.sound, trivial⟩
  | block body, h => by
    rw [Legible] at h
    rw [nested, Nested.Sound]
    exact ⟨by decide, AllLegible.sound h⟩
  | ifThen c yes, h | whileLoop c yes, h => by
    rw [Legible] at h
    rw [nested, Nested.Sound, Nested.AllSound, Nested.AllSound, Nested.AllSound]
    exact ⟨by decide, h.1.sound, Legible.sound h.2, trivial⟩
  | ifElse c yes no, h => by
    rw [Legible] at h
    rw [nested, Nested.Sound, Nested.AllSound, Nested.AllSound, Nested.AllSound, Nested.AllSound]
    exact ⟨by decide, h.1.sound, Legible.sound h.2.1, Legible.sound h.2.2, trivial⟩
  | error e, h => by simp [Legible] at h

/-- The same of several statements. -/
theorem AllLegible.sound : ∀ {body : List Stmt}, AllLegible body →
    Nested.AllSound (nestedAll body)
  | [], _ => by
    rw [nestedAll, Nested.AllSound]
    trivial
  | s :: rest, h => by
    rw [AllLegible] at h
    rw [nestedAll, Nested.AllSound]
    exact ⟨Legible.sound h.1, AllLegible.sound h.2⟩

end

end Stmt

/-! ### Reading a tree back -/

/-- A token is never printed as a list. -/
@[simp] theorem Token.nested_ne_list (t : Token) (head : List Char) (items : List Nested) :
    t.nested ≠ .list head items := by
  rw [nested]
  split <;> simp

/-- A list is never printed as a token. -/
@[simp] theorem Token.list_ne_nested (t : Token) (head : List Char) (items : List Nested) :
    .list head items ≠ t.nested := (t.nested_ne_list head items).symm

/-- **A legible expression is settled by what it shows.** -/
theorem Expr.Legible.printsLike {d e : Expr} (hd : d.Legible) (he : e.Legible)
    (h : d.nested = e.nested) : d.PrintsLike e := by
  induction d generalizing e with
  | literal s =>
    cases e with
    | literal t => exact .literal (hd.1.leafLike he.1 hd.2 he.2 h)
    | grouping | unary | binary | assign => simp [nested] at h
    | empty | error => exact he.elim
  | grouping d ih =>
    cases e with
    | grouping e =>
      simp only [nested, Nested.list.injEq, List.cons.injEq, true_and, and_true] at h
      exact .grouping (ih hd he h)
    | unary op e =>
      simp only [nested, Nested.list.injEq] at h
      exact absurd h.1.symm (he.1.1.operator (.inl he.1.2)).2.1
    | literal | binary | assign => simp [nested] at h
    | empty | error => exact he.elim
  | unary s d ih =>
    cases e with
    | unary t e =>
      simp only [nested, Nested.list.injEq, List.cons.injEq, and_true] at h
      exact .unary (hd.1.1.operator_eq he.1.1 (.inl hd.1.2) (.inl he.1.2) h.1) (ih hd.2 he.2 h.2)
    | grouping e =>
      simp only [nested, Nested.list.injEq] at h
      exact absurd h.1 (hd.1.1.operator (.inl hd.1.2)).2.1
    | literal | binary | assign => simp [nested] at h
    | empty | error => exact he.elim
  | binary l s r ihl ihr =>
    obtain ⟨hl, hs, hr⟩ := hd
    cases e with
    | binary l' t r' =>
      obtain ⟨hl', ht, hr'⟩ := he
      simp only [nested, Nested.list.injEq, List.cons.injEq, and_true] at h
      exact .binary (ihl hl hl' h.2.1) (hs.1.operator_eq ht.1 (.inr hs.2) (.inr ht.2) h.1)
        (ihr hr hr' h.2.2)
    | assign t e =>
      simp only [nested, Nested.list.injEq] at h
      exact absurd h.1 (hs.1.operator (.inr hs.2)).2.2
    | literal | grouping | unary => simp [nested] at h
    | empty | error => exact he.elim
  | assign s d ih =>
    cases e with
    | assign t e =>
      simp only [nested, Nested.list.injEq, List.cons.injEq, Nested.word.injEq, true_and,
        and_true] at h
      exact .assign (hd.1.1.name_eq he.1.1 hd.1.2 he.1.2 h.1) (ih hd.2 he.2 h.2)
    | binary l op r =>
      simp only [nested, Nested.list.injEq] at h
      exact absurd h.1.symm (he.2.1.1.operator (.inr he.2.1.2)).2.2
    | literal | grouping | unary => simp [nested] at h
    | empty | error => exact he.elim
  | empty | error => exact hd.elim

namespace Stmt

/-- The word that a statement begins with, behind its parenthesis. -/
def head : Stmt → String
  | expression _ => "expr"
  | print _ => "print"
  | declare b _ _ => b.keyword
  | block _ => "block"
  | ifThen _ _ | ifElse _ _ _ => "if"
  | whileLoop _ _ => "while"
  | error e => e.leaf

/-- A statement is printed as a list, with a word for its sort at the head. -/
theorem Legible.exists_nested_eq {s : Stmt} (h : s.Legible) :
    ∃ items, s.nested = .list s.head.toList items := by
  cases s with
  | declare b name e =>
    rw [Legible] at h
    rcases h.2 with rfl | he
    · exact ⟨_, by rw [nested, head]⟩
    · exact ⟨_, by rw [nested_declare he, head]⟩
  | error e => simp [Legible] at h
  | _ => exact ⟨_, by rw [nested, head]⟩

/-- Statements that are printed alike are of the same sort. -/
theorem Legible.head_eq {s t : Stmt} (hs : s.Legible) (ht : t.Legible)
    (h : s.nested = t.nested) : s.head = t.head := by
  obtain ⟨items, hs⟩ := hs.exists_nested_eq
  obtain ⟨items', ht⟩ := ht.exists_nested_eq
  rw [hs, ht, Nested.list.injEq, String.toList_inj] at h
  exact h.1

/-- Declarations of the same kind, both with a value or both without. -/
theorem printsLike_declare {b c : Binding} {s t : Token} {d e : Expr}
    (hs : (declare b s d).Legible) (ht : (declare c t e).Legible)
    (h : (declare b s d).nested = (declare c t e).nested) :
    (declare b s d).PrintsLike (declare c t e) := by
  have hkeyword : b.keyword = c.keyword := hs.head_eq ht h
  obtain rfl : b = c := by cases b <;> cases c <;> simp_all [Binding.keyword]
  rw [Legible] at hs ht
  obtain ⟨⟨hs, hks⟩, hd⟩ := hs
  obtain ⟨⟨ht, hkt⟩, he⟩ := ht
  rcases hd with rfl | hd <;> rcases he with rfl | he
  · simp only [nested, Nested.list.injEq, List.cons.injEq, Nested.word.injEq, true_and,
      and_true] at h
    exact .declare (hs.name_eq ht hks hkt h) .empty
  · rw [nested_declare he] at h
    simp [nested] at h
  · rw [nested_declare hd] at h
    simp [nested] at h
  · rw [nested_declare hd, nested_declare he] at h
    simp only [Nested.list.injEq, List.cons.injEq, Nested.word.injEq, true_and, and_true] at h
    exact .declare (hs.name_eq ht hks hkt h.1) (hd.printsLike he h.2)

/-- No other statement has the head of a declaration. -/
theorem keyword_ne {s : Stmt} (hs : s.Legible) (h : ∀ b name e, s ≠ declare b name e)
    (b : Binding) : s.head ≠ b.keyword := by
  cases s with
  | declare b name e => exact absurd rfl (h b name e)
  | error e => simp [Legible] at hs
  | _ => cases b <;> simp [head, Binding.keyword]

mutual

/-- **A legible statement is settled by what it shows.** -/
theorem Legible.printsLike : ∀ {s t : Stmt}, s.Legible → t.Legible → s.nested = t.nested →
    s.PrintsLike t
  | expression d, t, hs, ht, h => by
    have hhead := hs.head_eq ht h
    cases t with
    | expression e =>
      rw [Legible] at hs ht
      simp only [nested, Nested.list.injEq, List.cons.injEq, true_and, and_true] at h
      exact .expression (hs.printsLike ht h)
    | declare b => exact absurd hhead (keyword_ne hs (by simp) b)
    | error => simp [Legible] at ht
    | _ => simp [head] at hhead
  | print d, t, hs, ht, h => by
    have hhead := hs.head_eq ht h
    cases t with
    | print e =>
      rw [Legible] at hs ht
      simp only [nested, Nested.list.injEq, List.cons.injEq, true_and, and_true] at h
      exact .print (hs.printsLike ht h)
    | declare b => exact absurd hhead (keyword_ne hs (by simp) b)
    | error => simp [Legible] at ht
    | _ => simp [head] at hhead
  | declare b name d, t, hs, ht, h => by
    by_cases hdeclare : ∃ c name' e, t = declare c name' e
    · obtain ⟨c, name', e, rfl⟩ := hdeclare
      exact printsLike_declare hs ht h
    · have hne := keyword_ne ht (by simpa using hdeclare) b
      exact absurd (hs.head_eq ht h).symm hne
  | block body, t, hs, ht, h => by
    have hhead := hs.head_eq ht h
    cases t with
    | block body' =>
      rw [Legible] at hs ht
      simp only [nested, Nested.list.injEq, true_and] at h
      exact .block (AllLegible.printLike hs ht h)
    | declare b => exact absurd hhead (keyword_ne hs (by simp) b)
    | error => simp [Legible] at ht
    | _ => simp [head] at hhead
  | ifThen c yes, t, hs, ht, h => by
    have hhead := hs.head_eq ht h
    cases t with
    | ifThen c' yes' =>
      rw [Legible] at hs ht
      simp only [nested, Nested.list.injEq, List.cons.injEq, true_and, and_true] at h
      exact .ifThen (hs.1.printsLike ht.1 h.1) (Legible.printsLike hs.2 ht.2 h.2)
    | ifElse => simp [nested] at h
    | declare b => exact absurd hhead (keyword_ne hs (by simp) b)
    | error => simp [Legible] at ht
    | _ => simp [head] at hhead
  | ifElse c yes no, t, hs, ht, h => by
    have hhead := hs.head_eq ht h
    cases t with
    | ifElse c' yes' no' =>
      rw [Legible] at hs ht
      simp only [nested, Nested.list.injEq, List.cons.injEq, true_and, and_true] at h
      exact .ifElse (hs.1.printsLike ht.1 h.1) (Legible.printsLike hs.2.1 ht.2.1 h.2.1)
        (Legible.printsLike hs.2.2 ht.2.2 h.2.2)
    | ifThen => simp [nested] at h
    | declare b => exact absurd hhead (keyword_ne hs (by simp) b)
    | error => simp [Legible] at ht
    | _ => simp [head] at hhead
  | whileLoop c body, t, hs, ht, h => by
    have hhead := hs.head_eq ht h
    cases t with
    | whileLoop c' body' =>
      rw [Legible] at hs ht
      simp only [nested, Nested.list.injEq, List.cons.injEq, true_and, and_true] at h
      exact .whileLoop (hs.1.printsLike ht.1 h.1) (Legible.printsLike hs.2 ht.2 h.2)
    | declare b => exact absurd hhead (keyword_ne hs (by simp) b)
    | error => simp [Legible] at ht
    | _ => simp [head] at hhead
  | error e, t, hs, _, _ => by simp [Legible] at hs

/-- Rows of legible statements that are printed alike differ in nothing that is printed. -/
theorem AllLegible.printLike : ∀ {a b : List Stmt}, AllLegible a → AllLegible b →
    nestedAll a = nestedAll b → AllPrintLike a b
  | [], [], _, _, _ => .nil
  | [], t :: b, _, _, h => by simp [nestedAll] at h
  | s :: a, [], _, _, h => by simp [nestedAll] at h
  | s :: a, t :: b, ha, hb, h => by
    rw [AllLegible] at ha hb
    rw [nestedAll, nestedAll, List.cons.injEq] at h
    exact .cons (Legible.printsLike ha.1 hb.1 h.1) (AllLegible.printLike ha.2 hb.2 h.2)

end

end Stmt

/-! ### Trees that print alike have the same text -/

/-- Tokens of the same word have the same text. -/
theorem Token.lexeme_eq_of_word {s t : Token} (h : s.word = t.word) : s.lexeme = t.lexeme :=
  congrArg (·.2.1) h

/-- Expressions that differ in nothing that is printed have the same print. -/
theorem Expr.PrintsLike.text_eq {d e : Expr} (h : d.PrintsLike e) : d.text = e.text := by
  induction h with
  | literal h => rw [text, text, h.leaf]
  | grouping _ ih => rw [text, text, ih]
  | unary h _ ih => rw [text, text, Token.lexeme_eq_of_word h, ih]
  | binary _ h _ ihl ihr => rw [text, text, ihl, Token.lexeme_eq_of_word h, ihr]
  | assign h _ ih => rw [text, text, Token.lexeme_eq_of_word h, ih]
  | empty => rfl

namespace Stmt

mutual

/-- The same of statements. -/
theorem PrintsLike.text_eq : ∀ {s t : Stmt}, s.PrintsLike t → s.text = t.text
  | _, _, .expression h | _, _, .print h => by rw [text, text, h.text_eq]
  | _, _, .declare hname h => by
    have htext := h.text_eq
    cases h with
    | empty => rw [text, text, Token.lexeme_eq_of_word hname]
    | literal | grouping | unary | binary | assign =>
      rw [text, text, Token.lexeme_eq_of_word hname, htext] <;> simp
  | _, _, .block h => by rw [text, text, h.texts_eq]
  | _, _, .ifThen h k | _, _, .whileLoop h k => by rw [text, text, h.text_eq, k.text_eq]
  | _, _, .ifElse h k l => by rw [text, text, h.text_eq, k.text_eq, l.text_eq]

/-- The same of several statements. -/
theorem AllPrintLike.texts_eq : ∀ {a b : List Stmt}, AllPrintLike a b → texts a = texts b
  | _, _, .nil => rfl
  | _, _, .cons h k => by rw [texts, texts, h.text_eq, k.texts_eq]

end

/-- The print of several statements is that of each of them. -/
theorem texts_eq_map (body : List Stmt) : texts body = body.map text := by
  induction body with
  | nil => rfl
  | cons s rest ih => rw [texts, ih, List.map_cons]

/-- The items of several statements are those of each of them. -/
theorem nestedAll_eq_map (body : List Stmt) : nestedAll body = body.map nested := by
  induction body with
  | nil => rfl
  | cons s rest ih => rw [nestedAll, ih, List.map_cons]

/-- What is printed of legible statements can be read back, each by itself. -/
theorem AllLegible.forall_sound {body : List Stmt} (h : AllLegible body) :
    ∀ n ∈ body.map nested, n.Sound := by
  induction body with
  | nil => exact List.forall_mem_nil _
  | cons s rest ih =>
    rw [AllLegible] at h
    exact List.forall_mem_cons.2 ⟨h.1.sound, ih h.2⟩

end Stmt

/-- **Legible programs have the same text if and only if they print alike.** -/
theorem Program.text_eq_iff {p q : Program} (hp : Stmt.AllLegible p.statements)
    (hq : Stmt.AllLegible q.statements) :
    p.text = q.text ↔ Stmt.AllPrintLike p.statements q.statements := by
  constructor
  · intro h
    have hlines : Nested.lines (p.statements.map Stmt.nested) =
        Nested.lines (q.statements.map Stmt.nested) := by
      rw [← toList_text, ← toList_text, h]
    have hnested := Nested.lines_unique hp.forall_sound hq.forall_sound hlines
    rw [← Stmt.nestedAll_eq_map, ← Stmt.nestedAll_eq_map] at hnested
    exact hp.printLike hq hnested
  · intro h
    rw [text, text, ← Stmt.texts_eq_map, ← Stmt.texts_eq_map, h.texts_eq]

end LoxFront
