/-
# The trees of written statements

The tree of a written statement is whole (`Source.Stmt.tree_whole`), and its
nodes hold the tokens of the text, but for marks and keywords, each as often as it
stands there; besides them only the `true` of a `for` loop without a condition, on
the line of the loop (`Source.Stmt.tree_holds`).
-/

import LoxFront.Proofs.Source.Stmt

namespace LoxFront

/-- Tokens of the kind stand in nodes of trees.  All others, which are marks and
keywords, only tell what node it is. -/
def Kind.isHeld (k : Kind) : Bool := decide (k.StandsAlone ∨ k.Prefixes ∨ 1 ≤ k.rank)

/-- Trees hold the tokens that stand alone and the operators, and no others. -/
theorem Kind.isHeld_iff {k : Kind} :
    k.isHeld = true ↔ k.StandsAlone ∨ k.Prefixes ∨ 1 ≤ k.rank := decide_eq_true_iff

/-- The tokens in the nodes of an expression. -/
def Expr.held : Expr → List Token
  | literal t => [t]
  | grouping e => e.held
  | unary op e => op :: e.held
  | binary l op r => l.held ++ op :: r.held
  | assign name e => name :: e.held
  | empty | error _ => []

mutual

/-- The tokens in the nodes of a statement. -/
def Stmt.held : Stmt → List Token
  | expression e | print e => e.held
  | declare _ name e => name :: e.held
  | block body => heldOf body
  | ifThen c yes => c.held ++ yes.held
  | ifElse c yes no => c.held ++ (yes.held ++ no.held)
  | whileLoop c body => c.held ++ body.held
  | error _ => []

/-- The tokens in the nodes of statements. -/
def Stmt.heldOf : List Stmt → List Token
  | [] => []
  | s :: rest => s.held ++ heldOf rest

end

namespace Source

/-! ### Whole trees -/

/-- The tree of an expression has neither errors nor gaps. -/
theorem Expr.tree_whole (e : Expr) : e.tree.Whole := by
  induction e with
  | atom => trivial
  | grouping _ e _ ih | unary _ e ih | assign _ _ e ih => exact ih
  | binary l op r ihl ihr => exact ⟨ihl, ihr⟩

/-- The same of a clause that is there. -/
theorem whole_of_mem_map_tree {e : Option Expr} : ∀ v ∈ e.map Expr.tree, v.Whole := by
  intro v hv
  obtain ⟨w, -, rfl⟩ := Option.map_eq_some_iff.1 hv
  exact w.tree_whole

/-- The same of a declaration, whose value alone may be missing. -/
theorem Declaration.tree_whole (d : Declaration) : d.tree.Whole := by
  rw [tree, LoxFront.Stmt.Whole]
  cases d.value? with
  | none => exact .inl rfl
  | some e => exact .inr e.tree_whole

/-- The same of an initial clause that is there. -/
theorem Initial.whole_of_mem_tree? {i : Initial} : ∀ s ∈ i.tree?, s.Whole := by
  cases i with
  | omitted => exact fun s hs => nomatch hs
  | declaration d => exact fun s hs => Option.some.inj hs ▸ d.tree_whole
  | expression e =>
    intro s hs
    rw [← Option.some.inj hs, LoxFront.Stmt.Whole]
    exact e.tree_whole

namespace Stmt

mutual

/-- The tree of a statement has no errors, and gaps only where a value is missing. -/
theorem tree_whole : ∀ s : Stmt, s.tree.Whole
  | declaration d => by rw [tree]; exact d.tree_whole
  | expression e _ => by rw [tree, LoxFront.Stmt.Whole]; exact e.tree_whole
  | print _ e _ => by rw [tree, LoxFront.Stmt.Whole]; exact e.tree_whole
  | block _ body _ => by rw [tree, LoxFront.Stmt.Whole]; exact trees_whole body
  | ifThen _ _ e _ yes => by
    rw [tree, LoxFront.Stmt.Whole]
    exact ⟨e.tree_whole, tree_whole yes⟩
  | ifElse _ _ e _ yes _ no => by
    rw [tree, LoxFront.Stmt.Whole]
    exact ⟨e.tree_whole, tree_whole yes, tree_whole no⟩
  | whileLoop _ _ e _ body => by
    rw [tree, LoxFront.Stmt.Whole]
    exact ⟨e.tree_whole, tree_whole body⟩
  | forLoop keyword _ i e _ step _ body => by
    rw [tree]
    exact .forLoop Initial.whole_of_mem_tree? whole_of_mem_map_tree whole_of_mem_map_tree
      (tree_whole body)

/-- The same of several statements. -/
theorem trees_whole : ∀ body : List Stmt, LoxFront.Stmt.AllWhole (trees body)
  | [] => by rw [trees]; trivial
  | s :: rest => by rw [trees]; exact ⟨tree_whole s, trees_whole rest⟩

end

end Stmt

/-! ### Tokens in trees -/

/-- The condition of a `for` loop that has none. -/
def trueAt (line : Nat) : Token := ⟨.trueWord, "true", line, .none⟩

mutual

/-- The conditions that a statement has in its tree and not in its text. -/
def Stmt.foreign : Stmt → List Token
  | .declaration _ | .expression _ _ | .print _ _ _ => []
  | .block _ body _ => foreignOf body
  | .ifThen _ _ _ _ yes => yes.foreign
  | .ifElse _ _ _ _ yes _ no => yes.foreign ++ no.foreign
  | .whileLoop _ _ _ _ body => body.foreign
  | .forLoop keyword _ _ e _ _ _ body =>
    e.elim [trueAt keyword.1.line] (fun _ => []) ++ body.foreign

/-- The conditions that statements have in their trees and not in their text. -/
def Stmt.foreignOf : List Stmt → List Token
  | [] => []
  | s :: rest => s.foreign ++ foreignOf rest

end

/-- The tokens `held` are, in some order, those of a text that nodes can hold, each
as often as it stands there, and the tokens `foreign`. -/
def DrawnFrom (held text foreign : List Token) : Prop :=
  held.Perm (text.filter (·.kind.isHeld) ++ foreign)

namespace DrawnFrom

variable {a b s u f g : List Token} {t : Token}

/-- Nothing is drawn from nothing. -/
theorem nil : DrawnFrom [] [] [] := .refl []

/-- A token that trees hold is drawn from the text. -/
theorem cons (ht : t.kind.isHeld = true) (h : DrawnFrom a s f) : DrawnFrom (t :: a) (t :: s) f := by
  rw [DrawnFrom, List.filter_cons_of_pos (p := fun t : Token => t.kind.isHeld) ht]
  exact List.Perm.cons t h

/-- A token of a kind that no node holds makes no difference. -/
theorem mark {k : Kind} (m : Mark k) (h : DrawnFrom a s f) (hk : k.isHeld = false) :
    DrawnFrom a (m.1 :: s) f := by
  have hm : ¬m.1.kind.isHeld = true := by rw [m.2, hk]; decide
  rw [DrawnFrom, List.filter_cons_of_neg (p := fun t : Token => t.kind.isHeld) hm]
  exact h

/-- A token that a tree brings in by itself is not drawn from the text. -/
theorem foreign (t : Token) (h : DrawnFrom a s f) : DrawnFrom (t :: a) s (t :: f) :=
  (List.Perm.cons t h).trans List.perm_middle.symm

/-- What is drawn from two texts is drawn from both together. -/
theorem append (h : DrawnFrom a s f) (k : DrawnFrom b u g) :
    DrawnFrom (a ++ b) (s ++ u) (f ++ g) := by
  rw [DrawnFrom, List.filter_append]
  calc (a ++ b).Perm (s.filter (·.kind.isHeld) ++ f ++ (u.filter (·.kind.isHeld) ++ g)) :=
        List.Perm.append h k
    _ = s.filter (·.kind.isHeld) ++ (f ++ u.filter (·.kind.isHeld) ++ g) := by simp
    _ |>.Perm (s.filter (·.kind.isHeld) ++ (u.filter (·.kind.isHeld) ++ f ++ g)) :=
        (List.perm_append_comm.append_right g).append_left _
    _ = s.filter (·.kind.isHeld) ++ u.filter (·.kind.isHeld) ++ (f ++ g) := by simp

/-- A mark that trees do not hold is passed over at the end. -/
theorem mark_right {k : Kind} (m : Mark k) (h : DrawnFrom a s f) (hk : k.isHeld = false) :
    DrawnFrom a (s ++ [m.1]) f := by
  have happ := h.append (nil.mark m hk)
  rwa [List.append_nil, List.append_nil] at happ

end DrawnFrom

/-- The tree of an expression holds its tokens in order, but for the marks. -/
theorem Expr.tree_holds (e : Expr) : DrawnFrom e.tree.held e.tokens [] := by
  induction e with
  | atom t => exact DrawnFrom.nil.cons (Kind.isHeld_iff.2 (.inl t.2))
  | grouping l e r ih => exact (ih.mark_right r rfl).mark l rfl
  | unary op e ih => exact ih.cons (Kind.isHeld_iff.2 (.inr (.inl op.2)))
  | binary l op r ihl ihr => exact ihl.append (ihr.cons (Kind.isHeld_iff.2 (.inr (.inr op.2))))
  | assign name equals e ih => exact (ih.mark equals rfl).cons (by rw [name.2]; rfl)

/-- The same of a clause that may be missing. -/
theorem clause_holds (e : Option Expr) :
    DrawnFrom ((e.map Expr.tree).elim [] LoxFront.Expr.held) (clauseTokens e) [] := by
  cases e with
  | none => exact .nil
  | some e => exact e.tree_holds

/-- The same of a declaration. -/
theorem Declaration.tree_holds (d : Declaration) : DrawnFrom d.tree.held d.tokens [] := by
  have hvalue : DrawnFrom ((d.value?.map Expr.tree).getD .empty).held
      (d.initial.elim [] fun i => i.1.1 :: clauseTokens i.2) [] := by
    rw [value?]
    rcases d.initial with _ | ⟨equals, _ | e⟩
    · exact .nil
    · exact DrawnFrom.nil.mark equals rfl
    · exact e.tree_holds.mark equals rfl
  have hname := (hvalue.mark_right d.semicolon rfl).cons (t := d.name.1) (by rw [d.name.2]; rfl)
  rw [tree, LoxFront.Stmt.held, tokens]
  rcases d.keyword with ⟨keyword, hk | hk⟩
  · exact hname.mark ⟨keyword, hk⟩ rfl
  · exact hname.mark ⟨keyword, hk⟩ rfl

/-- The same of an initial clause. -/
theorem Initial.tree_holds (i : Initial) :
    DrawnFrom (i.tree?.elim [] LoxFront.Stmt.held) i.tokens [] := by
  cases i with
  | omitted semicolon => exact DrawnFrom.nil.mark semicolon rfl
  | declaration d => exact d.tree_holds
  | expression e semicolon =>
    rw [tree?, Option.elim_some, LoxFront.Stmt.held]
    exact e.tree_holds.mark_right semicolon rfl

end Source

/-- The tokens of a `for` loop: those of its step come behind those of its body. -/
theorem Stmt.held_forLoop (line : Nat) (initial : Option Stmt) (condition step : Option Expr)
    (body : Stmt) :
    (Stmt.forLoop line initial condition step body).held =
      initial.elim [] held ++ (condition.elim [Source.trueAt line] Expr.held ++
        (body.held ++ step.elim [] Expr.held)) := by
  cases initial <;> cases condition <;> cases step <;>
    simp [forLoop, held, heldOf, Expr.held, Source.trueAt]

namespace Source
namespace Stmt

mutual

/-- **A tree holds the tokens of its text**, but for marks and keywords, each as
often as it stands there; what is foreign is the `true` of a `for` loop without a
condition. -/
theorem tree_holds : ∀ s : Stmt, DrawnFrom s.tree.held s.tokens s.foreign
  | declaration d => by rw [tree, tokens, foreign]; exact d.tree_holds
  | expression e semicolon => by
    rw [tree, LoxFront.Stmt.held, tokens, foreign]
    exact e.tree_holds.mark_right semicolon rfl
  | print keyword e semicolon => by
    rw [tree, LoxFront.Stmt.held, tokens, foreign]
    exact (e.tree_holds.mark_right semicolon rfl).mark keyword rfl
  | block l body r => by
    rw [tree, LoxFront.Stmt.held, tokens, foreign]
    exact ((trees_hold body).mark_right r rfl).mark l rfl
  | ifThen keyword l e r yes => by
    rw [tree, LoxFront.Stmt.held, tokens, foreign]
    have hhead := e.tree_holds.append ((tree_holds yes).mark r rfl)
    exact (hhead.mark l rfl).mark keyword rfl
  | ifElse keyword l e r yes otherwise no => by
    rw [tree, LoxFront.Stmt.held, tokens, foreign]
    have hbranches := (tree_holds yes).append ((tree_holds no).mark otherwise rfl)
    have hhead := e.tree_holds.append (hbranches.mark r rfl)
    exact (hhead.mark l rfl).mark keyword rfl
  | whileLoop keyword l e r body => by
    rw [tree, LoxFront.Stmt.held, tokens, foreign]
    have hhead := e.tree_holds.append ((tree_holds body).mark r rfl)
    exact (hhead.mark l rfl).mark keyword rfl
  | forLoop keyword l i e semicolon step r body => by
    rw [tree, LoxFront.Stmt.held_forLoop, tokens, foreign]
    -- in the text the step stands before the body
    have hbody := (clause_holds step).append ((tree_holds body).mark r rfl)
    have hloop : DrawnFrom _ _ body.foreign := List.perm_append_comm.trans hbody
    have hrest := hloop.mark semicolon rfl
    cases e with
    | some e =>
      have hhead := i.tree_holds.append (e.tree_holds.append hrest)
      exact (hhead.mark l rfl).mark keyword rfl
    | none =>
      have hhead := (i.tree_holds.append hrest).foreign (trueAt keyword.1.line)
      have hheld := (hhead.mark l rfl).mark keyword rfl
      exact List.perm_middle.trans hheld

/-- The trees of several statements hold their tokens in order, and those that loops bring in. -/
theorem trees_hold : ∀ body : List Stmt,
    DrawnFrom (LoxFront.Stmt.heldOf (trees body)) (tokensOf body) (foreignOf body)
  | [] => by rw [trees, LoxFront.Stmt.heldOf, tokensOf, foreignOf]; exact .nil
  | s :: rest => by
    rw [trees, LoxFront.Stmt.heldOf, tokensOf, foreignOf]
    exact (tree_holds s).append (trees_hold rest)

end

end Stmt
end Source
end LoxFront
