/-
# Places in a tree

A place in a tree is told by the way down to it: at each node the number of the child
to go to (`Node.at?`).  The children of a node stand from left to right, so the ways in
their lexicographic order tell the places from left to right.  The errors that are
collected from a tree are those of all its error nodes, each once and from left to
right, behind what was collected before; a tree has errors if and only if there are such
nodes (`errors_listed`).
-/

import LoxFront.Proofs.Tree.Errors
import Mathlib.Data.List.Forall2

namespace LoxFront

/-- A node of a syntax tree, or a whole program. -/
inductive Node where
  | expr (e : Expr)
  | stmt (s : Stmt)
  | program (p : Program)

namespace Node

/-- The nodes right below a node, from left to right. -/
def children : Node → List Node
  | expr (.literal _) | expr .empty | expr (.error _) | stmt (.error _) => []
  | expr (.grouping e) | expr (.unary _ e) | expr (.assign _ e) => [expr e]
  | expr (.binary l _ r) => [expr l, expr r]
  | stmt (.expression e) | stmt (.print e) | stmt (.declare _ _ e) => [expr e]
  | stmt (.block body) => body.map stmt
  | stmt (.ifThen c yes) => [expr c, stmt yes]
  | stmt (.ifElse c yes no) => [expr c, stmt yes, stmt no]
  | stmt (.whileLoop c body) => [expr c, stmt body]
  | program p => p.statements.map stmt

/-- The error of an error node. -/
def error? : Node → Option ParseError
  | expr (.error e) | stmt (.error e) => some e
  | _ => none

/-- The node at the end of a way down. -/
def at? (n : Node) : List Nat → Option Node
  | [] => some n
  | i :: way => n.children[i]?.bind fun m => m.at? way

/-- The error of the error node at the end of a way down. -/
def errorAt? (n : Node) (way : List Nat) : Option ParseError := (n.at? way).bind error?

/-- These are the errors of all the error nodes, each once and from left to right. -/
def Lists (n : Node) (errors : List ParseError) : Prop :=
  ∃ ways : List (List Nat), ways.Pairwise (· < ·) ∧
    (∀ way, way ∈ ways ↔ (n.errorAt? way).isSome = true) ∧
    ways.map n.errorAt? = errors.map some

variable {n m : Node} {i k : Nat} {way : List Nat}

/-- What goes from every node to its children holds at all places below. -/
theorem holds_at {P : Node → Prop} (hchild : ∀ n, P n → ∀ m ∈ n.children, P m) (hn : P n)
    (h : n.at? way = some m) : P m := by
  induction way generalizing n with
  | nil => exact Option.some.inj h ▸ hn
  | cons i way ih =>
    obtain ⟨k, hk, h⟩ := Option.bind_eq_some_iff.1 h
    exact ih (hchild n hn k (List.mem_of_getElem? hk)) h

/-- At the end of the way is the node itself. -/
theorem errorAt?_nil (n : Node) : n.errorAt? [] = n.error? := rfl

/-- The first step of a way goes to the child of this number. -/
theorem errorAt?_cons (h : n.children[i]? = some m) :
    n.errorAt? (i :: way) = m.errorAt? way := by
  rw [errorAt?, at?, h]
  rfl

/-- A step to a child that is not there leads nowhere. -/
theorem errorAt?_cons_none (h : n.children[i]? = none) : n.errorAt? (i :: way) = none := by
  rw [errorAt?, at?, h]
  rfl

/-- Below an error node there are no others. -/
theorem lists_error {e : ParseError} (hn : n.error? = some e) (hc : n.children = []) :
    n.Lists [e] := by
  refine ⟨[[]], List.pairwise_singleton _ _, fun way => ?_, ?_⟩
  · cases way with
    | nil => simp [errorAt?_nil, hn]
    | cons i way =>
      have hnone : n.children[i]? = none := by rw [hc]; rfl
      simp [errorAt?_cons_none hnone]
  · rw [List.map_singleton, List.map_singleton, errorAt?_nil, hn]

/-! ### From child to child -/

/-- These are the errors below the children from the `k`-th one on, each once and from left
to right. -/
def ListsFrom (n : Node) (k : Nat) (errors : List ParseError) : Prop :=
  ∃ ways : List (List Nat), ways.Pairwise (· < ·) ∧
    (∀ way, way ∈ ways ↔ (n.errorAt? way).isSome = true ∧ ∃ i rest, way = i :: rest ∧ k ≤ i) ∧
    ways.map n.errorAt? = errors.map some

/-- From behind the last child on there is nothing to list. -/
theorem listsFrom_nil (hk : n.children.length ≤ k) : n.ListsFrom k [] := by
  refine ⟨[], .nil, fun way => ⟨fun hway => absurd hway List.not_mem_nil, ?_⟩, rfl⟩
  rintro ⟨hsome, i, rest, rfl, hi⟩
  rw [errorAt?_cons_none (List.getElem?_eq_none (Nat.le_trans hk hi))] at hsome
  exact absurd hsome Bool.false_ne_true

/-- The errors of the `k`-th child come before those of the later ones. -/
theorem ListsFrom.cons {errors errors' : List ParseError} (hchild : n.children[k]? = some m)
    (hm : m.Lists errors) (h : n.ListsFrom (k + 1) errors') :
    n.ListsFrom k (errors ++ errors') := by
  obtain ⟨below, hsorted, hbelow, herrors⟩ := hm
  obtain ⟨behind, hsorted', hbehind, herrors'⟩ := h
  refine ⟨below.map (k :: ·) ++ behind, ?_, fun way => ?_, ?_⟩
  · refine List.pairwise_append.2 ⟨?_, hsorted', ?_⟩
    · exact List.pairwise_map.2 (hsorted.imp fun hlt => List.cons_lt_cons_self.2 hlt)
    · intro first hfirst later hlater
      obtain ⟨rest, -, rfl⟩ := List.mem_map.1 hfirst
      obtain ⟨-, i, rest', rfl, hi⟩ := (hbehind later).1 hlater
      exact List.Lex.rel hi
  · rw [List.mem_append, List.mem_map, hbehind]
    constructor
    · rintro (⟨rest, hway, rfl⟩ | ⟨hsome, i, rest, rfl, hi⟩)
      · exact ⟨by rw [errorAt?_cons hchild, ← hbelow]; exact hway, k, rest, rfl, Nat.le_refl k⟩
      · exact ⟨hsome, i, rest, rfl, Nat.le_of_succ_le hi⟩
    · rintro ⟨hsome, i, rest, rfl, hi⟩
      rcases Nat.eq_or_lt_of_le hi with rfl | hlt
      · rw [errorAt?_cons hchild, ← hbelow] at hsome
        exact .inl ⟨rest, hsome, rfl⟩
      · exact .inr ⟨hsome, i, rest, rfl, hlt⟩
  · have hmap : (below.map (k :: ·)).map n.errorAt? = below.map m.errorAt? := by
      rw [List.map_map]
      exact List.map_congr_left fun way _ => errorAt?_cons hchild
    rw [List.map_append, hmap, herrors, herrors', List.map_append]

/-- Lists for the children from a number on, put one behind the other, list what is below these
children. -/
theorem listsFrom_of_forall₂ {nodes : List Node} {found : List (List ParseError)}
    (h : List.Forall₂ Lists nodes found) (hk : n.children.drop k = nodes) :
    n.ListsFrom k found.flatten := by
  induction h generalizing k with
  | nil => exact listsFrom_nil (List.drop_eq_nil_iff.1 hk)
  | @cons m errors nodes found hm _ ih =>
    have hchild : n.children[k]? = some m := by
      rw [← List.head?_drop, hk, List.head?_cons]
    have hrest : n.children.drop (k + 1) = nodes := by
      rw [← List.drop_drop, hk, List.drop_one, List.tail_cons]
    exact .cons hchild hm (ih hrest)

/-- The errors of a node that is no error are those of its children, one after another. -/
theorem lists_of_children {found : List (List ParseError)} (hn : n.error? = none)
    (h : List.Forall₂ Lists n.children found) : n.Lists found.flatten := by
  obtain ⟨ways, hsorted, hways, herrors⟩ := listsFrom_of_forall₂ (k := 0) h rfl
  refine ⟨ways, hsorted, fun way => ?_, herrors⟩
  rw [hways]
  cases way with
  | nil => simp [errorAt?_nil, hn]
  | cons i rest => simp

/-- A node that is no error and has no children lists nothing. -/
theorem lists_leaf (hn : n.error? = none) (hc : n.children = []) : n.Lists [] := by
  have hnone : n.Lists [].flatten := lists_of_children hn (hc ▸ .nil)
  exact hnone

/-- A node with one child has the errors of that child. -/
theorem lists_of_child {errors : List ParseError} (hn : n.error? = none)
    (hc : n.children = [m]) (h : m.Lists errors) : n.Lists errors := by
  have hone : n.Lists [errors].flatten := lists_of_children hn (hc ▸ .cons h .nil)
  rwa [List.flatten_singleton] at hone

end Node

/-! ### Errors of trees -/

/-- The errors that are collected from an expression list the errors in it. -/
theorem Expr.lists_errors (e : Expr) : (Node.expr e).Lists e.errors := by
  induction e with
  | literal | empty => exact Node.lists_leaf rfl rfl
  | error e => exact Node.lists_error rfl rfl
  | grouping e ih | unary op e ih | assign name e ih => exact Node.lists_of_child rfl rfl ih
  | binary l op r ihl ihr =>
    have h := Node.lists_of_children (n := .expr (binary l op r)) rfl (.cons ihl (.cons ihr .nil))
    rw [errors_binary]
    simpa using h

namespace Stmt

/-- The errors of several statements are those of each, one behind the other. -/
theorem errorsOf_eq_flatten (body : List Stmt) : errorsOf body = (body.map errors).flatten := by
  induction body with
  | nil => simp
  | cons s rest ih => simp [ih]

mutual

/-- The errors that are collected from a statement list the errors in it. -/
theorem lists_errors : ∀ s : Stmt, (Node.stmt s).Lists s.errors
  | error e => by
    rw [errors_error]
    exact Node.lists_error rfl rfl
  | expression e => by
    rw [errors_expression]
    exact Node.lists_of_child rfl rfl e.lists_errors
  | print e => by
    rw [errors_print]
    exact Node.lists_of_child rfl rfl e.lists_errors
  | declare _ _ e => by
    rw [errors_declare]
    exact Node.lists_of_child rfl rfl e.lists_errors
  | block body => by
    rw [errors_block, errorsOf_eq_flatten]
    exact Node.lists_of_children rfl (forall₂_errors body)
  | ifThen c yes => by
    have h := Node.lists_of_children (n := .stmt (ifThen c yes)) rfl
      (.cons c.lists_errors (.cons (lists_errors yes) .nil))
    simpa using h
  | ifElse c yes no => by
    have h := Node.lists_of_children (n := .stmt (ifElse c yes no)) rfl
      (.cons c.lists_errors (.cons (lists_errors yes) (.cons (lists_errors no) .nil)))
    simpa using h
  | whileLoop c body => by
    have h := Node.lists_of_children (n := .stmt (whileLoop c body)) rfl
      (.cons c.lists_errors (.cons (lists_errors body) .nil))
    simpa using h

/-- The same of each of several statements. -/
theorem forall₂_errors : ∀ body : List Stmt,
    List.Forall₂ Node.Lists (body.map Node.stmt) (body.map errors)
  | [] => .nil
  | s :: rest => .cons (lists_errors s) (forall₂_errors rest)

end

end Stmt

/-- **The queries for errors agree on every tree.**  What is collected comes behind what was
there: the errors of all error nodes of the tree, each once, in the order of their places
from left to right.  A tree has errors if and only if there are any.  The errors of a program
are those of its statements one after another, and it is well-formed if and only if there
are none. -/
theorem errors_listed :
    (∀ e : Expr, ∃ errors, (Node.expr e).Lists errors ∧
      (∀ found, e.collectErrors found = found ++ errors) ∧
        (e.hasErrors = true ↔ errors ≠ [])) ∧
    (∀ s : Stmt, ∃ errors, (Node.stmt s).Lists errors ∧
      (∀ found, s.collectErrors found = found ++ errors) ∧
        (s.hasErrors = true ↔ errors ≠ [])) ∧
    ∀ p : Program, (Node.program p).Lists p.errors ∧
      p.errors = p.statements.flatMap (Stmt.collectErrors []) ∧
        (p.isWellFormed = true ↔ p.errors = []) := by
  refine ⟨fun e => ?_, fun s => ?_, fun p => ⟨?_, ?_, ?_⟩⟩
  · refine ⟨e.errors, e.lists_errors, fun found => e.collectErrors_eq found, ?_⟩
    rw [← Bool.not_eq_false, Ne, ← e.hasErrors_eq_false_iff]
  · refine ⟨s.errors, s.lists_errors, fun found => s.collectErrors_eq found, ?_⟩
    rw [← Bool.not_eq_false, Ne, ← s.hasErrors_eq_false_iff]
  · rw [p.errors_eq, Stmt.errorsOf_eq_flatten]
    exact Node.lists_of_children rfl (Stmt.forall₂_errors p.statements)
  · rw [p.errors_eq, Stmt.errorsOf_eq_flatten]
    rfl
  · rw [Program.isWellFormed, Bool.not_eq_true', Stmt.any_hasErrors_eq_false_iff, p.errors_eq]

end LoxFront
