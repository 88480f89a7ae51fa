/-
# The regions that tokens open

A region is opened by one token: the parenthesis of a grouping, a prefix operator,
the equals sign of an assignment, the brace of a block, the parenthesis that ends
the head of an `if`, `while` or `for`, and `else`.  What is written has for each of
its tokens the level of the region that the token opens, if it opens one
(`Source.Stmt.levels`).  There are regions of all levels up to the number of those
that stand in one another, and of no other (`Source.Stmt.mem_levels_iff`).
-/

import LoxFront.Proofs.Cursor.Passes
import LoxFront.Proofs.Source.Stmt
import Mathlib.Order.MinMax

namespace LoxFront

/-! ### The first region too many -/

/-- The place behind the first token that opens a region too many.  The first of
the tokens stands at `p`. -/
def tooDeepAt (p : Nat) (levels : List (Option Nat)) : Option Nat :=
  (levels.findIdx? (· == some (maxNesting + 1))).map (p + · + 1)

variable {p : Nat} {l l' : List (Option Nat)}

/-- Without tokens nothing is too deep. -/
@[simp] theorem tooDeepAt_nil : tooDeepAt p [] = none := rfl

/-- A token that opens no region is passed over. -/
theorem tooDeepAt_none_cons : tooDeepAt p (none :: l) = tooDeepAt (p + 1) l := by
  rw [tooDeepAt, tooDeepAt, List.findIdx?_cons, if_neg (by simp), Option.map_map]
  refine congrArg (Option.map · _) (funext fun i => ?_)
  show p + (i + 1) + 1 = p + 1 + i + 1
  omega

/-- A region that opens on top of the limit is refused at the token behind its opener. -/
theorem tooDeepAt_some_cons {d : Nat} :
    tooDeepAt p (some (d + 1) :: l) =
      if d = maxNesting then some (p + 1) else tooDeepAt (p + 1) l := by
  split
  · next h => simp [tooDeepAt, List.findIdx?_cons, h]
  · next h =>
    rw [← tooDeepAt_none_cons, tooDeepAt, tooDeepAt, List.findIdx?_cons, List.findIdx?_cons,
      if_neg (by simpa using h), if_neg (by simp)]

/-- The first place that is too deep lies in the first part or, if it has none, in the second. -/
theorem tooDeepAt_append :
    tooDeepAt p (l ++ l') = (tooDeepAt p l).or (tooDeepAt (p + l.length) l') := by
  rw [tooDeepAt, tooDeepAt, tooDeepAt, List.findIdx?_append, Option.map_or, Option.map_map]
  refine congrArg (Option.or _ <| Option.map · _) (funext fun i => ?_)
  show p + (i + l.length) + 1 = p + l.length + i + 1
  omega

/-- Nothing is too deep exactly if no region opens on top of the limit. -/
theorem tooDeepAt_eq_none_iff : tooDeepAt p l = none ↔ some (maxNesting + 1) ∉ l := by
  rw [tooDeepAt, Option.map_eq_none_iff, List.findIdx?_eq_none_iff]
  refine ⟨fun h hmem => by simpa using h _ hmem, fun h x hx => ?_⟩
  simp only [beq_eq_false_iff_ne]
  rintro rfl
  exact h hx

/-! ### Levels -/

namespace Source

namespace Expr

/-- The levels of the regions that the tokens of an expression open, where `d`
regions are open already. -/
def levels : Expr → Nat → List (Option Nat)
  | atom _, _ => [none]
  | grouping _ e _, d => some (d + 1) :: (e.levels (d + 1) ++ [none])
  | unary _ e, d => some (d + 1) :: e.levels (d + 1)
  | binary l _ r, d => l.levels d ++ none :: r.levels d
  | assign _ _ e, d => none :: some (d + 1) :: e.levels (d + 1)

/-- There is one level for each token. -/
theorem length_levels (e : Expr) (d : Nat) : (e.levels d).length = e.tokens.length := by
  induction e generalizing d with
  | atom => rfl
  | grouping _ _ _ ih | unary _ _ ih | assign _ _ _ ih => simp [levels, tokens, ih]
  | binary _ _ _ ihl ihr => simp [levels, tokens, ihl, ihr]

end Expr

/-- The levels of the regions opened in an expression that may be left out. -/
def clauseLevels (e : Option Expr) (d : Nat) : List (Option Nat) := e.elim [] (Expr.levels · d)

/-- There is one level for each token of a clause. -/
theorem length_clauseLevels (e : Option Expr) (d : Nat) :
    (clauseLevels e d).length = (clauseTokens e).length := by
  cases e with
  | none => rfl
  | some e => exact e.length_levels d

/-- The levels of the regions that the tokens of a declaration open. -/
def Declaration.levels (s : Declaration) (d : Nat) : List (Option Nat) :=
  none :: none :: (s.initial.elim [] (fun i => none :: clauseLevels i.2 d) ++ [none])

/-- There is one level for each token of a declaration. -/
theorem Declaration.length_levels (s : Declaration) (d : Nat) :
    (s.levels d).length = s.tokens.length := by
  rw [levels, tokens]
  rcases s.initial with _ | ⟨equals, v⟩
  · rfl
  · simp [length_clauseLevels]

/-- The levels of the regions that the tokens of a first clause open. -/
def Initial.levels : Initial → Nat → List (Option Nat)
  | omitted _, _ => [none]
  | declaration s, d => s.levels d
  | expression e _, d => e.levels d ++ [none]

/-- There is one level for each token of an initial clause. -/
theorem Initial.length_levels (s : Initial) (d : Nat) :
    (s.levels d).length = s.tokens.length := by
  cases s with
  | omitted => rfl
  | declaration s => exact s.length_levels d
  | expression e => simp [levels, tokens, e.length_levels]

/-- The levels of the regions that the tokens of the clauses of a `for` open, with
the parenthesis in front of them and without the one behind. -/
def clausesLevels (i : Initial) (e step : Option Expr) (d : Nat) : List (Option Nat) :=
  none :: (i.levels d ++ (clauseLevels e d ++ none :: clauseLevels step d))

namespace Stmt

mutual

/-- The levels of the regions that the tokens of a statement open, where `d` regions
are open already. -/
def levels : Stmt → Nat → List (Option Nat)
  | declaration s, d => s.levels d
  | expression e _, d => e.levels d ++ [none]
  | print _ e _, d => none :: (e.levels d ++ [none])
  | block _ body _, d => some (d + 1) :: (levelsOf body (d + 1) ++ [none])
  | ifThen _ _ e _ yes, d => none :: none :: (e.levels d ++ some (d + 1) :: yes.levels (d + 1))
  | ifElse _ _ e _ yes _ no, d =>
    none :: none :: (e.levels d ++ some (d + 1) :: (yes.levels (d + 1) ++
      some (d + 1) :: no.levels (d + 1)))
  | whileLoop _ _ e _ body, d =>
    none :: none :: (e.levels d ++ some (d + 1) :: body.levels (d + 1))
  | forLoop _ _ i e _ step _ body, d =>
    none :: (clausesLevels i e step d ++ some (d + 1) :: body.levels (d + 1))

/-- The levels of the regions that the tokens of statements open. -/
def levelsOf : List Stmt → Nat → List (Option Nat)
  | [], _ => []
  | s :: rest, d => s.levels d ++ levelsOf rest d

end

mutual

/-- There is one level for each token of a statement. -/
theorem length_levels : ∀ (s : Stmt) (d : Nat), (s.levels d).length = s.tokens.length
  | declaration s, d => by rw [levels, tokens, s.length_levels]
  | expression e _, d | print _ e _, d => by simp [levels, tokens, e.length_levels]
  | block _ body _, d => by simp [levels, tokens, length_levelsOf body]
  | ifThen _ _ e _ yes, d => by simp [levels, tokens, e.length_levels, length_levels yes]
  | ifElse _ _ e _ yes _ no, d => by
    simp [levels, tokens, e.length_levels, length_levels yes, length_levels no]
  | whileLoop _ _ e _ body, d => by simp [levels, tokens, e.length_levels, length_levels body]
  | forLoop _ _ i e _ step _ body, d => by
    simp [levels, clausesLevels, tokens, i.length_levels, length_clauseLevels, length_levels body]

/-- There is one level for each token of several statements. -/
theorem length_levelsOf : ∀ (body : List Stmt) (d : Nat),
    (levelsOf body d).length = (tokensOf body).length
  | [], d => by rw [levelsOf, tokensOf]; rfl
  | s :: rest, d => by simp [levelsOf, tokensOf, length_levels s, length_levelsOf rest]

end

end Stmt

/-! ### The levels that there are -/

section

variable {d k n : Nat}

/-- A region has its own level and those of the regions in it. -/
theorem mem_region_iff (h : ∀ j, some (d + 1 + j + 1) ∈ l ↔ j < n) :
    some (d + k + 1) ∈ some (d + 1) :: l ↔ k < n + 1 := by
  cases k with
  | zero => exact iff_of_true (.head _) (Nat.succ_pos n)
  | succ j =>
    rw [List.mem_cons, or_iff_right (by simp), Nat.add_lt_add_iff_right, ← h j]
    rw [show d + (j + 1) + 1 = d + 1 + j + 1 by omega]

/-- The regions of an expression open on the levels up to its nesting, each of them. -/
theorem Expr.mem_levels_iff (e : Expr) : some (d + k + 1) ∈ e.levels d ↔ k < e.nesting := by
  induction e generalizing d k with
  | atom => simp [levels, nesting]
  | grouping _ _ _ ih => exact mem_region_iff fun j => by simp [ih]
  | unary _ _ ih => exact mem_region_iff fun j => ih
  | binary _ _ _ ihl ihr => simp [levels, nesting, ihl, ihr]
  | assign _ _ _ ih =>
    rw [levels, List.mem_cons, or_iff_right (by simp)]
    exact mem_region_iff fun j => ih

/-- The same of a clause. -/
theorem mem_clauseLevels_iff (e : Option Expr) :
    some (d + k + 1) ∈ clauseLevels e d ↔ k < clauseNesting e := by
  cases e with
  | none => simp [clauseLevels, clauseNesting]
  | some e => exact e.mem_levels_iff

/-- The same of a declaration. -/
theorem Declaration.mem_levels_iff (s : Declaration) :
    some (d + k + 1) ∈ s.levels d ↔ k < clauseNesting s.value? := by
  rw [levels, value?]
  rcases s.initial with _ | ⟨equals, v⟩
  · simp [clauseNesting]
  · simp [mem_clauseLevels_iff]

/-- The same of an initial clause. -/
theorem Initial.mem_levels_iff (s : Initial) : some (d + k + 1) ∈ s.levels d ↔ k < s.nesting := by
  cases s with
  | omitted => simp [levels, nesting]
  | declaration s => exact s.mem_levels_iff
  | expression e => simp [levels, nesting, e.mem_levels_iff]

namespace Stmt

mutual

/-- Regions are opened of all levels up to the number that stand in one another. -/
theorem mem_levels_iff : ∀ (s : Stmt) {d k : Nat}, some (d + k + 1) ∈ s.levels d ↔ k < s.nesting
  | declaration s, d, k => by rw [levels, nesting]; exact s.mem_levels_iff
  | expression e _, d, k | print _ e _, d, k => by simp [levels, nesting, e.mem_levels_iff]
  | block _ body _, d, k => by
    rw [levels, nesting]
    exact mem_region_iff fun j => by simp [mem_levelsOf_iff body]
  | ifThen _ _ e _ yes, d, k | whileLoop _ _ e _ yes, d, k => by
    have hyes : some (d + k + 1) ∈ some (d + 1) :: yes.levels (d + 1) ↔ k < yes.nesting + 1 :=
      mem_region_iff fun j => mem_levels_iff yes
    rw [levels, nesting, lt_max_iff, ← hyes, ← e.mem_levels_iff (d := d)]
    simp
  | ifElse _ _ e _ yes _ no, d, k => by
    have hyes : some (d + k + 1) ∈ some (d + 1) :: yes.levels (d + 1) ↔ k < yes.nesting + 1 :=
      mem_region_iff fun j => mem_levels_iff yes
    have hno : some (d + k + 1) ∈ some (d + 1) :: no.levels (d + 1) ↔ k < no.nesting + 1 :=
      mem_region_iff fun j => mem_levels_iff no
    rw [levels, nesting, lt_max_iff, lt_max_iff, ← hyes, ← hno, ← e.mem_levels_iff (d := d)]
    simp [or_assoc]
  | forLoop _ _ i e _ step _ body, d, k => by
    have hbody : some (d + k + 1) ∈ some (d + 1) :: body.levels (d + 1) ↔ k < body.nesting + 1 :=
      mem_region_iff fun j => mem_levels_iff body
    rw [levels, nesting, lt_max_iff, lt_max_iff, lt_max_iff, ← hbody, ← i.mem_levels_iff (d := d),
      ← mem_clauseLevels_iff (d := d) e, ← mem_clauseLevels_iff (d := d) step]
    simp [clausesLevels]

/-- The same of several statements. -/
theorem mem_levelsOf_iff : ∀ (body : List Stmt) {d k : Nat},
    some (d + k + 1) ∈ levelsOf body d ↔ k < nestingOf body
  | [], d, k => by simp [levelsOf, nestingOf]
  | s :: rest, d, k => by
    simp [levelsOf, nestingOf, mem_levels_iff s, mem_levelsOf_iff rest]

end

end Stmt
end
end Source

/-! ### Regions behind a cursor -/

namespace Cursor

/-- The place behind the first token from the cursor on that opens a region too
many. -/
def limit (c : Cursor) (levels : Nat → List (Option Nat)) : Option Nat :=
  tooDeepAt c.position (levels c.depth)

/-- The place where a region too many is opened, from the beginning of a region on. -/
def regionLimit (c : Cursor) (levels : Nat → List (Option Nat)) : Option Nat :=
  if c.depth = maxNesting then some c.position else c.deeper.limit levels

variable {c m e : Cursor} {t : Token} {ts : List Token} {l l' : Nat → List (Option Nat)}

/-- A token that opens no region leaves the limit to what follows. -/
theorem Passes.limit_cons (h : c.Passes [t] m) : c.limit (fun d => none :: l d) = m.limit l := by
  rw [limit, tooDeepAt_none_cons, limit, h.position, h.depth]
  rfl

/-- Of two parts one behind the other the first that goes beyond the limit counts. -/
theorem Passes.limit_append (h : c.Passes ts m) (hl : ∀ d, (l d).length = ts.length) :
    c.limit (fun d => l d ++ l' d) = (c.limit l).or (m.limit l') := by
  rw [limit, tooDeepAt_append, hl, limit, limit, h.position, h.depth]

/-- A last token that opens no region adds nothing. -/
theorem limit_concat : c.limit (fun d => l d ++ [none]) = c.limit l := by
  rw [limit, tooDeepAt_append, tooDeepAt_none_cons, tooDeepAt_nil, Option.or_none, limit]

/-- A token that opens a region leaves the limit to what stands in the region. -/
theorem Passes.limit_region (h : c.Passes [t] m) :
    c.limit (fun d => some (d + 1) :: l (d + 1)) = m.regionLimit l := by
  have hp : m.deeper.position = c.position + 1 := h.position
  have hd : m.deeper.depth = c.depth + 1 := congrArg (· + 1) h.depth
  rw [limit, tooDeepAt_some_cons, regionLimit, limit, hp, hd, h.depth, h.position]
  rfl

/-- What stands before the token that opens a region is gone through first. -/
theorem Passes.limit_closed {place : Option Nat} (h : c.Passes (ts ++ [t]) m)
    (hl : ∀ d, (l d).length = ts.length)
    (hplace : ∀ {i : Cursor}, i.Passes [t] m → i.limit l' = place) :
    c.limit (fun d => l d ++ l' d) = (c.limit l).or place := by
  obtain ⟨i, hts, ht⟩ := passes_append_iff.1 h
  rw [hts.limit_append hl, hplace ht]

/-- Where a region ends there may be more. -/
theorem Passes.limit_region_append (h : c.Passes [t] m) (hts : m.Passes ts e)
    (hl : ∀ d, (l d).length = ts.length) :
    c.limit (fun d => some (d + 1) :: (l (d + 1) ++ l' d)) = (m.regionLimit l).or (e.limit l') := by
  have hlimit : (m.regionLimit l).or (e.limit l') =
      (c.limit fun d => some (d + 1) :: l (d + 1)).or (e.limit l') := by rw [h.limit_region]
  have he : e.position = c.position + 1 + ts.length := by
    rw [hts.position, h.position]
    rfl
  rw [hlimit, limit, limit, limit, hts.depth, h.depth, he, tooDeepAt_some_cons,
    tooDeepAt_some_cons, tooDeepAt_append, hl]
  split <;> rfl

/-- In no region the limit is felt if more regions than can be opened stand in one
another. -/
theorem limit_levelsOf_eq_none_iff (hc : c.depth = 0) {body : List Source.Stmt} :
    c.limit (Source.Stmt.levelsOf body) = none ↔ Source.Stmt.nestingOf body ≤ maxNesting := by
  have hmem := Source.Stmt.mem_levelsOf_iff body (d := 0) (k := maxNesting)
  rw [limit, hc, tooDeepAt_eq_none_iff, ← Nat.not_lt, ← hmem, Nat.zero_add]

end Cursor
end LoxFront
