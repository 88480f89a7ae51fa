/-
# How high the trees of written text are

Between one region and the next there are at most six rows of operators on a way
down the tree, one for each rank.  So the height of a tree is bounded by the regions
in one another and the longest row of operators together
(`Source.Stmt.height_tree_le`).
-/

import LoxFront.Proofs.Source.Stmt
import LoxFront.Proofs.Tree.Height

namespace LoxFront
namespace Source

variable {k : Nat}

/-- In an expression of a rank no more rows of operators stand in one another than there are
ranks from this one on, besides those in the regions. -/
theorem Expr.height_tree_le {r : Nat} {e : Expr} (hf : e.Fits r) (hk : e.tree.longestSpine ≤ k) :
    e.tree.height ≤ e.tree.spine + (6 - (r - 1)) * k + 1 + (7 * k + 1) * e.nesting := by
  induction e generalizing r with
  | atom => exact Nat.le_add_left _ _
  | grouping l e r' ih =>
    have he := ih (r := 0) hf hk
    have hspine := Nat.le_trans e.tree.spine_le_longestSpine hk
    rw [tree, LoxFront.Expr.height, nesting, Nat.mul_succ]
    omega
  | unary op e ih =>
    have he := ih (r := 7) hf hk
    have hspine := Nat.le_trans e.tree.spine_le_longestSpine hk
    rw [tree, LoxFront.Expr.height, nesting, Nat.mul_succ]
    omega
  | binary l op r' ihl ihr =>
    obtain ⟨hrank, hl, hr⟩ := hf
    rw [tree, LoxFront.Expr.longestSpine] at hk
    have hleft := ihl hl (by omega)
    have hright := ihr hr (by omega)
    have hspine := Nat.le_trans r'.tree.spine_le_longestSpine (show _ ≤ k by omega)
    -- a row at the right side is of a higher rank
    have hrow : 6 - (op.1.kind.rank - 1) = 6 - (op.1.kind.rank + 1 - 1) + 1 := by
      have := rank_le op.1.kind
      have := op.2
      omega
    rw [hrow, Nat.succ_mul] at hleft
    have hrows : (6 - (op.1.kind.rank - 1)) * k ≤ (6 - (r - 1)) * k :=
      Nat.mul_le_mul_right k (by omega)
    rw [hrow, Nat.succ_mul] at hrows
    have hnestl := Nat.mul_le_mul_left (7 * k + 1) (Nat.le_max_left l.nesting r'.nesting)
    have hnestr := Nat.mul_le_mul_left (7 * k + 1) (Nat.le_max_right l.nesting r'.nesting)
    rw [tree, LoxFront.Expr.height, LoxFront.Expr.spine, nesting]
    omega
  | assign name equals e ih =>
    have he := ih (r := 0) hf.2 hk
    have hspine := Nat.le_trans e.tree.spine_le_longestSpine hk
    rw [tree, LoxFront.Expr.height, nesting, Nat.mul_succ]
    omega

/-- No tree with so many regions in one another and no longer row of operators is higher. -/
def heightBound (spine regions : Nat) : Nat := (7 * spine + 3) * (regions + 1) + 4

/-- There is room for the nodes that a `for` loop puts around what stands in its region. -/
theorem heightBound_succ (k n : Nat) : heightBound k n + 3 ≤ heightBound k (n + 1) := by
  rw [heightBound, heightBound, Nat.mul_succ _ (n + 1)]
  omega

/-! ### Parts of statements -/

variable {n : Nat}

/-- Around an expression there is room for the nodes of a `for` loop too. -/
theorem Expr.height_add_four_le {e : Expr} (hf : e.Fits 0) (hk : e.tree.longestSpine ≤ k)
    (hn : e.nesting ≤ n) : e.tree.height + 4 ≤ heightBound k n := by
  have he := e.height_tree_le hf hk
  have hspine := Nat.le_trans e.tree.spine_le_longestSpine hk
  have hregions := Nat.mul_le_mul_left (7 * k + 1) hn
  have hroom : (7 * k + 1) * (n + 1) ≤ (7 * k + 3) * (n + 1) := Nat.mul_le_mul_right _ (by omega)
  rw [Nat.mul_succ] at hroom
  rw [heightBound]
  omega

/-- The bound leaves room for the nodes that a statement has at least. -/
theorem five_le_heightBound (k n : Nat) : 5 ≤ heightBound k n :=
  Nat.add_le_add_right (Nat.mul_pos (Nat.succ_pos _) (Nat.succ_pos _)) 4

/-- An expression of a clause leaves room for four nodes above it. -/
theorem clause_height_add_four_le {e : Option Expr} (hf : ClauseFits e)
    (hk : (e.map Expr.tree).elim 0 LoxFront.Expr.longestSpine ≤ k) (hn : clauseNesting e ≤ n) :
    (e.map Expr.tree).elim 1 LoxFront.Expr.height + 4 ≤ heightBound k n := by
  cases e with
  | none => exact five_le_heightBound k n
  | some e => exact Expr.height_add_four_le (hf e rfl) hk hn

/-- A declaration leaves room for three nodes above it. -/
theorem Declaration.height_add_three_le {d : Declaration} (hf : ClauseFits d.value?)
    (hk : d.tree.longestSpine ≤ k) (hn : clauseNesting d.value? ≤ n) :
    d.tree.height + 3 ≤ heightBound k n := by
  rw [tree, LoxFront.Stmt.longestSpine] at hk
  rw [tree, LoxFront.Stmt.height]
  cases hvalue : d.value? with
  | none => exact five_le_heightBound k n
  | some e =>
    rw [hvalue] at hf hk hn
    exact Expr.height_add_four_le (hf e rfl) hk hn

/-- So does an initial clause. -/
theorem Initial.height_add_three_le {i : Initial} (hf : i.Fits)
    (hk : i.tree?.elim 0 LoxFront.Stmt.longestSpine ≤ k) (hn : i.nesting ≤ n) :
    i.tree?.elim 0 LoxFront.Stmt.height + 3 ≤ heightBound k n := by
  cases i with
  | omitted semicolon => exact Nat.le_trans (show 0 + 3 ≤ 5 by decide) (five_le_heightBound k n)
  | declaration d => exact d.height_add_three_le hf hk hn
  | expression e semicolon =>
    rw [tree?, Option.elim_some, LoxFront.Stmt.longestSpine] at hk
    rw [tree?, Option.elim_some, LoxFront.Stmt.height]
    exact Expr.height_add_four_le hf hk hn

/-- What stands in a region has one region less. -/
theorem region_add_three_le {height regions : Nat}
    (h : ∀ m, regions ≤ m → height ≤ heightBound k m) (hn : regions + 1 ≤ n) :
    height + 3 ≤ heightBound k n := by
  obtain ⟨m, rfl⟩ := Nat.exists_eq_add_of_le' (show 1 ≤ n by omega)
  have hheight := h m (Nat.le_of_succ_le_succ hn)
  have hroom := heightBound_succ k m
  omega

/-! ### Statements -/

namespace Stmt

mutual

/-- **The height of a tree is bounded** by the regions in one another and the longest row of
operators. -/
theorem height_tree_le : ∀ {s : Stmt}, s.Fits → s.tree.longestSpine ≤ k → ∀ n, s.nesting ≤ n →
    s.tree.height ≤ heightBound k n
  | declaration d, hf, hk, n, hn => by
    rw [Fits] at hf
    rw [tree] at hk ⊢
    rw [nesting] at hn
    have := d.height_add_three_le hf hk hn
    omega
  | expression e _, hf, hk, n, hn | print _ e _, hf, hk, n, hn => by
    rw [Fits] at hf
    rw [tree, LoxFront.Stmt.longestSpine] at hk
    rw [nesting] at hn
    have := Expr.height_add_four_le hf hk hn
    rw [tree, LoxFront.Stmt.height]
    omega
  | block _ body _, hf, hk, n, hn => by
    rw [Fits] at hf
    rw [tree, LoxFront.Stmt.longestSpine] at hk
    rw [nesting] at hn
    have := region_add_three_le (heightOf_trees_le hf hk) hn
    rw [tree, LoxFront.Stmt.height]
    omega
  | ifThen _ _ e _ yes, hf, hk, n, hn => by
    rw [Fits] at hf
    rw [tree, LoxFront.Stmt.longestSpine, Nat.max_le] at hk
    rw [nesting, Nat.max_le] at hn
    have := Expr.height_add_four_le hf.1 hk.1 hn.1
    have := region_add_three_le (height_tree_le hf.2.2 hk.2) hn.2
    rw [tree, LoxFront.Stmt.height]
    omega
  | ifElse _ _ e _ yes _ no, hf, hk, n, hn => by
    rw [Fits] at hf
    rw [tree, LoxFront.Stmt.longestSpine, Nat.max_le, Nat.max_le] at hk
    rw [nesting, Nat.max_le, Nat.max_le] at hn
    have := Expr.height_add_four_le hf.1 hk.1 hn.1
    have := region_add_three_le (height_tree_le hf.2.1.2.1 hk.2.1) hn.2.1
    have := region_add_three_le (height_tree_le hf.2.2.2 hk.2.2) hn.2.2
    rw [tree, LoxFront.Stmt.height]
    omega
  | whileLoop _ _ e _ body, hf, hk, n, hn => by
    rw [Fits] at hf
    rw [tree, LoxFront.Stmt.longestSpine, Nat.max_le] at hk
    rw [nesting, Nat.max_le] at hn
    have := Expr.height_add_four_le hf.1 hk.1 hn.1
    have := region_add_three_le (height_tree_le hf.2.2 hk.2) hn.2
    rw [tree, LoxFront.Stmt.height]
    omega
  | forLoop keyword _ i e _ step _ body, hf, hk, n, hn => by
    rw [Fits] at hf
    rw [tree, LoxFront.Stmt.longestSpine_forLoop, Nat.max_le, Nat.max_le, Nat.max_le] at hk
    rw [nesting, Nat.max_le, Nat.max_le, Nat.max_le] at hn
    have := i.height_add_three_le hf.1 hk.1 hn.1
    have := clause_height_add_four_le hf.2.1 hk.2.1 hn.2.1
    have := region_add_three_le (height_tree_le hf.2.2.2.2 hk.2.2.1) hn.2.2.2
    have := clause_height_add_four_le hf.2.2.1 hk.2.2.2 hn.2.2.1
    have := LoxFront.Stmt.height_forLoop_le keyword.1.line i.tree? (e.map Expr.tree)
      (step.map Expr.tree) body.tree
    rw [tree]
    omega

/-- The bound for several statements is the bound for each of them. -/
theorem heightOf_trees_le : ∀ {body : List Stmt}, AllFit body →
    LoxFront.Stmt.longestSpineOf (trees body) ≤ k → ∀ n, nestingOf body ≤ n →
      LoxFront.Stmt.heightOf (trees body) ≤ heightBound k n
  | [], _, _, _, _ => by
    rw [trees, LoxFront.Stmt.heightOf]
    exact Nat.zero_le _
  | s :: rest, hf, hk, n, hn => by
    rw [AllFit] at hf
    rw [trees, LoxFront.Stmt.longestSpineOf, Nat.max_le] at hk
    rw [nestingOf, Nat.max_le] at hn
    rw [trees, LoxFront.Stmt.heightOf, Nat.max_le]
    exact ⟨height_tree_le hf.1 hk.1 n hn.1, heightOf_trees_le hf.2 hk.2 n hn.2⟩

end

end Stmt

end Source
end LoxFront
