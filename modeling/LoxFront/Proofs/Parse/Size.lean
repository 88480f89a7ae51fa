/-
# How large the tree of a program is

The tree of a program has no more nodes than the program has tokens, but for one node
for each `for` loop that begins with an expression, has no condition and has a step
(`size_bounds`).  With such a loop it can have more (`size_exceeds`).
-/

import LoxFront.Proofs.Parse.Program
import LoxFront.Proofs.Source.Size

namespace LoxFront

variable {tokens : List Token} {p : Program}

/-- **A tree is hardly larger than its text.**  The nodes of the tree of a program and the
tokens of the program without a node are together as many as its tokens and the nodes that
`for` loops add.  So there are no more nodes than tokens but for one in each loop that adds
more than it has marks, and each such loop takes seven tokens. -/
theorem size_bounds (h : parse tokens = .ok p) :
    ∃ (body : List Source.Stmt) (marker : Source.Mark .eof), Source.IsProgram body ∧
      tokens = Source.Stmt.tokensOf body ++ [marker.1] ∧
      p.statements = Source.Stmt.trees body ∧
      p.size + Source.Stmt.marksOf body = tokens.length - 1 + Source.Stmt.addedOf body ∧
      p.size ≤ tokens.length - 1 + Source.Stmt.surplusesOf body ∧
      7 * Source.Stmt.surplusesOf body ≤ tokens.length - 1 := by
  obtain ⟨body, marker, hbody, rfl, hstatements⟩ := parse_eq_ok_iff_program.1 h
  have hconsumed : (Source.Stmt.tokensOf body ++ [marker.1]).length - 1 =
      (Source.Stmt.tokensOf body).length := by
    rw [List.length_append, List.length_singleton, Nat.add_sub_cancel]
  have hsize := Source.Stmt.sizeAll_trees_add_marks body
  have hadded := Source.Stmt.addedOf_le body
  rw [hconsumed, Program.size, hstatements]
  exact ⟨body, marker, hbody, rfl, rfl, hsize, by omega, Source.Stmt.seven_mul_surplusesOf_le body⟩

/-- The tokens of `for (x; ; x) x;` with an end marker. -/
def endlessLoop : List Token :=
  let x : Token := ⟨.identifier, "x", 1, .none⟩
  let semicolon : Token := ⟨.semicolon, ";", 1, .none⟩
  [⟨.forWord, "for", 1, .none⟩, ⟨.leftParen, "(", 1, .none⟩, x, semicolon, semicolon, x,
    ⟨.rightParen, ")", 1, .none⟩, x, semicolon, .atEnd 1]

/-- The tree of `for (x; ; x) x;`. -/
def endlessTree : Program :=
  let x : Stmt := .expression (.literal ⟨.identifier, "x", 1, .none⟩)
  ⟨[.block [x, .whileLoop (.literal ⟨.trueWord, "true", 1, .none⟩) (.block [x, x])]]⟩

/-- The bounds at the loop that goes beyond the number of its tokens. -/
theorem size_bounds_endlessLoop :
    parse endlessLoop = .ok endlessTree ∧
      ∃ (body : List Source.Stmt) (marker : Source.Mark .eof), Source.IsProgram body ∧
        endlessLoop = Source.Stmt.tokensOf body ++ [marker.1] ∧
        endlessTree.statements = Source.Stmt.trees body ∧
        endlessTree.size + Source.Stmt.marksOf body =
          endlessLoop.length - 1 + Source.Stmt.addedOf body ∧
        endlessTree.size ≤ endlessLoop.length - 1 + Source.Stmt.surplusesOf body ∧
        7 * Source.Stmt.surplusesOf body ≤ endlessLoop.length - 1 :=
  ⟨rfl, size_bounds rfl⟩

/-- Nine tokens give a tree of ten nodes: a tree can be larger than its text. -/
theorem size_exceeds :
    parse endlessLoop = .ok endlessTree ∧ endlessLoop.length - 1 = 9 ∧ endlessTree.size = 10 ∧
      ¬∀ tokens p, parse tokens = .ok p → p.size ≤ tokens.length - 1 := by
  have hparse : parse endlessLoop = .ok endlessTree := rfl
  exact ⟨hparse, rfl, rfl, fun h => absurd (h _ _ hparse) (by decide)⟩

end LoxFront
