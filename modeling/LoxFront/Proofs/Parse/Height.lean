/-
# How high the tree of a program is

The limit on regions in one another bounds the height of the tree of a program only
together with the length of its rows of operators (`height_bounds`).  These are read
by a loop and take no region, so a program can be as high as it is long
(`height_unbounded`).
-/

import LoxFront.Proofs.Parse.Program
import LoxFront.Proofs.Source.Height

namespace LoxFront

/-- No statement of a program is higher than its longest spine and the limit of regions allow. -/
theorem Source.IsProgram.height_le {body : List Source.Stmt} (h : Source.IsProgram body)
    {s : LoxFront.Stmt} (hs : s ∈ Source.Stmt.trees body) :
    s.height ≤ Source.heightBound s.longestSpine maxNesting := by
  obtain ⟨-, hf, hn⟩ := h
  induction body with
  | nil => simp [Source.Stmt.trees] at hs
  | cons t rest ih =>
    rw [Source.Stmt.AllFit] at hf
    rw [Source.Stmt.nestingOf, Nat.max_le] at hn
    rw [Source.Stmt.trees] at hs
    rcases List.mem_cons.1 hs with rfl | hs
    · exact Source.Stmt.height_tree_le hf.1 (Nat.le_refl _) _ hn.1
    · exact ih hs hf.2 hn.2

/-- **Only a long row of operators makes a tree high.**  No statement of a program is lower
than the longest row of operators in it, and with a row of `k` operators it has `7 * k + 3`
nodes at most in one another for each of the regions, and four more. -/
theorem height_bounds {tokens : List Token} {p : Program} (h : parse tokens = .ok p) :
    ∀ s ∈ p.statements, s.longestSpine < s.height ∧
      s.height ≤ (7 * s.longestSpine + 3) * (maxNesting + 1) + 4 := by
  obtain ⟨body, marker, hbody, -, hstatements⟩ := parse_eq_ok_iff_program.1 h
  intro s hs
  rw [hstatements] at hs
  exact ⟨s.longestSpine_lt_height, hbody.height_le hs⟩

/-- The bounds at `a - -a;`: an operator, a prefix, a name and the statement. -/
theorem height_bounds_difference :
    let a : Token := ⟨.identifier, "a", 1, .none⟩
    let minus : Token := ⟨.minus, "-", 1, .none⟩
    let tokens : List Token := [a, minus, minus, a, ⟨.semicolon, ";", 1, .none⟩, .atEnd 1]
    let s : Stmt := .expression (.binary (.literal a) minus (.unary minus (.literal a)))
    parse tokens = .ok ⟨[s]⟩ ∧ s.height = 4 ∧ s.longestSpine < s.height ∧
      s.height ≤ (7 * s.longestSpine + 3) * (maxNesting + 1) + 4 := by
  intro a minus tokens s
  let name : Source.Expr := .atom ⟨a, by decide⟩
  let difference : Source.Expr := .binary name ⟨minus, by decide⟩ (.unary ⟨minus, .inr rfl⟩ name)
  have hparse : parse tokens = .ok ⟨[s]⟩ := parse_eq_ok_iff_program.2
    ⟨[.expression difference ⟨⟨.semicolon, ";", 1, .none⟩, rfl⟩], ⟨.atEnd 1, rfl⟩, by decide, rfl,
      rfl⟩
  exact ⟨hparse, rfl, height_bounds hparse s List.mem_cons_self⟩

/-! ### Rows of operators -/

/-- A row of so many operators between names. -/
def Source.Expr.row : Nat → Source.Expr
  | 0 => .atom ⟨⟨.identifier, "a", 1, .none⟩, by decide⟩
  | n + 1 => .binary (row n) ⟨⟨.plus, "+", 1, .none⟩, by decide⟩
      (.atom ⟨⟨.identifier, "a", 1, .none⟩, by decide⟩)

namespace Source
namespace Expr

/-- A row of sums is a sum. -/
theorem fits_row (n : Nat) : (row n).Fits 5 := by
  induction n with
  | zero => trivial
  | succ n ih => exact ⟨Nat.le_refl 5, ih, trivial⟩

/-- A row of sums opens no region. -/
theorem nesting_row (n : Nat) : (row n).nesting = 0 := by
  induction n with
  | zero => rfl
  | succ n ih => rw [row, nesting, ih]; rfl

/-- The spine of a row is as long as the row has operators. -/
theorem spine_row (n : Nat) : (row n).tree.spine = n := by
  induction n with
  | zero => rfl
  | succ n ih => rw [row, tree, LoxFront.Expr.spine, ih]

end Expr

/-- A row of operators as a statement. -/
def Stmt.row (n : Nat) : Stmt := .expression (Expr.row n) ⟨⟨.semicolon, ";", 1, .none⟩, rfl⟩

/-- A row of sums and a semicolon are a program. -/
theorem isProgram_row (n : Nat) : IsProgram [Stmt.row n] where
  ne_nil := List.cons_ne_nil _ _
  fits := by
    rw [Stmt.AllFit, Stmt.AllFit, Stmt.row, Stmt.Fits]
    exact ⟨(Expr.fits_row n).mono (Nat.zero_le 5), trivial⟩
  nesting := by
    rw [Stmt.nestingOf, Stmt.nestingOf, Stmt.row, Stmt.nesting, Expr.nesting_row]
    exact Nat.zero_le _

/-- So the tree of a row is higher than the row has operators. -/
theorem lt_height_row (n : Nat) : n < (Stmt.row n).tree.height := by
  have h := (Expr.row n).tree.spine_lt_height
  rw [Expr.spine_row] at h
  rw [Stmt.row, Stmt.tree, LoxFront.Stmt.height]
  omega

end Source

/-- No height is the greatest of all programs. -/
theorem height_unbounded :
    ¬∃ bound, ∀ tokens p, parse tokens = .ok p → ∀ s ∈ p.statements, s.height ≤ bound := by
  rintro ⟨bound, h⟩
  have hparse := parse_eq_ok_iff_program.2
    ⟨[Source.Stmt.row bound], ⟨.atEnd 1, rfl⟩, Source.isProgram_row bound, rfl, rfl⟩
  have hle := h _ ⟨_⟩ hparse (Source.Stmt.row bound).tree (by simp [Source.Stmt.trees])
  exact absurd (Source.lt_height_row bound) (Nat.not_lt.2 hle)

end LoxFront
