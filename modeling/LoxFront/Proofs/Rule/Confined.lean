/-
# Errors stand in blocks

In an expression that a rule reads there is no error at any place, and nothing is left
out.  In a statement that is read, errors stand in the place of statements of blocks and
nowhere else (`Stmt.ErrorsInBlocks`): an error in a part of any other statement is the
error of the whole (`Rule.confines`).  A `for` statement is written with blocks of its own,
but neither its initial statement nor its body is an error.
-/

import LoxFront.Proofs.Rule.Advances
import LoxFront.Proofs.Rule.Gives
import LoxFront.Proofs.Tree.Node

namespace LoxFront

/-- No error stands in an expression of the statement, and below it errors stand in the place
of statements of blocks only. -/
def Stmt.ErrorsInBlocks (s : Stmt) : Prop :=
  ∀ way m, (Node.stmt s).at? way = some m →
    (∀ e, m ≠ .expr (.error e)) ∧
      ∀ e, .stmt (.error e) ∈ m.children → ∃ body, m = .stmt (.block body)

namespace Node

/-- The node is a whole expression. -/
def Whole (n : Node) : Prop := ∃ e, n = expr e ∧ e.Whole

/-- The node can stand in a confined statement. -/
def Confined : Node → Prop
  | expr e => e = .empty ∨ e.Whole
  | stmt s => s.isError = true ∨ s.Confined
  | program _ => False

/-- A whole expression can stand in a confined statement. -/
theorem Whole.confined {n : Node} (h : n.Whole) : n.Confined := by
  obtain ⟨e, rfl, he⟩ := h
  exact .inr he

/-- The parts of a whole expression are whole. -/
theorem Whole.child {n : Node} (h : n.Whole) : ∀ m ∈ n.children, m.Whole := by
  obtain ⟨e, rfl, he⟩ := h
  cases e with
  | literal => exact List.forall_mem_nil _
  | grouping e | unary _ e | assign _ e => exact List.forall_mem_singleton.2 ⟨e, rfl, he⟩
  | binary l _ r =>
    exact List.forall_mem_cons.2 ⟨⟨l, rfl, he.1⟩, List.forall_mem_singleton.2 ⟨r, rfl, he.2⟩⟩
  | empty | error => exact he.elim

/-- Nothing is left out in a whole expression, and it is no error. -/
theorem Whole.sound {n : Node} (h : n.Whole) : n.error? = none ∧ n ≠ .expr .empty := by
  obtain ⟨e, rfl, he⟩ := h
  cases e with
  | empty | error => exact he.elim
  | _ => exact ⟨rfl, nofun⟩

/-- The parts of a confined statement are confined, or errors in a block. -/
theorem confined_of_mem_children {s : Stmt} (h : s.Confined) :
    ∀ m ∈ (stmt s).children, m.Confined := by
  cases s with
  | expression e | print e =>
    rw [Stmt.Confined] at h
    exact List.forall_mem_singleton.2 (.inr h)
  | declare _ _ e =>
    rw [Stmt.Confined] at h
    exact List.forall_mem_singleton.2 h
  | block body =>
    rw [Stmt.Confined, Stmt.allConfined_iff] at h
    exact List.forall_mem_map.2 h
  | ifThen c yes =>
    rw [Stmt.Confined] at h
    exact List.forall_mem_cons.2 ⟨.inr h.1, List.forall_mem_singleton.2 (.inr h.2)⟩
  | ifElse c yes no =>
    rw [Stmt.Confined] at h
    exact List.forall_mem_cons.2 ⟨.inr h.1, List.forall_mem_cons.2
      ⟨.inr h.2.1, List.forall_mem_singleton.2 (.inr h.2.2)⟩⟩
  | whileLoop c body =>
    rw [Stmt.Confined] at h
    exact List.forall_mem_cons.2 ⟨.inr h.1, List.forall_mem_singleton.2 (.inr h.2)⟩
  | error => exact List.forall_mem_nil _

/-- A statement in place of an error has no parts. -/
theorem children_of_isError {s : Stmt} (h : s.isError = true) : (stmt s).children = [] := by
  cases s with
  | error => rfl
  | _ => exact absurd h Bool.false_ne_true

/-- The parts of a node that can stand in a confined statement can as well. -/
theorem Confined.child {n : Node} (h : n.Confined) : ∀ m ∈ n.children, m.Confined := by
  cases n with
  | expr e =>
    rcases h with rfl | he
    · exact List.forall_mem_nil _
    · exact fun m hm => (Whole.child ⟨e, rfl, he⟩ m hm).confined
  | stmt s =>
    rcases h with herror | hs
    · rw [children_of_isError herror]
      exact List.forall_mem_nil _
    · exact confined_of_mem_children hs
  | program p => exact h.elim

/-- In a confined statement only blocks have errors right below them. -/
theorem eq_block_of_error_mem {s : Stmt} (h : s.Confined) {e : ParseError}
    (he : stmt (.error e) ∈ (stmt s).children) : ∃ body, s = .block body := by
  have hno : ¬(Stmt.error e).Confined := by simp [Stmt.Confined]
  cases s with
  | block body => exact ⟨body, rfl⟩
  | ifThen c yes | whileLoop c yes =>
    obtain rfl : .error e = yes := by simpa [children] using he
    rw [Stmt.Confined] at h
    exact absurd h.2 hno
  | ifElse c yes no =>
    rw [Stmt.Confined] at h
    obtain rfl | rfl : .error e = yes ∨ .error e = no := by simpa [children] using he
    · exact absurd h.2.1 hno
    · exact absurd h.2.2 hno
  | expression | print | declare | error => simp [children] at he

/-- An error among the parts of a confined node shows that it is a block. -/
theorem Confined.block_of_error {n : Node} (h : n.Confined) {e : ParseError}
    (he : stmt (.error e) ∈ n.children) : ∃ body, n = stmt (.block body) := by
  cases n with
  | expr value => cases value <;> simp [children] at he
  | stmt s =>
    rcases h with herror | hs
    · rw [children_of_isError herror] at he
      exact absurd he List.not_mem_nil
    · obtain ⟨body, rfl⟩ := eq_block_of_error_mem hs he
      exact ⟨body, rfl⟩
  | program p => exact h.elim

end Node

/-- The errors in a confined statement stand in blocks. -/
theorem Stmt.errorsInBlocks_of_confined {s : Stmt} (h : s.isError = true ∨ s.Confined) :
    s.ErrorsInBlocks := by
  intro way m hm
  have hconfined : m.Confined := Node.holds_at (fun _ => Node.Confined.child) (n := .stmt s) h hm
  refine ⟨?_, fun e he => hconfined.block_of_error he⟩
  rintro e rfl
  rcases hconfined with heq | he
  · exact nomatch heq
  · exact he

namespace Rule

variable {n : Nat} {c : Cursor}

/-- Every rule for expressions reads whole ones. -/
theorem ForExpr.gives {r : Rule Expr} (hr : ForExpr n r) : r.Gives Expr.Whole := by
  induction hr with
  | primary n => exact primary_gives (region_gives_whole n).1
  | unary n => exact unary_gives (region_gives_whole n).1 (region_gives_whole n).2
  | chain _ _ ih => exact ih.chain
  | expression n => exact expression_gives n
  | nested _ ih => exact ih.nested

/-- Every rule for statements reads confined ones. -/
theorem ForStmt.gives {r : Rule Stmt} (hr : ForStmt n r) : r.Gives Stmt.Confined := by
  have hx (n : Nat) := expression_gives n
  have hs (n : Nat) := (region_gives_confined n).1
  induction hr with
  | bindingStatement n b => exact bindingStatement_gives (hx n) b
  | printStatement n => exact printStatement_gives (hx n)
  | expressionStatement n => exact expressionStatement_gives (hx n)
  | block n => exact block_gives_of (item_gives n)
  | ifStatement n => exact ifStatement_gives (hx n) (hs n)
  | whileStatement n => exact whileStatement_gives (hx n) (hs n)
  | forStatement n keyword => exact forStatement_gives (hx n) (hs n) keyword
  | statement n => exact statement_gives_of (hx n) (hs n) (region_gives_confined n).2
  | nested _ ih => exact ih.nested

/-- A `for` loop that is read from the cursor on is written with the clauses and the body that
are read there, and no error is among the statements it is written with. -/
def ConfinesLoop (n : Nat) (keyword : Token) (c : Cursor) (s : Stmt) : Prop :=
  ∃ initial condition step body m d,
    (clauses (.upTo n)).Yields c (initial, condition, step) m ∧
      (nested (Region.upTo n).statement).Yields m body d ∧
        s = .forLoop keyword.line initial condition step body ∧
          (∀ i ∈ initial, i.isError = false) ∧ body.isError = false

/-- What the rules read at a cursor has errors in blocks only, where `n` regions can be
opened.  A rule that reads nothing gives an error in the place of what it should read. -/
structure Confines (n : Nat) (c : Cursor) : Prop where
  expression : ∀ r, ForExpr n r → ∀ e, (r c).value = .ok e → ∀ way m,
    (Node.expr e).at? way = some m → m.error? = none ∧ m ≠ .expr .empty
  statement : ∀ r, ForStmt n r → ∀ s, (r c).value = .ok s → s.isError = false ∧ s.ErrorsInBlocks
  declaration : (declaration (.upTo n) c).value.ErrorsInBlocks
  loop : ∀ keyword s, (forStatement (.upTo n) keyword c).value = .ok s →
    ConfinesLoop n keyword c s

/-- A `for` loop that is read is written with clauses and a body that are no errors. -/
theorem confinesLoop_of_ok {keyword : Token} {s : Stmt}
    (h : (forStatement (.upTo n) keyword c).value = .ok s) : ConfinesLoop n keyword c s := by
  have hread : (forStatement (.upTo n) keyword).Yields c s _ := ⟨h, rfl⟩
  rw [forStatement_eq] at hread
  obtain ⟨⟨initial, condition, step⟩, m, hhead, hread⟩ := yields_bind.1 hread
  obtain ⟨body, d, hbody, hread⟩ := yields_bind.1 hread
  have hinitial := (clauses_gives (expression_gives n) hhead).1
  have hconfined := (region_gives_confined n).1.nested hbody
  exact ⟨initial, condition, step, body, m, d, hhead, hbody, (yields_pure.1 hread).1,
    fun i hi => (hinitial i hi).isError, hconfined.isError⟩

/-- **Errors stand in blocks.**  Wherever a rule begins, an expression that it reads has no error
at any place and nothing left out, and in a statement that it reads errors stand in the place of
statements of blocks only; so they do in the statement of a declaration, which may be an error
itself.  The blocks that a `for` loop is written with have no error from it. -/
theorem confines (n : Nat) (c : Cursor) : Confines n c where
  expression r hr e he way m hm := by
    have hwhole : (Node.expr e).Whole := ⟨e, rfl, hr.gives ⟨he, rfl⟩⟩
    exact (Node.holds_at (fun _ => Node.Whole.child) hwhole hm).sound
  statement r hr s hs := by
    have hconfined : s.Confined := hr.gives ⟨hs, rfl⟩
    exact ⟨hconfined.isError, Stmt.errorsInBlocks_of_confined (.inr hconfined)⟩
  declaration := Stmt.errorsInBlocks_of_confined ((item_gives n).recover c)
  loop _ _ := confinesLoop_of_ok

/-- Behind the opening brace of `{ a + ; b ; }`, with thirty-one regions open. -/
def inBrokenBlock : Cursor :=
  ⟨[⟨.identifier, "a", 1, .none⟩, ⟨.plus, "+", 1, .none⟩, ⟨.semicolon, ";", 1, .none⟩,
    ⟨.identifier, "b", 1, .none⟩, ⟨.semicolon, ";", 1, .none⟩, ⟨.rightBrace, "\x7d", 1, .none⟩],
    .atEnd 1, 1, 31⟩

/-- The block that is read there. -/
def brokenBlock : Stmt :=
  .block [.error (Complaint.noExpression.about ⟨.semicolon, ";", 1, .none⟩),
    .expression (.literal ⟨.identifier, "b", 1, .none⟩)]

/-- The block has the error of its first statement in it; the expression of the second one has
none. -/
theorem confines_brokenBlock :
    let b : Expr := .literal ⟨.identifier, "b", 1, .none⟩
    ((block (.upTo 1) inBrokenBlock).value = .ok brokenBlock ∧ brokenBlock.ErrorsInBlocks) ∧
    (disjunction (.upTo 1) inBrokenBlock.next.next.next).value = .ok b ∧
    ∀ way m, (Node.expr b).at? way = some m → m.error? = none ∧ m ≠ .expr .empty := by
  intro b
  have hblock : (block (.upTo 1) inBrokenBlock).value = .ok brokenBlock := rfl
  have hb : (disjunction (.upTo 1) inBrokenBlock.next.next.next).value = .ok b := rfl
  exact ⟨⟨hblock, ((confines 1 _).statement _ (.block 1) _ hblock).2⟩,
    hb, (confines 1 _).expression _ (.disjunction 1) _ hb⟩

end Rule
end LoxFront
