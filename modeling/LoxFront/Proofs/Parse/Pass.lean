/-
# A pass over the tokens

A pass is a run of declarations up to the end marker, each of which takes a token
at least (`Runs`, `runs_pass`).  The bound on their number is never felt, and no
declaration stalls the pass.
-/

import LoxFront.Parse
import LoxFront.Proofs.Cursor.Start
import LoxFront.Proofs.Rule.Progress
import LoxFront.Proofs.Tree.Errors

namespace LoxFront

/-- From a cursor on declarations are read up to the end, each from where the one
before it stopped: the statements, the events and the place of the end marker. -/
inductive Runs : Cursor → List Stmt → List Event → Cursor → Prop where
  | done {c : Cursor} : c.isAtEnd = true → Runs c [] [] c
  | next {c d : Cursor} {rest : List Stmt} {trace : List Event} :
    c.isAtEnd = false → c.position < (topDeclaration c).cursor.position →
      Runs (topDeclaration c).cursor rest trace d →
        Runs c ((topDeclaration c).value :: rest) ((topDeclaration c).trace ++ trace) d

/-- A declaration never goes back. -/
theorem topDeclaration_reaches (c : Cursor) : c.Reaches (topDeclaration c).cursor :=
  Rule.declaration_obeys Rule.frame_recovers maxNesting c

/-- A run ends at the end marker. -/
theorem Runs.isAtEnd {c d : Cursor} {body : List Stmt} {trace : List Event}
    (h : Runs c body trace d) : d.isAtEnd = true := by
  induction h with
  | done he => exact he
  | next _ _ _ ih => exact ih

/-- A run never goes back. -/
theorem Runs.reaches {c d : Cursor} {body : List Stmt} {trace : List Event}
    (h : Runs c body trace d) : c.Reaches d := by
  induction h with
  | done => exact .refl _
  | next _ _ _ ih => exact (topDeclaration_reaches _).trans ih

/-- From a cursor on there is one run only. -/
theorem Runs.unique {c d d' : Cursor} {body body' : List Stmt} {trace trace' : List Event}
    (h : Runs c body trace d) (k : Runs c body' trace' d') :
    body = body' ∧ trace = trace' ∧ d = d' := by
  induction h generalizing body' trace' with
  | done he =>
    cases k with
    | done => exact ⟨rfl, rfl, rfl⟩
    | next hne => exact nomatch he.symm.trans hne
  | next hne _ _ ih =>
    cases k with
    | done he => exact nomatch he.symm.trans hne
    | next _ _ k =>
      obtain ⟨rfl, rfl, rfl⟩ := ih k
      exact ⟨rfl, rfl, rfl⟩

/-- The loop of the parser is a run if it is given as many rounds as tokens are left: it
neither fails nor stops early. -/
theorem runs_passFrom {more : List Token} {c : Cursor} (hm : c.marker.kind = .eof)
    (hlen : c.rest.length ≤ more.length) :
    ∃ body d, (passFrom more c).statements = .ok body ∧ Runs c body (passFrom more c).trace d := by
  induction more generalizing c with
  | nil =>
    refine ⟨[], c, by rw [passFrom], ?_⟩
    rw [passFrom]
    exact .done (Cursor.isAtEnd_of_length_le hlen)
  | cons t more ih =>
    cases he : c.isAtEnd with
    | true => exact ⟨[], c, by simp [passFrom, he], by simpa [passFrom, he] using Runs.done he⟩
    | false =>
      have hlt : c.position < (topDeclaration c).cursor.position :=
        Rule.declaration_advances maxNesting hm he
      have hreach := topDeclaration_reaches c
      have hadd := hreach.position_add
      rw [List.length_cons] at hlen
      obtain ⟨body, d, hbody, hd⟩ := ih (c := (topDeclaration c).cursor)
        (by rw [hreach.marker, hm]) (by omega)
      refine ⟨(topDeclaration c).value :: body, d, ?_, ?_⟩
      · simp [passFrom, he, Nat.not_le.2 hlt, hbody, Except.map]
      · have hnext := Runs.next he hlt hd
        simpa [passFrom, he, Nat.not_le.2 hlt] using hnext

/-- **A pass is a run to the end marker.**  It gives statements whatever the
tokens are, since every declaration takes one of them. -/
theorem runs_pass {c : Cursor} (hm : c.marker.kind = .eof) :
    ∃ body d, (pass c).statements = .ok body ∧ Runs c body (pass c).trace d :=
  runs_passFrom hm (Nat.le_refl _)

/-! ### From a pass to a program -/

/-- A list of tokens that gets no cursor is refused with the fault of the cursor. -/
theorem parse_of_error {tokens : List Token} {f : Fault} (h : Cursor.ofTokens tokens = .error f) :
    parse tokens = .error (.fatal f.diagnostic) := by
  rw [parse, h]
  rfl

/-- The tokens are a program if no error stands in the statements of the pass. -/
theorem parse_of_pass {tokens : List Token} {c : Cursor} {body : List Stmt}
    (hc : Cursor.ofTokens tokens = .ok c) (hbody : (pass c).statements = .ok body) :
    parse tokens = if Stmt.errorsOf body = [] then .ok ⟨body⟩
      else .error (.rejected ⟨Stmt.errorsOf body⟩) := by
  by_cases he : Stmt.errorsOf body = []
  · rw [if_pos he]
    simp [parse, hc, Except.bind, hbody, Program.errors_eq, he]
  · rw [if_neg he]
    simp [parse, hc, Except.bind, hbody, Program.errors_eq, he]

/-- Tokens that have a cursor are a program, or there are errors to report. -/
theorem parse_ends {tokens : List Token} {c : Cursor} (hc : Cursor.ofTokens tokens = .ok c) :
    (∃ p, parse tokens = .ok p) ∨
      ∃ report, parse tokens = .error (.rejected report) ∧ report.errors ≠ [] := by
  obtain ⟨text, marker, hsound, -, rfl⟩ := Cursor.ofTokens_eq_ok_iff.1 hc
  obtain ⟨body, d, hbody, -⟩ := runs_pass (c := ⟨text, marker, 0, 0⟩) hsound.marker_kind
  have hparse := parse_of_pass hc hbody
  by_cases he : Stmt.errorsOf body = []
  · exact .inl ⟨_, by rw [hparse, if_pos he]⟩
  · exact .inr ⟨⟨Stmt.errorsOf body⟩, by rw [hparse, if_neg he], he⟩

/-- A list of tokens is accepted exactly if it gets a cursor and the trees of its pass hold no
error. -/
theorem parse_eq_ok_iff {tokens : List Token} {p : Program} :
    parse tokens = .ok p ↔
      ∃ c, Cursor.ofTokens tokens = .ok c ∧ (pass c).statements = .ok p.statements ∧
        Stmt.errorsOf p.statements = [] := by
  cases hc : Cursor.ofTokens tokens with
  | error f =>
    rw [parse_of_error hc]
    exact ⟨(fun h => nomatch h), fun ⟨c, h, _⟩ => nomatch h⟩
  | ok c =>
    obtain ⟨body, marker, hsound, -, rfl⟩ := Cursor.ofTokens_eq_ok_iff.1 hc
    obtain ⟨statements, d, hbody, -⟩ := runs_pass (c := ⟨body, marker, 0, 0⟩) hsound.marker_kind
    rw [parse_of_pass hc hbody]
    constructor
    · intro h
      split at h
      · next he =>
        obtain rfl := Except.ok.inj h
        exact ⟨_, rfl, hbody, he⟩
      · exact nomatch h
    · rintro ⟨c, hc, hp, he⟩
      obtain rfl := Except.ok.inj hc
      obtain rfl := Except.ok.inj (hp.symm.trans hbody)
      rw [if_pos he]

end LoxFront
