/-
# When parsing is refused outright

Parsing is refused outright if and only if the list of tokens has no cursor; over
all other lists the pass comes to the end marker, whatever rules fail on the way
(`parse_refuses_iff`).  What a pass tells of, it tells of tokens in the list
(`Rule.telling`).
-/

import LoxFront.Proofs.Parse.Pass

namespace LoxFront

/-- The event is about the token at this cursor. -/
def Event.At (m : Cursor) : Event → Prop
  | entered position => position = m.position
  | failed position _ token => position = m.position ∧ token = m.peek
  | panicked position line => position = m.position ∧ line = m.peek.line
  | resumed dropped => m.position + dropped = m.resume.position
  | returned line => line = m.peek.line

/-- An event told of a place is told of it after a region is closed. -/
theorem Event.At.ascend {e : Event} {m : Cursor} (h : e.At m) : e.At m.ascend := by
  cases e <;> exact h

namespace Rule

/-- A rule stops where it began or behind, and all it tells of is there. -/
def telling : Law := fun c _ d t => c.Reaches d ∧ ∀ e ∈ t, ∃ m, c.Reaches m ∧ e.At m

/-- What panic mode tells is told of places on its way. -/
theorem telling_recovers : Law.Recovers telling where
  stay c := ⟨.refl c, List.forall_mem_nil _⟩
  step c := ⟨c.reaches_next, List.forall_mem_nil _⟩
  returned c := ⟨c.reaches_next, List.forall_mem_cons.2 ⟨⟨c, .refl c, rfl⟩, List.forall_mem_nil _⟩⟩
  failed c _ := ⟨.refl c, List.forall_mem_cons.2 ⟨⟨c, .refl c, rfl, rfl⟩, List.forall_mem_nil _⟩⟩
  trans := by
    rintro c d e o t u ⟨hd, ht⟩ ⟨he, hu⟩
    refine ⟨hd.trans he, List.forall_mem_append.2 ⟨ht, fun x hx => ?_⟩⟩
    obtain ⟨m, hm, hx⟩ := hu x hx
    exact ⟨m, hd.trans hm, hx⟩
  region := by
    rintro c d o t - ⟨hd, ht⟩
    refine ⟨hd.ascend, fun x hx => ?_⟩
    obtain ⟨m, hm, hx⟩ := ht x hx
    exact ⟨m.ascend, hm.ascend, hx.ascend⟩
  entered := by
    rintro c d t ⟨hd, ht⟩
    exact ⟨hd, List.forall_mem_cons.2 ⟨⟨c, .refl c, rfl⟩, ht⟩⟩
  panicked := by
    rintro c d e t ⟨hd, ht⟩
    have hresume := d.reaches_resume
    have hle := hresume.position_le
    have htail : ∀ x ∈ [Event.panicked d.position d.peek.line,
        .resumed (d.resume.position - d.position)], ∃ m, c.Reaches m ∧ x.At m :=
      List.forall_mem_cons.2 ⟨⟨d, hd, rfl, rfl⟩,
        List.forall_mem_cons.2 ⟨⟨d, hd, Nat.add_sub_cancel' hle⟩, List.forall_mem_nil _⟩⟩
    exact ⟨hd.trans hresume, List.forall_mem_append.2
      ⟨List.forall_mem_cons.2 ⟨⟨c, .refl c, rfl⟩, ht⟩, htail⟩⟩
  unclosed c := ⟨.refl c, List.forall_mem_cons.2 ⟨⟨c, .refl c, rfl, rfl⟩, List.forall_mem_nil _⟩⟩

end Rule

/-- All that a run tells of is at or behind its first cursor. -/
theorem Runs.tells {c d : Cursor} {body : List Stmt} {trace : List Event}
    (h : Runs c body trace d) : ∀ e ∈ trace, ∃ m, c.Reaches m ∧ e.At m := by
  induction h with
  | done => exact List.forall_mem_nil _
  | next _ _ _ ih =>
    obtain ⟨hreach, htold⟩ := Rule.declaration_obeys Rule.telling_recovers maxNesting _
    refine List.forall_mem_append.2 ⟨htold, fun e he => ?_⟩
    obtain ⟨m, hm, hat⟩ := ih e he
    exact ⟨m, hreach.trans hm, hat⟩

/-- The loops of rules at a cursor end where they should, by steps that are never
refused: panic mode, a chain of operators, a declaration and the declarations of a
block. -/
structure LoopsEnd (n : Nat) (m : Cursor) : Prop where
  resume : m.Moves m.resume
  resume_lt : m.isAtEnd = false → m.position < m.resume.position
  chain {accepts : Kind → Bool} {operand : Rule Expr} {left e : Expr} {d : Cursor} :
    operand.Obeys Rule.frame → (Rule.tail accepts operand left).Yields m e d →
      m.Moves d ∧ (d.isAtEnd = true ∨ accepts d.peek.kind = false)
  declaration : m.Moves (Rule.declaration (.upTo n) m).cursor
  declaration_lt : m.isAtEnd = false → m.position < (Rule.declaration (.upTo n) m).cursor.position
  body : m.Moves (Rule.declarations (Rule.declaration (.upTo n)) m.rest m).cursor
  body_end : (Rule.declarations (Rule.declaration (.upTo n)) m.rest m).cursor.isAtEnd = true ∨
    (Rule.declarations (Rule.declaration (.upTo n)) m.rest m).cursor.check .rightBrace = true

/-- The loops for declarations come to an end wherever as many regions can be opened. -/
theorem loopsEnd {n : Nat} {m : Cursor} (h : m.Allows n) : LoopsEnd n m := by
  have hitem := Rule.declaration_obeys Rule.frame_recovers n
  have hbody : m.Reaches (Rule.declarations (Rule.declaration (.upTo n)) m.rest m).cursor :=
    Rule.obeys_declarations Rule.frame_composes hitem m.rest m
  refine ⟨m.moves_resume, Cursor.position_lt_resume, fun ho hd => ⟨?_, Rule.tail_stops ho hd⟩,
    Cursor.Reaches.moves (hitem m), Rule.declaration_advances n h.marker_kind, hbody.moves,
    Rule.declarations_stop n h.marker_kind (Nat.le_refl _)⟩
  exact (hd.reaches fun c => Rule.obeys_links Rule.frame_composes ho c.rest _ c).moves

/-- **Parsing is refused only for what the list of tokens is.**  It is refused if
the list is empty, does not end in an end marker, is an end marker alone or has
one before its last token.  Else the tokens are a program or there are errors to
report; the pass runs to the end marker, what it tells of are tokens of the list,
and each cursor in it comes from the first by steps that are never refused. -/
theorem parse_refuses_iff (tokens : List Token) :
    ((∃ cause, parse tokens = .error (.fatal cause)) ↔
      tokens = [] ∨ (∃ t, tokens.getLast? = some t ∧ t.kind ≠ .eof) ∨
        (∃ t, tokens = [t] ∧ t.kind = .eof) ∨ ∃ t ∈ tokens.dropLast, t.kind = .eof) ∧
    ((∃ cause, parse tokens = .error (.fatal cause)) ∨ (∃ p, parse tokens = .ok p) ∨
      ∃ report, parse tokens = .error (.rejected report) ∧ report.errors ≠ []) ∧
    ∀ c, Cursor.ofTokens tokens = .ok c →
      (∃ body d, (pass c).statements = .ok body ∧ Runs c body (pass c).trace d ∧ d.isAtEnd = true) ∧
      (∀ e ∈ (pass c).trace, ∃ m, c.Moves m ∧ tokens[m.position]? = some m.peek ∧ e.At m) ∧
      ∀ n m, m.Allows n → LoopsEnd n m := by
  rw [← Cursor.ofTokens_eq_error_iff]
  cases hc : Cursor.ofTokens tokens with
  | error f =>
    have hfatal : ∃ cause, parse tokens = .error (.fatal cause) := ⟨_, parse_of_error hc⟩
    exact ⟨⟨fun _ => ⟨f, rfl⟩, fun _ => hfatal⟩, .inl hfatal, fun c h => nomatch h⟩
  | ok c =>
    obtain ⟨text, marker, hsound, -, heq⟩ := Cursor.ofTokens_eq_ok_iff.1 hc
    have hmarker : c.marker.kind = .eof := by rw [heq]; exact hsound.marker_kind
    obtain ⟨body, d, hbody, hruns⟩ := runs_pass hmarker
    have hend := parse_ends hc
    refine ⟨⟨?_, ?_⟩, .inr hend, ?_⟩
    · rintro ⟨cause, hcause⟩
      rcases hend with ⟨p, hp⟩ | ⟨report, hp, -⟩ <;> rw [hp] at hcause <;> simp at hcause
    · rintro ⟨f, hf⟩
      exact nomatch hf
    · rintro _ h
      obtain rfl := Except.ok.inj h
      refine ⟨⟨body, d, hbody, hruns, hruns.isAtEnd⟩, fun e he => ?_, fun n m hm => loopsEnd hm⟩
      obtain ⟨m, hm, hat⟩ := hruns.tells e he
      exact ⟨m, hm.moves, Cursor.getElem?_position hc hm, hat⟩

end LoxFront
