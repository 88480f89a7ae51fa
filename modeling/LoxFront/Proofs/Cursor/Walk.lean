/-
# Where a walk can come to

A walk over a list of tokens stays in it, whatever steps it takes and whatever copies
it comes back to: `Walk.Sits.after` for the cursor and for all copies.  So every step
is one in the list (`Walk.Lawful`), and as many regions are open as the steps down and
up since the last copy make them (`Walk.depth_after`).
-/

import LoxFront.Cursor.Walk
import LoxFront.Proofs.Cursor.Index

namespace LoxFront

/-- A step of a walk, or one that takes a token of this kind only, or one that takes it for
its kind and for what it holds. -/
inductive Act where
  | move (m : Move)
  | eat (kind : Kind)
  | eatHeld (accepts : Kind → Payload → Bool)

namespace Act

/-- The act is one that takes the token at the cursor or nothing. -/
inductive Takes : Act → Prop where
  | advance : Takes (.move .advance)
  | eatOf (kinds : List Kind) : Takes (.move (.eat kinds))
  | eat (kind : Kind) : Takes (.eat kind)
  | eatHeld (accepts : Kind → Payload → Bool) : Takes (.eatHeld accepts)

/-- The act goes back to a copy. -/
inductive Loads : Act → Prop where
  | load (index : Nat) : Loads (.move (.load index))

/-- How many regions are open behind an act, if no copy is gone back to. -/
def depth (n : Nat) : Act → Nat
  | .move .descend => min (n + 1) maxNesting
  | .move .ascend => n - 1
  | _ => n

/-- How many regions are open behind some acts. -/
def depthAfter (n : Nat) (acts : List Act) : Nat := acts.foldl depth n

end Act

namespace Walk

/-- An act and its answer. -/
def act (w : Walk) : Act → Reply × Walk
  | .move m => w.step m
  | .eat kind =>
    match w.cursor.eat? kind with
    | some (t, c) => (.token t, { w with cursor := c })
    | none => (.nothing, w)
  | .eatHeld accepts =>
    match w.cursor.eatHeld? accepts with
    | some (t, c) => (.token t, { w with cursor := c })
    | none => (.nothing, w)

/-- The walk behind some acts. -/
def after (w : Walk) (acts : List Act) : Walk := acts.foldl (fun w a => (w.act a).2) w

variable {tokens : List Token} {w : Walk}

/-- Without an act a walk stays where it is. -/
@[simp] theorem after_nil (w : Walk) : w.after [] = w := rfl

/-- A walk goes act by act. -/
@[simp] theorem after_cons (w : Walk) (a : Act) (acts : List Act) :
    w.after (a :: acts) = (w.act a).2.after acts := rfl

/-- Acts and then more acts are one walk. -/
@[simp] theorem after_append (w : Walk) (acts more : List Act) :
    w.after (acts ++ more) = (w.after acts).after more := List.foldl_append

/-- The answers of a walk are those of its steps, each behind the steps before it. -/
theorem getElem?_run (w : Walk) (moves : List Move) (n : Nat) :
    (w.run moves)[n]? = moves[n]?.map fun m =>
      let answer := (w.after ((moves.take n).map .move)).step m
      (answer.1, answer.2.cursor) := by
  induction moves generalizing w n with
  | nil => rfl
  | cons m moves ih =>
    cases n with
    | zero => rfl
    | succ n => exact ih (w.step m).2 n

/-! ### One act -/

/-- What an act leaves: the token at the cursor and the cursor behind it, or the walk as
it was. -/
theorem act_of_takes (w : Walk) {a : Act} (ha : a.Takes) :
    (w.cursor.isAtEnd = false ∧
        w.act a = (.token w.cursor.peek, { w with cursor := w.cursor.next })) ∨
      (∀ t, (w.act a).1 ≠ .token t) ∧ (w.act a).2 = w := by
  have held (accepts : Kind → Payload → Bool) :
      (w.cursor.isAtEnd = false ∧
          w.act (.eatHeld accepts) = (.token w.cursor.peek, { w with cursor := w.cursor.next })) ∨
        (∀ t, (w.act (.eatHeld accepts)).1 ≠ .token t) ∧ (w.act (.eatHeld accepts)).2 = w := by
    cases heat : w.cursor.eatHeld? accepts with
    | none =>
      rw [act, heat]
      exact .inr ⟨fun t ht => Reply.noConfusion ht, rfl⟩
    | some taken =>
      obtain ⟨t, c⟩ := taken
      obtain ⟨hend, rfl, rfl⟩ := Cursor.eatHeld?_eq_some heat
      rw [act, heat]
      exact .inl ⟨hend, rfl⟩
  cases ha with
  | advance =>
    cases hend : w.cursor.isAtEnd with
    | false =>
      rw [act, step, Cursor.advance_eq_ok hend]
      exact .inl ⟨rfl, rfl⟩
    | true =>
      rw [act, step, Cursor.advance, if_pos hend]
      exact .inr ⟨fun t ht => Reply.noConfusion ht, rfl⟩
  | eatOf kinds =>
    rw [act, step, Cursor.eatIf?_eq_eatHeld?]
    exact held fun k _ => kinds.contains k
  | eat kind =>
    rw [act, Cursor.eat?, Cursor.eatIf?_eq_eatHeld?]
    exact held fun k _ => k == kind
  | eatHeld accepts => exact held accepts

/-- Where an act leads: nowhere, on to the next token, a region down or up, to a new copy
or back to an old one. -/
inductive Leads (w : Walk) : Act → Walk → Prop where
  | stay {a : Act} : (∀ n, a.depth n = n) → Leads w a w
  | next {a : Act} : (∀ n, a.depth n = n) → Leads w a { w with cursor := w.cursor.next }
  | refuse : maxNesting ≤ w.cursor.depth → Leads w (.move .descend) w
  | descend : w.cursor.depth < maxNesting →
    Leads w (.move .descend) { w with cursor := w.cursor.deeper }
  | ascend : Leads w (.move .ascend) { w with cursor := w.cursor.ascend }
  | save : Leads w (.move .save) { w with saved := w.saved ++ [w.cursor] }
  | load {index : Nat} {c : Cursor} : w.saved[index]? = some c →
    Leads w (.move (.load index)) { w with cursor := c }

/-- An act that takes a token leads on to the next one, or nowhere if it takes none. -/
theorem leads_of_takes (w : Walk) {a : Act} (ha : a.Takes) : w.Leads a (w.act a).2 := by
  have hdepth : ∀ n, a.depth n = n := fun n => by cases ha <;> rfl
  rcases w.act_of_takes ha with ⟨-, h⟩ | ⟨-, h⟩
  · rw [h]
    exact .next hdepth
  · rw [h]
    exact .stay hdepth

/-- **Each act leads to one of these places.** -/
theorem leads_act (w : Walk) (a : Act) : w.Leads a (w.act a).2 := by
  match a with
  | .eat kind => exact w.leads_of_takes (.eat kind)
  | .eatHeld accepts => exact w.leads_of_takes (.eatHeld accepts)
  | .move .advance => exact w.leads_of_takes .advance
  | .move (.eat kinds) => exact w.leads_of_takes (.eatOf kinds)
  | .move .peek | .move (.check _) => exact .stay fun _ => rfl
  | .move .ascend => exact .ascend
  | .move .save => exact .save
  | .move .descend =>
    rw [act, step]
    cases hdescend : w.cursor.descend? with
    | none => exact .refuse (Cursor.descend?_eq_none_iff.1 hdescend)
    | some c =>
      obtain ⟨hlt, rfl⟩ := Cursor.descend?_eq_some_iff.1 hdescend
      exact .descend hlt
  | .move (.load index) =>
    show w.Leads _ { w with cursor := w.saved[index]?.getD w.cursor }
    cases hcopy : w.saved[index]? with
    | none => exact .stay fun _ => rfl
    | some c => exact .load hcopy

/-! ### All acts -/

/-- The cursor and all its copies stand in this list of tokens. -/
def Sits (tokens : List Token) (w : Walk) : Prop := ∀ c ∈ w.cursor :: w.saved, c.Sits tokens

/-- No act leaves the list, neither with the cursor nor with a copy. -/
theorem Sits.act (h : w.Sits tokens) (a : Act) : (w.act a).2.Sits tokens := by
  obtain ⟨hcursor, hsaved⟩ := List.forall_mem_cons.1 h
  have hleads := w.leads_act a
  generalize (w.act a).2 = w' at hleads
  cases hleads with
  | stay | refuse => exact h
  | next => exact List.forall_mem_cons.2 ⟨hcursor.next, hsaved⟩
  | descend hlt => exact List.forall_mem_cons.2 ⟨hcursor.with_depth hlt, hsaved⟩
  | ascend => exact List.forall_mem_cons.2 ⟨hcursor.ascend, hsaved⟩
  | save =>
    exact List.forall_mem_cons.2 ⟨hcursor, List.forall_mem_append.2
      ⟨hsaved, List.forall_mem_singleton.2 hcursor⟩⟩
  | load hcopy => exact List.forall_mem_cons.2 ⟨hsaved _ (List.mem_of_getElem? hcopy), hsaved⟩

/-- **No act leads out of the list**, nor does any copy. -/
theorem Sits.after (h : w.Sits tokens) (acts : List Act) : (w.after acts).Sits tokens := by
  induction acts generalizing w with
  | nil => exact h
  | cons a acts ih => exact ih (h.act a)

/-- Copies are kept. -/
theorem saved_act (w : Walk) (a : Act) : w.saved <+: (w.act a).2.saved := by
  have hleads := w.leads_act a
  generalize (w.act a).2 = w' at hleads
  cases hleads with
  | save => exact List.prefix_append _ _
  | stay | next | refuse | descend | ascend | load => exact List.prefix_rfl

/-- Copies are only ever added behind those that are there. -/
theorem saved_after (w : Walk) (acts : List Act) : w.saved <+: (w.after acts).saved := by
  induction acts generalizing w with
  | nil => exact List.prefix_rfl
  | cons a acts ih => exact (w.saved_act a).trans (ih (w.act a).2)

/-- A copy is what the cursor was when it was saved, whatever the walk does afterwards. -/
theorem getElem?_saved (w : Walk) (acts : List Act) :
    (w.after (.move .save :: acts)).saved[w.saved.length]? = some w.cursor := by
  obtain ⟨more, hmore⟩ := (w.act (.move .save)).2.saved_after acts
  have hsaved : (w.act (.move .save)).2.saved = w.saved ++ [w.cursor] := rfl
  rw [after_cons, ← hmore, hsaved, List.append_assoc, List.getElem?_append_right (Nat.le_refl _),
    Nat.sub_self]
  rfl

/-! ### How many regions are open -/

/-- Every operation but coming back to a copy changes the depth as counting by itself tells. -/
theorem act_depth (h : w.cursor.depth ≤ maxNesting) {a : Act} (ha : ¬a.Loads) :
    (w.act a).2.cursor.depth = a.depth w.cursor.depth := by
  have hleads := w.leads_act a
  generalize (w.act a).2 = w' at hleads
  cases hleads with
  | stay hsame => exact (hsame _).symm
  | next hsame => exact (Cursor.reaches_next w.cursor).depth.trans (hsame _).symm
  | refuse hle =>
    show w.cursor.depth = min (w.cursor.depth + 1) maxNesting
    omega
  | descend hlt => exact (Nat.min_eq_left hlt).symm
  | ascend | save => rfl
  | load => exact absurd (.load _) ha

/-- No act opens a region beyond the limit. -/
theorem depth_le_of_act {n : Nat} (h : n ≤ maxNesting) (a : Act) : a.depth n ≤ maxNesting := by
  unfold Act.depth
  split <;> omega

/-- **As many regions are open as the steps down and up make them**, as long as no copy is
gone back to. -/
theorem depth_after (h : w.cursor.depth ≤ maxNesting) {acts : List Act}
    (hacts : ∀ a ∈ acts, ¬a.Loads) :
    (w.after acts).cursor.depth = Act.depthAfter w.cursor.depth acts := by
  induction acts generalizing w with
  | nil => rfl
  | cons a acts ih =>
    obtain ⟨ha, hacts⟩ := List.forall_mem_cons.1 hacts
    have hdepth := act_depth h ha
    rw [after_cons, ih (hdepth ▸ depth_le_of_act h a) hacts, hdepth]
    rfl

/-- Behind a copy that is gone back to, the regions are counted from there. -/
theorem depth_after_load (w : Walk) {index : Nat} {c : Cursor} (hc : w.saved[index]? = some c)
    (h : c.depth ≤ maxNesting) {acts : List Act} (hacts : ∀ a ∈ acts, ¬a.Loads) :
    (w.after (.move (.load index) :: acts)).cursor.depth = Act.depthAfter c.depth acts := by
  have hcursor : (w.act (.move (.load index))).2.cursor = c := by
    show w.saved[index]?.getD w.cursor = c
    rw [hc]
    rfl
  rw [after_cons, ← hcursor]
  exact depth_after (by rwa [hcursor]) hacts

/-! ### The laws of a walk -/

/-- What holds at each place of a walk over a list of tokens. -/
structure Lawful (tokens : List Token) (w : Walk) : Prop where
  /-- The cursor stands at a token of the list, and none is read out of range. -/
  position_lt : w.cursor.position < tokens.length
  indexed : w.cursor.Indexed tokens
  remaining_eq : w.cursor.remaining = tokens.length - 1 - w.cursor.position
  depth_le : w.cursor.depth ≤ maxNesting
  isAtEnd_iff : w.cursor.isAtEnd = true ↔ w.cursor.remaining = 0
  /-- The end marker is of no kind and is not taken. -/
  check_eof : w.cursor.peek.kind = .eof → ∀ kind, (w.step (.check kind)).1 = .truth false
  takes_eof : w.cursor.peek.kind = .eof → ∀ a : Act, a.Takes → ∀ t, (w.act a).1 ≠ .token t
  /-- What is taken is the token at the cursor, and the cursor is behind it. -/
  taken : ∀ a : Act, a.Takes → ∀ t, (w.act a).1 = .token t →
    tokens[w.cursor.position]? = some t ∧
      (w.act a).2.cursor.position = w.cursor.position + 1 ∧
        (w.act a).2.cursor.depth = w.cursor.depth
  /-- Where nothing is taken nothing changes. -/
  not_taken : ∀ a : Act, a.Takes → (∀ t, (w.act a).1 ≠ .token t) → (w.act a).2 = w

/-- Wherever a walk sits in its list, the laws of the operations hold. -/
theorem Sits.lawful (h : w.Sits tokens) : w.Lawful tokens := by
  have hcursor : w.cursor.Sits tokens := h _ List.mem_cons_self
  have hend (heof : w.cursor.peek.kind = .eof) : w.cursor.isAtEnd = true := by
    rw [hcursor.isAtEnd_eq, heof]
    rfl
  refine ⟨hcursor.position_lt, hcursor.indexed, hcursor.remaining_eq, hcursor.depth_le,
    Cursor.isAtEnd_iff_remaining _, fun heof kind => ?_,
    fun heof a ha t ht => ?_, fun a ha t ht => ?_, fun a ha hno => ?_⟩
  · rw [step, Cursor.check, hend heof]
    rfl
  · rcases w.act_of_takes ha with ⟨hleft, -⟩ | ⟨hno, -⟩
    · exact absurd (hleft.symm.trans (hend heof)) Bool.false_ne_true
    · exact hno t ht
  · rcases w.act_of_takes ha with ⟨hleft, hact⟩ | ⟨hno, -⟩
    · rw [hact] at ht ⊢
      obtain rfl := Reply.token.inj ht
      have hnext := Cursor.passes_next hleft
      exact ⟨hcursor.peek?, hnext.position, hnext.depth⟩
    · exact absurd ht (hno t)
  · rcases w.act_of_takes ha with ⟨-, hact⟩ | ⟨-, hsame⟩
    · exact absurd (congrArg Prod.fst hact) (hno _)
    · exact hsame

/-- **A walk stays in its list.**  From the first token of a list that has a cursor, any
acts lead to a place where the laws hold.  As many regions are open there as the steps
down and up make them since the beginning, or since the copy that was gone back to last;
and a copy is what the cursor was when it was saved. -/
theorem after_lawful {c : Cursor} (h : Cursor.ofTokens tokens = .ok c) (acts : List Act) :
    ((start c).after acts).Lawful tokens ∧
      ((∀ a ∈ acts, ¬a.Loads) → ((start c).after acts).cursor.depth = Act.depthAfter 0 acts) ∧
      (∀ before index since, acts = before ++ .move (.load index) :: since →
        (∀ a ∈ since, ¬a.Loads) → ∀ d, ((start c).after before).saved[index]? = some d →
          ((start c).after acts).cursor.depth = Act.depthAfter d.depth since) ∧
      ∀ before since, acts = before ++ .move .save :: since →
        ((start c).after acts).saved[((start c).after before).saved.length]? =
          some ((start c).after before).cursor := by
  have hstart : (start c).Sits tokens :=
    List.forall_mem_singleton.2 (Cursor.sits_of_ofTokens h)
  have hdepth : (start c).cursor.depth = 0 := by
    obtain ⟨body, marker, -, -, rfl⟩ := Cursor.ofTokens_eq_ok_iff.1 h
    rfl
  refine ⟨(hstart.after acts).lawful, fun hacts => ?_, ?_, ?_⟩
  · rw [← hdepth]
    exact depth_after (hdepth ▸ Nat.zero_le _) hacts
  · rintro before index since rfl hsince d hd
    have hcopy : d.Sits tokens :=
      hstart.after before d (List.mem_cons_of_mem _ (List.mem_of_getElem? hd))
    rw [after_append]
    exact depth_after_load _ hd hcopy.depth_le hsince
  · rintro before since rfl
    rw [after_append]
    exact getElem?_saved _ since

/-- The tokens of a negative number. -/
def negative : List Token :=
  [⟨.minus, "-", 1, .none⟩, ⟨.number, "7", 1, .number (.ofDecimal 7 0)⟩, .atEnd 1]

/-- The walk: down and on, down again, and back by the copy and up. -/
def thereAndBack : List Act :=
  [.move .descend, .move .save, .move .advance, .move .descend,
   .eatHeld fun k p => k == .number && p != .none, .eat .eof, .move (.load 0),
   .move .ascend, .move .ascend]

/-- The walk is lawful: it ends in no region, and the copy is as it was when it was made. -/
theorem after_lawful_thereAndBack :
    ∃ c, Cursor.ofTokens negative = .ok c ∧ ((start c).after thereAndBack).Lawful negative ∧
      ((start c).after thereAndBack).cursor.depth = 0 ∧
        ((start c).after thereAndBack).saved[0]? = some { c with depth := 1 } := by
  have h : Cursor.ofTokens negative = .ok ⟨negative.dropLast, .atEnd 1, 0, 0⟩ := rfl
  obtain ⟨hlawful, -, hload, hsave⟩ := after_lawful h thereAndBack
  refine ⟨_, h, hlawful, ?_, hsave [.move .descend] _ rfl⟩
  refine hload (thereAndBack.take 6) 0 [.move .ascend, .move .ascend] rfl (fun a ha hloads => ?_) _
    rfl
  cases hloads
  simp at ha

end Walk
end LoxFront
