/-
# Panic mode in a pass

Whenever a declaration is an error, panic mode begins at the token of that error,
drops just the tokens up to the next semicolon, and the loop goes on behind it; no
place in the tokens is entered or dropped twice (`panic_resumes`).
-/

import LoxFront.Proofs.Parse.Pass
import LoxFront.Proofs.Rule.Account
import LoxFront.Proofs.Rule.Entering
import LoxFront.Proofs.Rule.Panic

namespace LoxFront

variable {tokens : List Token} {c d : Cursor} {body : List Stmt} {trace : List Event}

/-- A run begins with a declaration unless it is at the end. -/
theorem Runs.head? (h : Runs c body trace d) (ho : c.On tokens) (hm : c.marker.kind = .eof) :
    trace.head? = some (.entered c.position) ∨ LoopStops tokens c.position := by
  cases h with
  | done hend =>
    exact .inr ⟨_, ho.getElem?_position, .inr (by rw [Cursor.peek_eq_marker hend, hm])⟩
  | next =>
    have hhead : (topDeclaration c).trace.head? = some (.entered c.position) :=
      Rule.head?_declaration maxNesting c
    exact .inl ((List.head?_append ..).trans (by rw [hhead]; rfl))

/-- A run tells of one place after another. -/
theorem Runs.told (h : Runs c body trace d) (ho : c.On tokens) (hm : c.marker.kind = .eof) :
    Told tokens c.position trace d.position := by
  induction h with
  | done => exact .done (Nat.le_refl _)
  | @next c _ _ _ _ _ hrest ih =>
    have hreach := topDeclaration_reaches c
    have ho' := ho.of_reaches hreach
    have hm' : (topDeclaration c).cursor.marker.kind = .eof := hreach.marker ▸ hm
    exact Rule.declaration_told (Rule.ordered_loops.item_obeys maxNesting) ho hm
      (hrest.head? ho' hm') (ih ho' hm')

/-- The places where a run enters declarations increase. -/
theorem Runs.increasing (h : Runs c body trace d) (hm : c.marker.kind = .eof) :
    Increasing c.position d.position (enteredAt trace) := by
  induction h with
  | done => exact .nil _ _
  | @next c _ _ _ hend _ hrest ih =>
    have hreach := topDeclaration_reaches c
    have hfirst := Rule.declaration_increasing (Rule.entering_loops.region_obeys maxNesting) hm hend
    rw [enteredAt_append]
    exact hfirst.append (ih (hreach.marker ▸ hm)) hreach.position_le hrest.reaches.position_le

namespace Rule

variable {stop : Cursor → Bool} {n : Nat} {s : Cursor}

/-- A loop goes on with a declaration where one stops, unless the loop stops there. -/
theorem Starts.later_cursor {item : Cursor → Parsed Stmt} (h : Starts stop item s d)
    (hstop : stop (item d).cursor = false) : Starts stop item s (item d).cursor := by
  induction h with
  | first hc => exact .later hc (.first hstop)
  | later hc _ ih => exact .later hc (ih hstop)

/-- The loop reaches each place where it starts a declaration. -/
theorem Starts.reaches (h : Starts stop (declaration (.upTo n)) s d) : s.Reaches d := by
  induction h with
  | first => exact .refl _
  | later _ _ ih => exact (declaration_obeys frame_recovers n _).trans ih

end Rule

/-- **Panic mode goes on at the right place.**  If a declaration of a loop over the
tokens is an error, then the error is about the token where panic mode begins, the
tokens up to the first semicolon from there on are dropped, or all that are left if
there is none, and the loop goes on behind them.  In a whole pass the places where
declarations are entered increase; and wherever panic mode drops tokens, all that was
told before is of places up to the first of them, and all that is told later is of
places behind them. -/
theorem panic_resumes (hc : Cursor.ofTokens tokens = .ok c) :
    (∀ {stop : Cursor → Bool} {n : Nat} {s d : Cursor} {e : ParseError}, s.On tokens →
      Rule.Starts stop (Rule.declaration (.upTo n)) s d →
      (Rule.declaration (.upTo n) d).value = .error e →
        ∃ p r, Rule.Panics tokens n d e p r ∧
          (stop r = false → Rule.Starts stop (Rule.declaration (.upTo n)) s r)) ∧
    (enteredAt (pass c).trace).Pairwise (· < ·) ∧
    ∀ {t u : List Event} {p l k : Nat},
      (pass c).trace = t ++ .panicked p l :: .resumed k :: u → Resumes tokens t p k u := by
  obtain ⟨text, marker, hsound, rfl, rfl⟩ := Cursor.ofTokens_eq_ok_iff.1 hc
  have hm := hsound.marker_kind
  obtain ⟨body, d, -, hruns⟩ := runs_pass (c := ⟨text, marker, 0, 0⟩) hm
  have ho : Cursor.On (text ++ [marker]) ⟨text, marker, 0, 0⟩ := rfl
  refine ⟨fun {stop n s d e} hs hd hv => ?_, (hruns.increasing hm).pairwise,
    (hruns.told ho hm).resumes⟩
  have hon := hs.of_reaches hd.reaches
  have hmarker : d.marker.kind = .eof := by
    have hlast := hon.getLast?
    rw [List.getLast?_concat] at hlast
    exact Option.some.inj hlast ▸ hm
  obtain ⟨p, r, hpanics⟩ := Rule.exists_panics hon hmarker hv
  refine ⟨p, r, hpanics, fun hstop => ?_⟩
  rw [← hpanics.cursor] at hstop ⊢
  exact hd.later_cursor hstop

/-- The tokens of `{ a + ; b ; }` behind the brace. -/
def brokenSumInBlock : List Token :=
  [⟨.identifier, "a", 1, .none⟩, ⟨.plus, "+", 1, .none⟩, ⟨.semicolon, ";", 1, .none⟩,
    ⟨.identifier, "b", 1, .none⟩, ⟨.semicolon, ";", 1, .none⟩, ⟨.rightBrace, "\x7d", 1, .none⟩]

/-- Panic mode begins at the first semicolon, and the block goes on with the declaration
behind it. -/
theorem panic_resumes_block :
    let brace : Token := ⟨.leftBrace, "\x7b", 1, .none⟩
    let semicolon : Token := ⟨.semicolon, ";", 1, .none⟩
    let tokens := brace :: brokenSumInBlock ++ [.atEnd 1]
    let c : Cursor := ⟨brace :: brokenSumInBlock, .atEnd 1, 0, 0⟩
    let s : Cursor := ⟨brokenSumInBlock, .atEnd 1, 1, 1⟩
    let e := Complaint.noExpression.about semicolon
    Cursor.ofTokens tokens = .ok c ∧ s.On tokens ∧
      (Rule.declaration (.upTo 31) s).value = .error e ∧
      (∃ p r, Rule.Panics tokens 31 s e p r ∧ (Rule.blockEnds r = false →
        Rule.Starts Rule.blockEnds (Rule.declaration (.upTo 31)) s r)) ∧
      (enteredAt (pass c).trace).Pairwise (· < ·) ∧
      Resumes tokens [.entered 0, .entered 1, .failed 3 .noExpression semicolon] 3 1
        [.entered 4] := by
  intro brace semicolon tokens c s e
  have hc : Cursor.ofTokens tokens = .ok c := rfl
  have hs : s.On tokens := rfl
  have hv : (Rule.declaration (.upTo 31) s).value = .error e := by cbv
  have htrace : (pass c).trace = [.entered 0, .entered 1, .failed 3 .noExpression semicolon] ++
      .panicked 3 1 :: .resumed 1 :: [.entered 4] := by decide +kernel +zetaReduce
  obtain ⟨hpanics, hentered, hresumes⟩ := panic_resumes hc
  exact ⟨hc, hs, hv, hpanics hs (.first rfl) hv, hentered, hresumes htrace⟩

end LoxFront
