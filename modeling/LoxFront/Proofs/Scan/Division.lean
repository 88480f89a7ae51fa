/-
# How a text divides

Pieces that are each as long as they can be before the text of the others
(`Scan.Divided`) are the pieces of the text that they make up: no text divides in two
ways (`Scan.pieces_eq_iff`).  A piece stays one if the text behind it goes on in another
way from a blank on (`Scan.Cuts.upToBlank`).
-/

import LoxFront.Proofs.Scan.Apart

namespace LoxFront
namespace Scan

/-- Each piece is as long as it can be before the text of those behind it. -/
inductive Divided : List Piece → Prop where
  | nil : Divided []
  | cons {p : Piece} {ps : List Piece} : Cuts p (ps.flatMap Piece.text) → Divided ps →
    Divided (p :: ps)

variable {c b : Char} {u v w s t rest rest' : List Char} {k : Kind} {payload : Payload} {p : Piece}
  {ps : List Piece}

/-- The pieces of a text divide it: each is cut off as it should be from what is left. -/
theorem divided_pieces (s : List Char) : Divided (pieces s) := by
  fun_induction pieces s with
  | case1 => exact .nil
  | case2 c cs ih =>
    refine .cons ?_ ih
    rw [flatMap_pieces]
    exact first_cuts c cs

/-! ### The first piece is settled -/

/-- A longest lexeme does not go on as another lexeme. -/
theorem Longest.eq_nil (h : Longest u (v ++ rest)) (hlexeme : IsLexeme (u ++ v)) : v = [] := by
  by_contra hv
  exact (h v hv (List.prefix_append v rest)).1 hlexeme

/-- Of a text there is one longest lexeme. -/
theorem Longest.unique (h : Longest u rest) (h' : Longest v rest') (hu : IsLexeme u)
    (hv : IsLexeme v) (heq : u ++ rest = v ++ rest') : u = v ∧ rest = rest' := by
  rcases List.append_eq_append_iff.1 heq with ⟨a, rfl, rfl⟩ | ⟨a, rfl, rfl⟩
  · obtain rfl := h.eq_nil hv
    exact ⟨(List.append_nil u).symm, rfl⟩
  · obtain rfl := h'.eq_nil hu
    exact ⟨List.append_nil v, rfl⟩

/-- A longest lexeme is the first piece of its text. -/
theorem Longest.first (hlongest : Longest (c :: u) rest) (h : Belongs k payload (c :: u)) :
    first c (u ++ rest) = (⟨.lexeme k payload, c :: u⟩, rest) := by
  have hlexeme : IsLexeme (c :: u) := ⟨k, payload, h⟩
  have htext := first_append c (u ++ rest)
  have hcut := first_cuts c (u ++ rest)
  generalize Scan.first c (u ++ rest) = found at htext hcut
  obtain ⟨⟨shape, text⟩, rest'⟩ := found
  change text ++ rest' = c :: u ++ rest at htext
  cases hcut with
  | blank hblank =>
    obtain ⟨rfl, -⟩ := List.cons.inj htext
    obtain ⟨hmark, hdigit, hquote, hword⟩ := not_begins_of_isBlank hblank
    exact absurd hlexeme (not_isLexeme hmark hdigit hquote hword)
  | comment =>
    obtain ⟨rfl, hslash⟩ := List.cons.inj htext
    rcases hlexeme.of_mark (by decide) with rfl | ⟨-, hwide⟩
    · exact absurd ⟨[], rfl⟩ (hlongest ['/'] (by simp) ⟨_, hslash⟩).2
    · exact absurd hwide (by decide)
  | lexeme h' hlongest' =>
    obtain ⟨rfl, rfl⟩ := hlongest'.unique hlongest ⟨_, _, h'⟩ hlexeme htext
    obtain ⟨rfl, rfl⟩ := h'.unique h
    rfl
  | stray _ hno =>
    obtain ⟨rfl, -⟩ := List.cons.inj htext
    exact absurd hlexeme (hno u)
  | openString hbody =>
    obtain ⟨rfl, hbehind⟩ := List.cons.inj htext
    obtain ⟨inner, -, rfl⟩ := hlexeme.of_quote
    rw [List.append_eq, List.append_nil] at hbehind
    exact absurd (hbehind ▸ by simp) hbody

/-- A character that begins no lexeme is no mark, quote, digit or letter. -/
theorem of_no_lexeme (h : ∀ u, ¬IsLexeme (c :: u)) :
    c ∉ marks ∧ c ≠ '"' ∧ c.isDigit = false ∧ isWordStart c = false := by
  refine ⟨fun hmark => ?_, ?_, Bool.eq_false_iff.2 fun hdigit => ?_,
    Bool.eq_false_iff.2 fun hword => ?_⟩
  · have hall : ∀ d ∈ marks, [d] ∈ fixed.map Prod.fst := List.all_iff_forall_prop.1 (by decide)
    obtain ⟨⟨text, k⟩, he, rfl⟩ := List.mem_map.1 (hall c hmark)
    exact h [] ⟨k, .none, .fixed he⟩
  · rintro rfl
    exact h ['"'] ⟨_, _, @Belongs.string [] (by simp)⟩
  · exact h [] ⟨_, _, .whole (by simp) (by simpa using hdigit)⟩
  · by_cases hmem : String.ofList [c] ∈ Kind.reserved.map Prod.fst
    · obtain ⟨⟨reserved, k⟩, hreserved, rfl⟩ := List.mem_map.1 hmem
      have hbelongs := Belongs.reserved hreserved
      rw [String.toList_ofList] at hbelongs
      exact h [] ⟨_, _, hbelongs⟩
    · exact h [] ⟨_, _, .name hword (by simp) hmem⟩

/-- No piece is empty. -/
theorem Cuts.text_ne_nil (h : Cuts p rest) : p.text ≠ [] := by
  cases h with
  | blank | comment | stray | openString => exact List.cons_ne_nil _ _
  | lexeme hbelongs =>
    rintro rfl
    exact not_isLexeme_nil ⟨_, _, hbelongs⟩

/-- A text without a character goes on as far as there is none. -/
theorem forall_bne_of_not_mem {d : Char} (h : d ∉ s) : ∀ e ∈ s, (e != d) = true := fun e he => by
  rw [bne_iff_ne]
  rintro rfl
  exact h he

/-- **A piece is the first of its text**, as long as it can be. -/
theorem Cuts.first (h : Cuts p rest) (hp : p.text = c :: u) :
    first c (u ++ rest) = (p, rest) := by
  cases h with
  | blank hblank =>
    obtain ⟨rfl, rfl⟩ := List.cons.inj hp
    exact first_of_isBlank hblank _
  | comment hbody hnext =>
    obtain ⟨rfl, rfl⟩ := List.cons.inj hp
    obtain ⟨htake, hdrop⟩ := stretch_append (forall_bne_of_not_mem hbody)
      fun d hd => bne_eq_false_iff_eq.2 (hnext d hd)
    rw [first_slash, List.cons_append, slash, htake, hdrop]
  | lexeme hbelongs hlongest =>
    obtain rfl : _ = c :: u := hp
    exact hlongest.first hbelongs
  | stray hblank hno =>
    obtain ⟨rfl, rfl⟩ := List.cons.inj hp
    obtain ⟨hmark, hquote, hdigit, hword⟩ := of_no_lexeme hno
    rw [first_of_not_mem_marks hblank hmark hquote, hdigit, hword]
    rfl
  | @openString body hbody =>
    obtain ⟨rfl, rfl⟩ := List.cons.inj hp
    obtain ⟨htake, hdrop⟩ := @stretch_append body [] _ (forall_bne_of_not_mem hbody)
      fun _ hd => nomatch hd
    show quote _ = _
    rw [quote, htake, hdrop]

/-- **Pieces that divide a text are its pieces.** -/
theorem Divided.pieces_eq (h : Divided ps) : pieces (ps.flatMap Piece.text) = ps := by
  induction h with
  | nil => rw [List.flatMap_nil, pieces]
  | @cons p ps hp _ ih =>
    obtain ⟨c, u, htext⟩ := List.exists_cons_of_ne_nil hp.text_ne_nil
    rw [List.flatMap_cons, htext, List.cons_append, pieces, hp.first htext, ih]

/-- **No text divides in two ways.** -/
theorem pieces_eq_iff : pieces s = ps ↔ Divided ps ∧ ps.flatMap Piece.text = s := by
  constructor
  · rintro rfl
    exact ⟨divided_pieces s, flatMap_pieces s⟩
  · rintro ⟨h, rfl⟩
    exact h.pieces_eq

/-! ### What follows may change from a blank on -/

/-- The second text goes on as the first does: it is the same, or it goes on with a newline
where the first ends, or it has a space for a character that is no blank and goes on in
another way. -/
inductive UpToBlank : List Char → List Char → Prop where
  | same {s : List Char} : UpToBlank s s
  | line {s t : List Char} : UpToBlank s (s ++ '\n' :: t)
  | space {w : List Char} {c : Char} {s t : List Char} : isBlank c = false →
    UpToBlank (w ++ c :: s) (w ++ ' ' :: t)

/-- Texts that are the same up to a blank stay so behind the same text. -/
theorem UpToBlank.append (h : UpToBlank s t) (u : List Char) : UpToBlank (u ++ s) (u ++ t) := by
  cases h with
  | same => exact .same
  | line =>
    rw [← List.append_assoc]
    exact .line
  | space hc =>
    rw [← List.append_assoc, ← List.append_assoc]
    exact .space hc

/-- What the second text begins with begins the first, or there is a blank in it behind
what does. -/
theorem UpToBlank.of_prefix (h : UpToBlank s t) (hv : v <+: t) :
    v <+: s ∨ ∃ w b z, v = w ++ b :: z ∧ w <+: s ∧ isBlank b = true := by
  have behind {w z : List Char} {b : Char} (hw : w <+: s) (hb : isBlank b = true)
      (hv : v <+: w ++ b :: z) :
      v <+: s ∨ ∃ w b z, v = w ++ b :: z ∧ w <+: s ∧ isBlank b = true := by
    rcases List.prefix_or_prefix_of_prefix hv (List.prefix_append w (b :: z)) with
      hshort | ⟨r, rfl⟩
    · exact .inl (hshort.trans hw)
    · cases r with
      | nil => exact .inl (by rwa [List.append_nil])
      | cons d r =>
        obtain ⟨rest, hrest⟩ := (List.prefix_append_right_inj w).1 hv
        obtain ⟨rfl, -⟩ := List.cons.inj hrest
        exact .inr ⟨w, d, r, rfl, hw, hb⟩
  cases h with
  | same => exact .inl hv
  | line => exact behind List.prefix_rfl (by decide) hv
  | space hc => exact behind (List.prefix_append _ _) (by decide) hv

/-- A lexeme with a blank in it is a string. -/
theorem IsLexeme.eq_quote_of_mem (h : IsLexeme (c :: u)) (hmem : b ∈ u) (hb : isBlank b = true) :
    c = '"' := by
  have hapart : Apart .slash [b] := fun d hd => .inl (Option.some.inj hd ▸ hb)
  have hends := hapart.ends rfl
  rcases h.cases with ⟨k, h⟩ | ⟨-, hnumber⟩ | ⟨rfl, -⟩ | ⟨-, hword⟩
  · rcases eq_nil_or_wide h with rfl | ⟨rfl, -⟩
    · exact absurd hmem List.not_mem_nil
    · exact absurd (List.mem_singleton.1 hmem) hends.1
  · have hno := hends.2.2.1
    rcases hnumber with hall | ⟨whole, frac, htext, hwhole, -, hfrac⟩
    · exact nomatch hno.symm.trans (hall b (List.mem_cons_of_mem _ hmem))
    · have hb' : b ∈ whole ++ '.' :: frac := htext ▸ List.mem_cons_of_mem _ hmem
      rcases List.mem_append.1 hb' with hb' | hb'
      · exact nomatch hno.symm.trans (hwhole b hb')
      rcases List.mem_cons.1 hb' with hb' | hb'
      · exact absurd hb' hends.2.1
      · exact nomatch hno.symm.trans (hfrac b hb')
  · rfl
  · exact nomatch hends.2.2.2.symm.trans (hword b hmem)

/-- A closed string goes on to no longer lexeme. -/
theorem IsLexeme.not_behind_string (h : IsLexeme ('"' :: u)) (hv : v ≠ []) :
    ¬IsLexeme ('"' :: u ++ v) := by
  intro hlong
  obtain ⟨body, -, rfl⟩ := h.of_quote
  obtain ⟨body', hbody', heq⟩ := hlong.of_quote
  have hlast := congrArg List.dropLast heq
  rw [List.append_eq, List.dropLast_concat, List.dropLast_append_of_ne_nil hv] at hlast
  exact hbody' (hlast ▸ by simp)

/-- A longest lexeme is the longest where the text behind it goes on so. -/
theorem Longest.upToBlank (h : Longest u s) (hu : IsLexeme u) (ht : UpToBlank s t) :
    Longest u t := by
  intro v hv hprefix
  rcases ht.of_prefix hprefix with hprefix | ⟨w, b, z, rfl, hw, hb⟩
  · exact h v hv hprefix
  cases u with
  | nil => exact absurd hu not_isLexeme_nil
  | cons c u =>
    refine ⟨fun hlong => ?_, fun ⟨z', hz'⟩ => ?_⟩
    · have hmem : b ∈ u ++ (w ++ b :: z) := by simp
      obtain rfl := hlong.eq_quote_of_mem hmem hb
      exact hu.not_behind_string hv hlong
    · -- the second slash of a comment would stand in both texts
      obtain ⟨rfl, htail⟩ := List.cons.inj hz'
      rcases hu.of_mark (by decide) with rfl | ⟨-, hwide⟩
      · cases w with
        | nil =>
          obtain ⟨rfl, -⟩ := List.cons.inj htail
          exact absurd hb (by decide)
        | cons d w =>
          obtain ⟨rfl, -⟩ := List.cons.inj htail
          have hslash : ['/'] <+: s := List.IsPrefix.trans ⟨w, rfl⟩ hw
          exact absurd ⟨[], rfl⟩ (h ['/'] (by simp) hslash).2
      · exact absurd hwide (by decide)

/-- **A piece stays one if the text behind it changes from a blank on**, unless it is a
string that is not closed. -/
theorem Cuts.upToBlank (h : Cuts p s) (hp : p.shape ≠ .openString) (ht : UpToBlank s t) :
    Cuts p t := by
  cases h with
  | blank hblank => exact .blank hblank
  | comment hbody hnext =>
    refine .comment hbody fun d hd => ?_
    cases ht with
    | same => exact hnext d hd
    | line =>
      cases s with
      | nil => exact (Option.some.inj hd).symm
      | cons => exact hnext d hd
    | @space w c _ _ hc =>
      cases w with
      | nil =>
        obtain rfl := hnext c rfl
        exact absurd hc (by decide)
      | cons => exact hnext d hd
  | lexeme hbelongs hlongest => exact .lexeme hbelongs (hlongest.upToBlank ⟨_, _, hbelongs⟩ ht)
  | stray hblank hno => exact .stray hblank hno
  | openString => exact absurd rfl hp

end Scan
end LoxFront
