/-
# What lies between finds

A scan loses nothing.  The finds follow one another in the source, each takes up
exactly the characters that it stands for (`Scan.Stands`), and between them there
are only blanks and whole comments (`Scan.Gap`).  The walk over the bytes gives
these finds for every source, so it never reads or cuts where it may not
(`Scan.walk_covers`).
-/

import LoxFront.Proofs.Scan.Walk

namespace LoxFront
namespace Scan

/-- Blanks and whole comments, before the rest of the text. -/
inductive Gap : List Char → List Char → Prop where
  | nil {rest : List Char} : Gap [] rest
  | blank {c : Char} {gap rest : List Char} : c ∈ [' ', '\t', '\r', '\n'] → Gap gap rest →
    Gap (c :: gap) rest
  | comment {body gap rest : List Char} : '\n' ∉ body → (∀ d ∈ (gap ++ rest).head?, d = '\n') →
    Gap gap rest → Gap ('/' :: '/' :: body ++ gap) rest

/-- What takes up a text, before the rest: a token its own lexeme, a stray character
itself, an open string all that is left. -/
inductive Stands : Except Diagnostic Token → List Char → List Char → Prop where
  | token {t : Token} {rest : List Char} : t.kind ≠ .eof → t.lexeme.toList ≠ [] →
    Stands (.ok t) t.lexeme.toList rest
  | atEnd {line : Nat} : Stands (.ok (.atEnd line)) [] []
  | stray {line : Nat} {c : Char} {rest : List Char} :
    Stands (.error (.lexical line ("Unexpected character: " ++ String.singleton c))) [c] rest
  | openString {line : Nat} {body : List Char} : '"' ∉ body →
    Stands (.error (.lexical line "Unterminated string.")) ('"' :: body) []

/-- The byte behind the last of the finds, or where they began if there is none. -/
def endOf (offset : Nat) : List Find → Nat
  | [] => offset
  | f :: l => endOf f.last l

/-- No lexeme is the end of the input. -/
theorem Belongs.kind_ne_eof {k : Kind} {payload : Payload} {text : List Char}
    (h : Belongs k payload text) : k ≠ .eof := by
  cases h with
  | fixed h =>
    have hall : ∀ e ∈ Scan.fixed, e.2 ≠ .eof := by decide
    exact hall _ h
  | reserved h =>
    have hall : ∀ e ∈ Kind.reserved, e.2 ≠ .eof := by decide
    exact hall _ h
  | whole | fraction | string | name => decide

/-- What a piece leaves stands for its text. -/
theorem Cuts.stands {p : Piece} {rest : List Char} (h : Cuts p rest) {offset line : Nat} {f : Find}
    (hf : p.find? offset line = some f) :
    f.first = offset ∧ f.last = offset + size p.text ∧ Stands f.given.result p.text rest := by
  obtain ⟨i, hi, rfl⟩ := Option.map_eq_some_iff.1 hf
  refine ⟨rfl, rfl, ?_⟩
  cases h with
  | blank | comment => exact nomatch hi
  | @lexeme k payload text _ hbelongs =>
    obtain rfl := Option.some.inj hi
    have hne : text ≠ [] := by
      rintro rfl
      exact not_isLexeme_nil ⟨_, _, hbelongs⟩
    have hstands : Stands (.ok ⟨k, String.ofList text, line, payload⟩) (String.ofList text).toList
        rest := .token hbelongs.kind_ne_eof (by rwa [String.toList_ofList])
    rw [String.toList_ofList] at hstands
    exact hstands
  | stray =>
    obtain rfl := Option.some.inj hi
    exact .stray
  | openString hbody =>
    obtain rfl := Option.some.inj hi
    exact .openString hbody

/-- A piece that leaves nothing makes a gap longer. -/
theorem Cuts.gap {p : Piece} {gap rest : List Char} (h : Cuts p (gap ++ rest)) {offset line : Nat}
    (hf : p.find? offset line = none) (hgap : Gap gap rest) : Gap (p.text ++ gap) rest := by
  generalize hmore : gap ++ rest = more at h
  cases h with
  | blank hblank => exact .blank (by simpa [isBlank, or_assoc] using hblank) hgap
  | comment hbody hnext => exact .comment hbody (by rwa [hmore]) hgap
  | lexeme | stray | openString => exact absurd hf (Option.some_ne_none _)

/-- In a text whose first byte is at `offset` a find stands behind the byte `last` and a gap. -/
def StandsBehind (s : List Char) (offset last : Nat) (f : Find) : Prop :=
  ∃ before gap text rest, s = before ++ gap ++ text ++ rest ∧ offset + size before = last ∧
    f.first = last + size gap ∧ f.last = f.first + size text ∧ Gap gap (text ++ rest) ∧
    Stands f.given.result text rest

/-- A find stands where its text begins. -/
theorem StandsBehind.here {text rest : List Char} {offset : Nat} {f : Find}
    (hfirst : f.first = offset) (hlast : f.last = offset + size text)
    (h : Stands f.given.result text rest) : StandsBehind (text ++ rest) offset offset f :=
  ⟨[], [], text, rest, rfl, rfl, hfirst, by rw [hlast, hfirst], .nil, h⟩

/-- More text may come before. -/
theorem StandsBehind.behind {s : List Char} {offset last : Nat} {f : Find} (t : List Char)
    (h : StandsBehind s (offset + size t) last f) : StandsBehind (t ++ s) offset last f := by
  obtain ⟨before, gap, text, rest, rfl, hlast, h⟩ := h
  refine ⟨t ++ before, gap, text, rest, by simp, ?_, h⟩
  rw [size_append, ← Nat.add_assoc]
  exact hlast

/-- A piece that leaves nothing may come before, in the gap. -/
theorem StandsBehind.gap {p : Piece} {s : List Char} {offset line : Nat} {f : Find}
    (hp : Cuts p s) (hnone : p.find? offset line = none)
    (h : StandsBehind s (offset + size p.text) (offset + size p.text) f) :
    StandsBehind (p.text ++ s) offset offset f := by
  obtain ⟨before, gap, text, rest, rfl, hlast, hfirst, h, hgap, hstands⟩ := h
  obtain rfl : before = [] := by
    by_contra hne
    have hpos := size_pos hne
    omega
  refine ⟨[], p.text ++ gap, text, rest, by simp, rfl, ?_, h, ?_, hstands⟩
  · rw [hfirst, size_append]
    omega
  · exact Cuts.gap (by simpa using hp) hnone hgap

/-- A find stands behind the finds before it and a gap. -/
theorem findsFrom_split {ps : List Piece} {offset line : Nat} {l r : List Find} {f : Find}
    (hcut : ∀ a p b, ps = a ++ p :: b → Cuts p (b.flatMap Piece.text))
    (h : findsFrom offset line ps = l ++ f :: r) :
    StandsBehind (ps.flatMap Piece.text) offset (endOf offset l) f := by
  induction ps generalizing offset line l with
  | nil =>
    cases l with
    | nil =>
      obtain ⟨rfl, rfl⟩ := List.cons.inj h
      exact @StandsBehind.here [] [] offset _ rfl rfl .atEnd
    | cons g l => exact nomatch (List.append_eq_nil_iff.1 (List.cons.inj h).2.symm).2
  | cons p ps ih =>
    have hfirst := hcut [] p ps rfl
    have hcut' : ∀ a q b, ps = a ++ q :: b → Cuts q (b.flatMap Piece.text) :=
      fun a q b hsplit => hcut (p :: a) q b (by rw [hsplit]; rfl)
    rw [findsFrom] at h
    rw [List.flatMap_cons]
    cases hp : p.find? offset (line + newlines p.text) with
    | none =>
      rw [hp] at h
      cases l with
      | nil => exact .gap hfirst hp (ih hcut' h)
      | cons g l => exact .behind p.text (ih hcut' h)
    | some g =>
      obtain ⟨hg, hglast, hstands⟩ := hfirst.stands hp
      rw [hp] at h
      cases l with
      | nil =>
        obtain ⟨rfl, -⟩ := List.cons.inj h
        exact .here hg hglast hstands
      | cons g' l =>
        obtain ⟨rfl, htail⟩ := List.cons.inj h
        rw [endOf, hglast]
        exact .behind p.text (ih hcut' htail)

/-- Finds follow one another. -/
theorem findsFrom_pairwise (offset line : Nat) (ps : List Piece) :
    (findsFrom offset line ps).Pairwise (fun f g => f.last ≤ g.first) := by
  induction ps generalizing offset line with
  | nil => exact List.pairwise_singleton _ _
  | cons p ps ih =>
    rw [findsFrom, List.pairwise_append]
    refine ⟨?_, ih _ _, fun f hf g hg => ?_⟩
    · cases p.find? offset (line + newlines p.text) with
      | none => exact .nil
      | some f => exact List.pairwise_singleton _ _
    · obtain ⟨i, -, rfl⟩ := Option.map_eq_some_iff.1 (Option.mem_toList.1 hf)
      show offset + size p.text ≤ g.first
      rcases mem_findsFrom_iff.1 hg with ⟨l, q, r, -, hfind⟩ | rfl
      · obtain ⟨j, -, rfl⟩ := Option.map_eq_some_iff.1 hfind
        exact Nat.le_add_right _ _
      · exact Nat.le_add_right _ _

/-- The last find is the end of the input. -/
theorem findsFrom_getLast? (offset line : Nat) (ps : List Piece) :
    ∃ line', (findsFrom offset line ps).getLast? =
      some ⟨offset + size (ps.flatMap Piece.text), offset + size (ps.flatMap Piece.text),
        .token (.atEnd line')⟩ := by
  induction ps generalizing offset line with
  | nil => exact ⟨line, rfl⟩
  | cons p ps ih =>
    obtain ⟨line', h⟩ := ih (offset + size p.text) (line + newlines p.text)
    refine ⟨line', ?_⟩
    rw [findsFrom, List.getLast?_append, h, List.flatMap_cons, size_append, Nat.add_assoc]
    rfl

/-- **The scan loses nothing and never stops short.**  For every source the walk over
its bytes reads no byte out of range and cuts no slice out of range or inside a
character, and it gives the finds of the scan.  They follow one another; each begins
behind the one before it and a gap of blanks and whole comments, and takes up just
the text that it stands for; the last one is the end of the input, at the end. -/
theorem walk_covers (source : String) :
    walk source = some ((finds source).map Find.given) ∧
      (finds source).map Find.item = items source ∧
      (finds source).Pairwise (fun f g => f.last ≤ g.first) ∧
      (∀ l f r, finds source = l ++ f :: r →
        ∃ before gap text rest, source.toList = before ++ gap ++ text ++ rest ∧
          size before = endOf 0 l ∧ f.first = size (before ++ gap) ∧
          f.last = size (before ++ gap ++ text) ∧ Gap gap (text ++ rest) ∧
          Stands f.given.result text rest) ∧
      ∃ line, (finds source).getLast? =
        some ⟨size source.toList, size source.toList, .token (.atEnd line)⟩ := by
  refine ⟨walk_eq source, finds_map_item source, findsFrom_pairwise _ _ _, fun l f r h => ?_, ?_⟩
  · obtain ⟨before, gap, text, rest, hall, hend, hfirst, hlast, hgap, hstands⟩ :=
      findsFrom_split (fun a p b hsplit => pieces_cut hsplit) h
    rw [flatMap_pieces] at hall
    rw [Nat.zero_add] at hend
    refine ⟨before, gap, text, rest, hall, hend, ?_, ?_, hgap, hstands⟩
    · rw [hfirst, size_append, hend]
    · rw [hlast, hfirst, size_append, size_append, hend]
  · have h := findsFrom_getLast? 0 1 (pieces source.toList)
    rw [flatMap_pieces, Nat.zero_add] at h
    exact h

end Scan
end LoxFront
