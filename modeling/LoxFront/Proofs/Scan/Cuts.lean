/-
# Every piece is as long as it can be

What is known of a piece and of the text behind it, by the shape of the piece
(`Scan.Cuts`): a lexeme belongs to the language of its kind and no longer one stands
there, a comment goes on to the end of its line, a stray character begins no
lexeme, and a string that is not closed has no second quote.  Each piece of a
source text is of this kind (`Scan.pieces_cut`).
-/

import LoxFront.Proofs.Scan.Lexeme

namespace LoxFront
namespace Scan

/-- No longer lexeme stands here, and no comment. -/
def Longest (text rest : List Char) : Prop :=
  ∀ v, v ≠ [] → v <+: rest → ¬IsLexeme (text ++ v) ∧ ¬StartsComment (text ++ v)

/-- What a piece is, before the rest of the text. -/
inductive Cuts : Piece → List Char → Prop where
  | blank {c : Char} {rest : List Char} : isBlank c = true → Cuts ⟨.blank, [c]⟩ rest
  | comment {body rest : List Char} : '\n' ∉ body → (∀ d ∈ rest.head?, d = '\n') →
    Cuts ⟨.comment, '/' :: '/' :: body⟩ rest
  | lexeme {k : Kind} {payload : Payload} {text rest : List Char} :
    Belongs k payload text → Longest text rest → Cuts ⟨.lexeme k payload, text⟩ rest
  | stray {c : Char} {rest : List Char} : isBlank c = false → (∀ u, ¬IsLexeme (c :: u)) →
    Cuts ⟨.stray c, [c]⟩ rest
  | openString {body : List Char} : '"' ∉ body → Cuts ⟨.openString, '"' :: body⟩ []

/-! ### Stretches of characters -/

/-- What is taken under a test passes it. -/
theorem of_mem_takeWhile {p : Char → Bool} {s : List Char} {d : Char} (h : d ∈ s.takeWhile p) :
    p d = true := List.all_eq_true.1 List.all_takeWhile d h

/-- What follows it does not. -/
theorem of_head?_dropWhile {p : Char → Bool} {s : List Char} :
    ∀ d ∈ (s.dropWhile p).head?, p d = false := by
  intro d hd
  have h := List.head?_dropWhile_not p s
  rw [show (s.dropWhile p).head? = some d from hd] at h
  exact h

/-- What a text begins with shows in its first character. -/
theorem head?_of_begins {d : Char} {u rest : List Char} (h : d :: u <+: rest) :
    rest.head? = some d := by
  obtain ⟨w, rfl⟩ := h
  rfl

/-- Only a slash starts a comment. -/
theorem not_startsComment {c : Char} {u : List Char} (h : c ≠ '/') : ¬StartsComment (c :: u) := by
  rintro ⟨v, hv⟩
  exact h (List.cons.inj hv).1.symm

/-- A text is as long as it can be if nothing longer is a lexeme and it is no slash. -/
theorem longest_of {c : Char} {text rest : List Char} (hc : c ≠ '/')
    (h : ∀ d u, d :: u <+: rest → ¬IsLexeme (c :: text ++ d :: u)) : Longest (c :: text) rest := by
  intro v hv hprefix
  cases v with
  | nil => exact absurd rfl hv
  | cons d u => exact ⟨h d u hprefix, not_startsComment hc⟩

/-- Where the characters of a class end is settled. -/
theorem split_unique {p : Char → Bool} {a b x y : List Char} {d e : Char}
    (ha : ∀ c ∈ a, p c = true) (hb : ∀ c ∈ b, p c = true) (hd : p d = false) (he : p e = false)
    (h : a ++ d :: x = b ++ e :: y) : a = b ∧ d = e ∧ x = y := by
  induction a generalizing b with
  | nil =>
    cases b with
    | nil => exact ⟨rfl, List.cons.inj h⟩
    | cons c b =>
      obtain ⟨rfl, -⟩ := List.cons.inj h
      exact nomatch hd.symm.trans (hb d List.mem_cons_self)
  | cons c a ih =>
    cases b with
    | nil =>
      obtain ⟨rfl, -⟩ := List.cons.inj h
      exact nomatch he.symm.trans (ha c List.mem_cons_self)
    | cons c' b =>
      obtain ⟨rfl, htail⟩ := List.cons.inj h
      obtain ⟨rfl, hrest⟩ := ih (fun c hc => ha c (List.mem_cons_of_mem _ hc))
        (fun c hc => hb c (List.mem_cons_of_mem _ hc)) htail
      exact ⟨rfl, hrest⟩

/-! ### Marks and operators -/

/-- A mark that is no operator is a lexeme of its own, and no slash. -/
theorem mark?_cases {c : Char} {k : Kind} (h : mark? c = some k) :
    ([c], k) ∈ fixed ∧ operator? c = none ∧ c ≠ '/' := by
  unfold mark? at h
  split at h <;> simp only [Option.some.injEq, reduceCtorEq] at h <;> subst h <;> decide

/-- Such a mark is the longest lexeme at its place. -/
theorem mark_cuts {c : Char} {k : Kind} (h : mark? c = some k) (cs : List Char) :
    Cuts ⟨.lexeme k .none, [c]⟩ cs := by
  obtain ⟨hfixed, hoperator, hslash⟩ := mark?_cases h
  refine .lexeme (.fixed hfixed) (longest_of hslash fun d u _ hlexeme => ?_)
  rcases hlexeme.of_mark (head_mem_marks hfixed) with hnil | ⟨-, hwide⟩
  · exact nomatch hnil
  · rw [hoperator] at hwide
    exact nomatch hwide

/-- An operator is a lexeme alone and with an equals sign behind it, and no slash. -/
theorem operator?_cases {c : Char} {alone wide : Kind} (h : operator? c = some (alone, wide)) :
    ([c], alone) ∈ fixed ∧ ([c, '='], wide) ∈ fixed ∧ c ≠ '/' := by
  unfold operator? at h
  split at h <;> simp only [Option.some.injEq, Prod.mk.injEq, reduceCtorEq] at h <;>
    obtain ⟨rfl, rfl⟩ := h <;> decide

/-- Of the two lexemes of an operator the longer one is cut off if it stands there. -/
theorem operator_cuts {c : Char} {alone wide : Kind} (h : operator? c = some (alone, wide))
    (cs : List Char) : Cuts (operator c alone wide cs).1 (operator c alone wide cs).2 := by
  obtain ⟨halone, hwide, hslash⟩ := operator?_cases h
  have hmark : c ∈ marks := head_mem_marks halone
  unfold operator
  split
  · refine .lexeme (.fixed hwide) (longest_of hslash fun d u _ hlexeme => ?_)
    rcases hlexeme.of_mark hmark with hnil | ⟨hequal, -⟩
    · exact nomatch hnil
    · exact nomatch (List.cons.inj hequal).2
  · next hno =>
    refine .lexeme (.fixed halone) (longest_of hslash fun d u hprefix hlexeme => ?_)
    rcases hlexeme.of_mark hmark with hnil | ⟨hequal, -⟩
    · exact nomatch hnil
    · obtain ⟨rfl, -⟩ := List.cons.inj hequal
      obtain ⟨w, rfl⟩ := hprefix
      exact hno _ rfl

/-- What begins with a slash is cut as a comment up to the end of the line, or as the lexeme. -/
theorem slash_cuts (cs : List Char) : Cuts (slash cs).1 (slash cs).2 := by
  unfold slash
  split
  · refine .comment (fun h => ?_) fun d hd => ?_
    · exact absurd (of_mem_takeWhile h) (by decide)
    · simpa using of_head?_dropWhile d hd
  · next hno =>
    refine .lexeme (.fixed (by decide)) fun v hv ⟨w, hw⟩ => ?_
    subst hw
    cases v with
    | nil => exact absurd rfl hv
    | cons d u =>
      refine ⟨fun hlexeme => ?_, ?_⟩
      · rcases hlexeme.of_mark (by decide) with hnil | ⟨-, hwide⟩
        · exact nomatch hnil
        · exact absurd hwide (by decide)
      · rintro ⟨x, hx⟩
        obtain ⟨rfl, -⟩ := List.cons.inj (List.cons.inj hx).2
        exact hno _ rfl

/-! ### Strings, numbers and words -/

/-- What begins with a quote is cut as a string up to the next quote, or as an open string to
the end. -/
theorem quote_cuts (cs : List Char) : Cuts (quote cs).1 (quote cs).2 := by
  have hbody : '"' ∉ cs.takeWhile (· != '"') := fun h => absurd (of_mem_takeWhile h) (by decide)
  unfold quote
  split
  · next q rest hdrop =>
    have hq : q = '"' := by
      have := of_head?_dropWhile (p := (· != '"')) (s := cs) q (by rw [hdrop]; rfl)
      simpa using this
    subst hq
    refine .lexeme (.string hbody) (longest_of (by decide) fun d u _ hlexeme => ?_)
    -- the quote in the middle would stand in the body
    obtain ⟨body, hnot, heq⟩ := hlexeme.of_quote
    refine hnot ?_
    have hlast : cs.takeWhile (· != '"') ++ ['"'] ++ d :: u = body ++ ['"'] := heq
    have hdropLast := congrArg List.dropLast hlast
    rw [List.dropLast_concat, List.dropLast_append_of_ne_nil (by simp)] at hdropLast
    rw [← hdropLast]
    simp
  · exact .openString hbody

section Number

variable {c : Char} {whole frac rest : List Char}

/-- A row of digits, before anything but a digit or a fraction. -/
theorem whole_cuts (hwhole : ∀ d ∈ c :: whole, d.isDigit = true)
    (hnext : ∀ d ∈ rest.head?, d.isDigit = false)
    (hno : ∀ d u, rest = '.' :: d :: u → d.isDigit = false) :
    Cuts ⟨numeral (c :: whole) [], c :: whole⟩ rest := by
  have hc := hwhole c List.mem_cons_self
  have hslash : c ≠ '/' := by rintro rfl; revert hc; decide
  have hbelongs : Belongs .number
      (.number (.ofDecimal (digitsValue (c :: whole ++ [])) 0)) (c :: whole) := by
    rw [List.append_nil]
    exact .whole (by simp) hwhole
  refine .lexeme hbelongs (longest_of hslash fun d u hprefix hlexeme => ?_)
  have hd := hnext d (head?_of_begins hprefix)
  rcases hlexeme.of_digit hc with hall | ⟨whole', frac', heq, hwhole', hne, hfrac'⟩
  · exact nomatch hd.symm.trans (hall d (by simp))
  · obtain ⟨-, rfl, rfl⟩ := split_unique hwhole hwhole' hd (by decide) heq
    obtain ⟨w, rfl⟩ := hprefix
    cases u with
    | nil => exact hne rfl
    | cons e u => exact nomatch (hno e _ rfl).symm.trans (hfrac' e List.mem_cons_self)

/-- A row of digits and a fraction, before anything but a digit. -/
theorem fraction_cuts (hwhole : ∀ d ∈ c :: whole, d.isDigit = true) (hne : frac ≠ [])
    (hfrac : ∀ d ∈ frac, d.isDigit = true) (hnext : ∀ d ∈ rest.head?, d.isDigit = false) :
    Cuts ⟨numeral (c :: whole) frac, c :: whole ++ '.' :: frac⟩ rest := by
  have hc := hwhole c List.mem_cons_self
  have hslash : c ≠ '/' := by rintro rfl; revert hc; decide
  refine .lexeme (.fraction (by simp) hwhole hne hfrac)
    (longest_of hslash fun d u hprefix hlexeme => ?_)
  have hd := hnext d (head?_of_begins hprefix)
  rcases hlexeme.of_digit hc with hall | ⟨whole', frac', heq, hwhole', -, hfrac'⟩
  · exact absurd (hall '.' (by simp)) (by decide)
  · have heq : c :: whole ++ '.' :: (frac ++ d :: u) = whole' ++ '.' :: frac' := by simpa using heq
    obtain ⟨-, -, rfl⟩ := split_unique hwhole hwhole' (by decide) (by decide) heq
    exact nomatch hd.symm.trans (hfrac' d (by simp))

end Number

/-- What begins with a digit is cut as the longest number that stands there. -/
theorem number_cuts {c : Char} (hc : c.isDigit = true) (cs : List Char) :
    Cuts (number c cs).1 (number c cs).2 := by
  have hdigits {d : Char} (hd : d.isDigit = true) (ds : List Char) :
      ∀ e ∈ d :: ds.takeWhile Char.isDigit, e.isDigit = true :=
    List.forall_mem_cons.2 ⟨hd, fun _ => of_mem_takeWhile⟩
  unfold number
  split
  · next d rest hdrop =>
    split
    · next hd => exact fraction_cuts (hdigits hc cs) (by simp) (hdigits hd rest) of_head?_dropWhile
    · next hd =>
      refine whole_cuts (hdigits hc cs) ?_ fun e u heq => ?_
      · rw [← hdrop]
        exact of_head?_dropWhile
      · obtain ⟨rfl, -⟩ := List.cons.inj (List.cons.inj heq).2
        exact Bool.eq_false_iff.2 hd
  · next hno =>
    exact whole_cuts (hdigits hc cs) of_head?_dropWhile fun e u heq => (hno e u heq).elim

/-- What begins with a letter is cut as the longest word that stands there. -/
theorem word_cuts {c : Char} (hc : isWordStart c = true) (cs : List Char) :
    Cuts (word c cs).1 (word c cs).2 := by
  have hslash : c ≠ '/' := by rintro rfl; revert hc; decide
  refine .lexeme ?_ (longest_of hslash fun d u hprefix hlexeme => ?_)
  · rw [Kind.ofWord]
    cases hlookup : Kind.reserved.lookup (String.ofList (c :: cs.takeWhile isWordRest)) with
    | none =>
      refine .name hc (fun _ => of_mem_takeWhile) fun hmem => ?_
      obtain ⟨e, he, heq⟩ := List.mem_map.1 hmem
      have := List.lookup_eq_none_iff.1 hlookup e he
      rw [heq] at this
      simp at this
    | some k =>
      obtain ⟨l, r, hreserved, -⟩ := List.lookup_eq_some_iff.1 hlookup
      have hmem : (String.ofList (c :: cs.takeWhile isWordRest), k) ∈ Kind.reserved := by
        rw [hreserved]
        simp
      have hbelongs := Belongs.reserved hmem
      rw [String.toList_ofList] at hbelongs
      exact hbelongs
  · have hrest := hlexeme.of_word hc d (by simp)
    exact nomatch hrest.symm.trans (of_head?_dropWhile d (head?_of_begins hprefix))

/-- Whatever a text begins with, the first piece is cut as the language of the lexemes has it. -/
theorem first_cuts (c : Char) (cs : List Char) : Cuts (first c cs).1 (first c cs).2 := by
  unfold first
  split
  · next h => exact .blank h
  · next hblank =>
    split
    · next k _ hmark => exact mark_cuts hmark cs
    · next alone wide _ hop => exact operator_cuts hop cs
    · next hmark hop =>
      split
      · exact slash_cuts cs
      split
      · exact quote_cuts cs
      split
      · next h => exact number_cuts h cs
      split
      · next h => exact word_cuts h cs
      · next hslash hquote hdigit hword =>
        refine .stray (Bool.eq_false_iff.2 hblank) fun u => ?_
        refine not_isLexeme (fun hmem => ?_) (Bool.eq_false_iff.2 hdigit) hquote
          (Bool.eq_false_iff.2 hword)
        have hall : ∀ d ∈ marks, d = '/' ∨ (mark? d).isSome ∨ (operator? d).isSome :=
          List.all_iff_forall_prop.1 (by decide)
        rcases hall c hmem with h | h | h
        · exact hslash h
        · rw [hmark] at h
          exact nomatch h
        · rw [hop] at h
          exact nomatch h

/-- **Every piece is as long as it can be**, whatever comes before it. -/
theorem pieces_cut {s : List Char} {l r : List Piece} {p : Piece} (h : pieces s = l ++ p :: r) :
    Cuts p (r.flatMap Piece.text) := by
  fun_induction pieces s generalizing l with
  | case1 => exact absurd (List.append_eq_nil_iff.1 h.symm).2 (List.cons_ne_nil p r)
  | case2 c cs ih =>
    cases l with
    | nil =>
      obtain ⟨rfl, rfl⟩ := List.cons.inj h
      rw [flatMap_pieces]
      exact first_cuts c cs
    | cons q l => exact ih (List.cons.inj h).2

end Scan
end LoxFront
