/-
# A lexeme that stands apart is read again

A lexeme that no character behind it can make longer is the first piece of the text
it begins (`Scan.Belongs.first`), so a text is a lexeme of one kind with one value
at most (`Scan.Belongs.unique`).  The tokens of a source text are lexemes, each with
the kind and the value of its text, and the end marker (`Scan.tokens_eq_ok`).
-/

import LoxFront.Proofs.Scan.Cuts
import LoxFront.Scan.Item
import Mathlib.Data.List.TakeWhile

namespace LoxFront
namespace Scan

/-- A lexeme of this kind ends before this text: a blank follows, or a slash, or nothing. -/
def Apart (k : Kind) (rest : List Char) : Prop :=
  ∀ b ∈ rest.head?, isBlank b = true ∨ b = '/' ∧ k ≠ .slash

/-- At the end of a text every lexeme is apart from what follows. -/
theorem apart_nil (k : Kind) : Apart k [] := fun _ hb => nomatch hb

/-! ### Which characters end a lexeme -/

variable {c : Char} {cs u rest : List Char} {k : Kind} {payload : Payload}

/-- There are four blanks. -/
theorem mem_of_isBlank (h : isBlank c = true) : c ∈ [' ', '\t', '\r', '\n'] := by
  simpa [isBlank, or_assoc] using h

/-- A blank begins no lexeme. -/
theorem not_begins_of_isBlank (h : isBlank c = true) :
    c ∉ marks ∧ c.isDigit = false ∧ c ≠ '"' ∧ isWordStart c = false := by
  have hall : ∀ d ∈ [' ', '\t', '\r', '\n'],
      d ∉ marks ∧ d.isDigit = false ∧ d ≠ '"' ∧ isWordStart d = false :=
    List.all_iff_forall_prop.1 (by decide)
  exact hall c (mem_of_isBlank h)

/-- What follows a lexeme goes on with none but a comment. -/
theorem Apart.ends (h : Apart k rest) {b : Char} (hb : b ∈ rest.head?) :
    b ≠ '=' ∧ b ≠ '.' ∧ b.isDigit = false ∧ isWordRest b = false := by
  have hall : ∀ d ∈ [' ', '\t', '\r', '\n', '/'],
      d ≠ '=' ∧ d ≠ '.' ∧ d.isDigit = false ∧ isWordRest d = false :=
    List.all_iff_forall_prop.1 (by decide)
  refine hall b ?_
  rcases h b hb with hblank | ⟨rfl, -⟩
  · have := mem_of_isBlank hblank
    grind
  · decide

/-- A stretch of characters of a class ends where none follows. -/
theorem stretch_append {p : Char → Bool} (hu : ∀ d ∈ u, p d = true)
    (hrest : ∀ b ∈ rest.head?, p b = false) :
    (u ++ rest).takeWhile p = u ∧ (u ++ rest).dropWhile p = rest := by
  rw [List.takeWhile_append_of_pos hu, List.dropWhile_append_of_pos hu]
  cases rest with
  | nil => simp
  | cons b rest => simp [hrest b rfl]

/-- A stretch of characters of a class ends before one that is not of the class. -/
theorem stretch_before {p : Char → Bool} (hu : ∀ d ∈ u, p d = true) (hc : p c = false)
    (s : List Char) : (u ++ c :: s).takeWhile p = u ∧ (u ++ c :: s).dropWhile p = c :: s := by
  refine stretch_append hu fun b hb => ?_
  obtain rfl := Option.some.inj hb
  exact hc

/-! ### The first piece, by the first character -/

/-- No mark is a blank. -/
theorem not_isBlank_of_mem_marks (h : c ∈ marks) : isBlank c = false :=
  Bool.eq_false_iff.2 fun hblank => (not_begins_of_isBlank hblank).1 h

/-- A blank is cut off alone. -/
theorem first_of_isBlank (h : isBlank c = true) (cs : List Char) :
    first c cs = (⟨.blank, [c]⟩, cs) := by
  rw [first, if_pos h]

/-- What a slash begins is left to the rule for slashes. -/
theorem first_slash (cs : List Char) : first '/' cs = slash cs := rfl

/-- A mark that is no operator is cut off alone, whatever follows. -/
theorem first_of_mark (h : mark? c = some k) (cs : List Char) :
    first c cs = (⟨.lexeme k .none, [c]⟩, cs) := by
  rw [first, not_isBlank_of_mem_marks (head_mem_marks (mark?_cases h).1), h]
  rfl

/-- What an operator begins is left to the rule for operators, with its two kinds. -/
theorem first_of_operator {alone wide : Kind} (h : operator? c = some (alone, wide))
    (cs : List Char) : first c cs = operator c alone wide cs := by
  have hmark : mark? c = none := by
    cases hmark : mark? c with
    | none => rfl
    | some k => exact nomatch h.symm.trans (mark?_cases hmark).2.1
  rw [first, not_isBlank_of_mem_marks (head_mem_marks (operator?_cases h).1), hmark, h]
  rfl

/-- Behind the marks and operators it is a digit or a word that settles the piece. -/
theorem first_of_not_mem_marks (hblank : isBlank c = false) (hmark : c ∉ marks) (hquote : c ≠ '"')
    (cs : List Char) :
    first c cs = if c.isDigit then number c cs
      else if isWordStart c then word c cs else (⟨.stray c, [c]⟩, cs) := by
  have hnone : mark? c = none := by
    cases h : mark? c with
    | none => rfl
    | some k => exact absurd (head_mem_marks (mark?_cases h).1) hmark
  have hno : operator? c = none := by
    cases h : operator? c with
    | none => rfl
    | some kinds => exact absurd (head_mem_marks (operator?_cases h).1) hmark
  have hslash : c ≠ '/' := by
    rintro rfl
    exact hmark (by decide)
  rw [first, hblank, hnone, hno]
  simp only [Bool.false_eq_true, if_false, if_neg hslash, if_neg hquote]

/-- What a digit begins is left to the rule for numbers. -/
theorem first_of_isDigit (h : c.isDigit = true) (cs : List Char) : first c cs = number c cs := by
  have hblank : isBlank c = false :=
    Bool.eq_false_iff.2 fun hb => nomatch h.symm.trans (not_begins_of_isBlank hb).2.1
  have hmark : c ∉ marks := fun hm => nomatch h.symm.trans (not_of_mem_marks hm).1
  have hquote : c ≠ '"' := by
    rintro rfl
    exact absurd h (by decide)
  rw [first_of_not_mem_marks hblank hmark hquote, if_pos h]

/-- What a letter begins is left to the rule for words. -/
theorem first_of_isWordStart (h : isWordStart c = true) (cs : List Char) :
    first c cs = word c cs := by
  have hblank : isBlank c = false :=
    Bool.eq_false_iff.2 fun hb => nomatch h.symm.trans (not_begins_of_isBlank hb).2.2.2
  have hmark : c ∉ marks := fun hm => nomatch h.symm.trans (not_of_mem_marks hm).2.2
  have hquote : c ≠ '"' := by
    rintro rfl
    exact absurd h (by decide)
  have hdigit : ¬c.isDigit = true := fun hd => nomatch h.symm.trans (not_isWordStart_of_isDigit hd)
  rw [first_of_not_mem_marks hblank hmark hquote, if_neg hdigit, if_pos h]

/-! ### A lexeme is read again -/

/-- What each mark and operator is to the scan. -/
theorem fixed_cases (h : (c :: u, k) ∈ fixed) :
    (u = [] ∧ mark? c = some k) ∨ (u = [] ∧ c = '/' ∧ k = .slash) ∨
      (u = [] ∧ (operator? c).map Prod.fst = some k) ∨
      (u = ['='] ∧ (operator? c).map Prod.snd = some k) := by
  have hall : ∀ e ∈ fixed, (e.1.tail = [] ∧ e.1.head?.bind mark? = some e.2) ∨
      (e.1.tail = [] ∧ e.1.head? = some '/' ∧ e.2 = .slash) ∨
      (e.1.tail = [] ∧ (e.1.head?.bind operator?).map Prod.fst = some e.2) ∨
      (e.1.tail = ['='] ∧ (e.1.head?.bind operator?).map Prod.snd = some e.2) := by decide
  simpa using hall _ h

/-- A lexeme of fixed spelling is cut off whole if what follows is apart from it. -/
theorem fixed_first (h : (c :: u, k) ∈ fixed) (hrest : Apart k rest) :
    first c (u ++ rest) = (⟨.lexeme k .none, c :: u⟩, rest) := by
  rcases fixed_cases h with ⟨rfl, hmark⟩ | ⟨rfl, rfl, rfl⟩ | ⟨rfl, hop⟩ | ⟨rfl, hop⟩
  · exact first_of_mark hmark _
  · rw [first_slash, List.nil_append]
    unfold slash
    split
    · next rest => simpa [isBlank] using hrest '/' rfl
    · rfl
  · obtain ⟨⟨alone, wide⟩, hkinds, rfl⟩ := Option.map_eq_some_iff.1 hop
    rw [first_of_operator hkinds, List.nil_append]
    unfold operator
    split
    · next rest => exact absurd rfl (hrest.ends rfl).1
    · rfl
  · obtain ⟨⟨alone, wide⟩, hkinds, rfl⟩ := Option.map_eq_some_iff.1 hop
    rw [first_of_operator hkinds]
    rfl

/-- A whole number is cut off whole if neither a digit nor a fraction follows. -/
theorem whole_first (hdigits : ∀ d ∈ c :: u, d.isDigit = true) (hrest : Apart .number rest) :
    first c (u ++ rest) = (⟨numeral (c :: u) [], c :: u⟩, rest) := by
  obtain ⟨hc, hu⟩ := List.forall_mem_cons.1 hdigits
  obtain ⟨htake, hdrop⟩ := stretch_append hu fun b hb => (hrest.ends hb).2.2.1
  rw [first_of_isDigit hc, number, htake, hdrop]
  split
  · next d rest => exact absurd rfl (hrest.ends rfl).2.1
  · rfl

/-- A number with a fraction is cut off whole if no digit follows. -/
theorem fraction_first {frac : List Char} (hdigits : ∀ d ∈ c :: u, d.isDigit = true)
    (hne : frac ≠ []) (hfrac : ∀ d ∈ frac, d.isDigit = true) (hrest : Apart .number rest) :
    first c (u ++ '.' :: frac ++ rest) =
      (⟨numeral (c :: u) frac, c :: u ++ '.' :: frac⟩, rest) := by
  obtain ⟨hc, hu⟩ := List.forall_mem_cons.1 hdigits
  obtain ⟨d, frac, rfl⟩ := List.exists_cons_of_ne_nil hne
  obtain ⟨hd, hfrac⟩ := List.forall_mem_cons.1 hfrac
  obtain ⟨htake, hdrop⟩ := stretch_before hu (show Char.isDigit '.' = false by decide)
    (d :: (frac ++ rest))
  obtain ⟨hmore, hbehind⟩ := stretch_append hfrac fun b hb => (hrest.ends hb).2.2.1
  have htext : u ++ '.' :: d :: frac ++ rest = u ++ '.' :: d :: (frac ++ rest) := by
    rw [List.append_assoc, List.cons_append, List.cons_append]
  rw [first_of_isDigit hc, htext, number, htake, hdrop]
  simp only [if_pos hd, hmore, hbehind]

/-- A string is cut off up to its closing quote, whatever follows. -/
theorem string_first {body : List Char} (hbody : '"' ∉ body) (rest : List Char) :
    first '"' (body ++ ['"'] ++ rest) =
      (⟨.lexeme .string (.text (String.ofList body)), '"' :: body ++ ['"']⟩, rest) := by
  have hall : ∀ d ∈ body, (d != '"') = true := fun d hd => by
    rw [bne_iff_ne]
    rintro rfl
    exact hbody hd
  have hquote : ('"' != '"') = false := by decide
  obtain ⟨htake, hdrop⟩ := stretch_before hall hquote rest
  show quote (body ++ ['"'] ++ rest) = _
  rw [List.append_assoc, List.singleton_append, quote, htake, hdrop]

/-- A word is cut off whole if nothing follows that words are made of. -/
theorem word_first (hc : isWordStart c = true) (hu : ∀ d ∈ u, isWordRest d = true)
    (hrest : Apart k rest) :
    first c (u ++ rest) = (⟨.lexeme (.ofWord (String.ofList (c :: u))) .none, c :: u⟩, rest) := by
  obtain ⟨htake, hdrop⟩ := stretch_append hu fun b hb => (hrest.ends hb).2.2.2
  rw [first_of_isWordStart hc, word, htake, hdrop]

/-- No reserved word stands in the table twice. -/
theorem ofWord_of_mem_reserved {word : String} (h : (word, k) ∈ Kind.reserved) :
    Kind.ofWord word = k := by
  have hall : ∀ e ∈ Kind.reserved, Kind.ofWord e.1 = e.2 := by decide
  exact hall _ h

/-- A word that is not reserved is an identifier. -/
theorem ofWord_of_not_mem {word : String} (h : word ∉ Kind.reserved.map Prod.fst) :
    Kind.ofWord word = .identifier := by
  rw [Kind.ofWord, List.lookup_eq_none_iff.2 fun e he => ?_]
  · rfl
  · rw [bne_iff_ne]
    rintro rfl
    exact h (List.mem_map_of_mem he)

/-- **A lexeme that stands apart is the first piece of the text it begins.** -/
theorem Belongs.first (h : Belongs k payload (c :: u)) (hrest : Apart k rest) :
    first c (u ++ rest) = (⟨.lexeme k payload, c :: u⟩, rest) := by
  generalize htext : c :: u = text at h
  cases h with
  | fixed h =>
    subst htext
    exact fixed_first h hrest
  | whole hne hall =>
    subst htext
    rw [whole_first hall hrest, numeral, List.append_nil]
    rfl
  | @fraction whole frac hne hwhole hfrac hall =>
    obtain ⟨d, whole, rfl⟩ := List.exists_cons_of_ne_nil hne
    obtain ⟨rfl, rfl⟩ := List.cons.inj htext
    exact fraction_first hwhole hfrac hall hrest
  | string hbody =>
    obtain ⟨rfl, rfl⟩ := List.cons.inj htext
    exact string_first hbody rest
  | @reserved word k h =>
    obtain ⟨d, v, hd, hstart, hall⟩ := word_of_mem_reserved h
    obtain ⟨rfl, rfl⟩ := List.cons.inj (htext.trans hd)
    rw [word_first hstart hall hrest, hd.symm, String.ofList_toList, ofWord_of_mem_reserved h]
  | name hstart hall hno =>
    obtain ⟨rfl, rfl⟩ := List.cons.inj htext
    rw [word_first hstart hall hrest, ofWord_of_not_mem hno]

/-- **A text is a lexeme of one kind with one value at most.** -/
theorem Belongs.unique {k' : Kind} {payload' : Payload} {text : List Char}
    (h : Belongs k payload text) (h' : Belongs k' payload' text) : k = k' ∧ payload = payload' := by
  cases text with
  | nil => exact absurd ⟨k, payload, h⟩ not_isLexeme_nil
  | cons c u =>
    have heq := (h.first (apart_nil k)).symm.trans (h'.first (apart_nil k'))
    simpa using heq

/-! ### The tokens of a source text -/

/-- Finds without a diagnostic are tokens. -/
theorem eq_map_token {l : List Item} (h : l.filterMap Item.diagnostic? = []) :
    l = (l.filterMap Item.token?).map Item.token := by
  induction l with
  | nil => rfl
  | cons i l ih =>
    cases i with
    | token t => exact congrArg (.token t :: ·) (ih h)
    | trouble line cause => exact nomatch h

/-- A scan gives tokens exactly if all that it finds are tokens. -/
theorem tokens_eq_ok_iff {source : String} {ts : List Token} :
    tokens source = .ok ts ↔ items source = ts.map Item.token := by
  have hdiagnostics (ts : List Token) :
      (ts.map Item.token).filterMap Item.diagnostic? = [] := by
    induction ts with
    | nil => rfl
    | cons t ts ih => exact ih
  have htokens (ts : List Token) : (ts.map Item.token).filterMap Item.token? = ts := by
    induction ts with
    | nil => rfl
    | cons t ts ih => exact congrArg (t :: ·) ih
  rw [tokens, troubles]
  constructor
  · intro h
    split at h
    · next hempty =>
      rw [eq_map_token (List.isEmpty_iff.1 hempty), Except.ok.inj h]
    · exact nomatch h
  · intro h
    rw [h, hdiagnostics, htokens]
    rfl

/-- All finds are left by pieces, but the last. -/
theorem itemsFrom_concat (line : Nat) (ps : List Piece) :
    ∃ found n, itemsFrom line ps = found ++ [.token (.atEnd n)] ∧
      ∀ i ∈ found, ∃ p ∈ ps, ∃ line, p.item? line = some i := by
  induction ps generalizing line with
  | nil => exact ⟨[], line, rfl, fun _ hi => nomatch hi⟩
  | cons p ps ih =>
    obtain ⟨found, n, hfound, hall⟩ := ih (line + newlines p.text)
    refine ⟨(p.item? (line + newlines p.text)).toList ++ found, n, ?_, fun i hi => ?_⟩
    · rw [itemsFrom, hfound, List.append_assoc]
    · rcases List.mem_append.1 hi with hi | hi
      · exact ⟨p, List.mem_cons_self, _, Option.mem_toList.1 hi⟩
      · obtain ⟨q, hq, hline⟩ := hall i hi
        exact ⟨q, List.mem_cons_of_mem _ hq, hline⟩

/-- The token of a piece has the kind and the payload that belong to its text. -/
theorem Cuts.belongs_of_item {p : Piece} (h : Cuts p rest) {line : Nat} {t : Token}
    (hitem : p.item? line = some (.token t)) : Belongs t.kind t.payload t.lexeme.toList := by
  cases h with
  | blank | comment | stray | openString => exact nomatch hitem
  | lexeme hbelongs =>
    obtain rfl := Item.token.inj (Option.some.inj hitem)
    rwa [String.toList_ofList]

/-- **The tokens of a source text are lexemes, and the end marker.** -/
theorem tokens_eq_ok {source : String} {ts : List Token} (h : tokens source = .ok ts) :
    ∃ body line, ts = body ++ [.atEnd line] ∧
      ∀ t ∈ body, Belongs t.kind t.payload t.lexeme.toList := by
  obtain ⟨found, line, hfound, hall⟩ := itemsFrom_concat 1 (pieces source.toList)
  have hmap : found ++ [.token (.atEnd line)] = ts.map Item.token :=
    hfound.symm.trans (tokens_eq_ok_iff.1 h)
  obtain ⟨body, last, rfl, hbody, hlast⟩ := List.append_eq_map_iff.1 hmap
  obtain ⟨marker, rfl, hmarker⟩ := List.map_eq_singleton_iff.1 hlast
  obtain rfl := Item.token.inj hmarker
  refine ⟨body, line, rfl, fun t ht => ?_⟩
  obtain ⟨p, hp, n, hitem⟩ := hall (.token t) (hbody ▸ List.mem_map_of_mem ht)
  obtain ⟨l, r, hsplit⟩ := List.append_of_mem hp
  exact (pieces_cut hsplit).belongs_of_item hitem

end Scan
end LoxFront
