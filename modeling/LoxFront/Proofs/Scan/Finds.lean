/-
# Where finds stand

The finds of a scan with the bytes that they take up (`Scan.finds`).  A find is
that of a piece, at the byte behind the pieces before it, or the end of the input
(`Scan.mem_finds_iff`).  A token stands for the longest lexeme at its place, and
where a piece begins there is an error exactly if no lexeme, no blank and no
comment begins (`Scan.finds_longest`).
-/

import LoxFront.Scan.Item
import LoxFront.Proofs.Scan.Cuts

namespace LoxFront
namespace Scan

/-- How many bytes a text takes. -/
def size : List Char → Nat
  | [] => 0
  | c :: s => c.utf8Size + size s

/-- No characters have no size. -/
@[simp] theorem size_nil : size [] = 0 := rfl

/-- The size of a text grows with each character by the number of its bytes. -/
@[simp] theorem size_cons (c : Char) (s : List Char) : size (c :: s) = c.utf8Size + size s := rfl

/-- Sizes add up. -/
@[simp] theorem size_append (s t : List Char) : size (s ++ t) = size s + size t := by
  induction s with
  | nil => exact (Nat.zero_add _).symm
  | cons c s ih => rw [List.cons_append, size_cons, size_cons, ih, Nat.add_assoc]

/-- What has a character has a byte. -/
theorem size_pos {s : List Char} (h : s ≠ []) : 0 < size s := by
  cases s with
  | nil => exact absurd rfl h
  | cons c s =>
    have hpos := c.utf8Size_pos
    rw [size_cons]
    omega

/-- There are at least as many bytes as characters. -/
theorem length_le_size (s : List Char) : s.length ≤ size s := by
  induction s with
  | nil => exact Nat.le_refl 0
  | cons c s ih =>
    have hpos := c.utf8Size_pos
    rw [size_cons, List.length_cons]
    omega

/-- A find with its first byte and the byte behind it. -/
structure Find where
  first : Nat
  last : Nat
  item : Item
  deriving DecidableEq, Repr

/-- The find of a piece that begins at a byte and ends on a line. -/
def Piece.find? (p : Piece) (offset line : Nat) : Option Find :=
  (p.item? line).map (⟨offset, offset + size p.text, ·⟩)

/-- The finds among pieces of a text that begins at a byte, on a line. -/
def findsFrom (offset line : Nat) : List Piece → List Find
  | [] => [⟨offset, offset, .token (.atEnd line)⟩]
  | p :: ps =>
    let line := line + newlines p.text
    (p.find? offset line).toList ++ findsFrom (offset + size p.text) line ps

/-- All finds in a source text, in order. -/
def finds (source : String) : List Find := findsFrom 0 1 (pieces source.toList)

/-- The finds with their places are the items of the scan. -/
theorem findsFrom_map_item (offset line : Nat) (ps : List Piece) :
    (findsFrom offset line ps).map Find.item = itemsFrom line ps := by
  induction ps generalizing offset line with
  | nil => rfl
  | cons p ps ih =>
    rw [findsFrom, itemsFrom, List.map_append, ih, Piece.find?]
    congr 1
    cases p.item? (line + newlines p.text) <;> rfl

/-- The finds are the items of the scan. -/
theorem finds_map_item (source : String) : (finds source).map Find.item = items source :=
  findsFrom_map_item 0 1 _

/-- Newlines add up. -/
theorem newlines_append (s t : List Char) : newlines (s ++ t) = newlines s + newlines t :=
  List.count_append

/-- A find is that of a piece, behind the pieces before it, or the end of the input. -/
theorem mem_findsFrom_iff {offset line : Nat} {ps : List Piece} {f : Find} :
    f ∈ findsFrom offset line ps ↔
      (∃ l p r, ps = l ++ p :: r ∧ p.find? (offset + size (l.flatMap Piece.text))
        (line + newlines (l.flatMap Piece.text) + newlines p.text) = some f) ∨
      f = ⟨offset + size (ps.flatMap Piece.text), offset + size (ps.flatMap Piece.text),
        .token (.atEnd (line + newlines (ps.flatMap Piece.text)))⟩ := by
  induction ps generalizing offset line with
  | nil => simp [findsFrom, newlines]
  | cons p ps ih =>
    rw [findsFrom, List.mem_append, Option.mem_toList, ih]
    simp only [List.flatMap_cons, size_append, newlines_append, ← Nat.add_assoc, ← or_assoc]
    refine or_congr_left ⟨?_, ?_⟩
    · rintro (hf | ⟨l, q, r, rfl, hf⟩)
      · exact ⟨[], p, ps, rfl, hf⟩
      · refine ⟨p :: l, q, r, rfl, ?_⟩
        simpa only [List.flatMap_cons, size_append, newlines_append, ← Nat.add_assoc] using hf
    · rintro ⟨l, q, r, hsplit, hf⟩
      cases l with
      | nil =>
        obtain ⟨rfl, rfl⟩ := List.cons.inj hsplit
        exact .inl hf
      | cons p' l =>
        obtain ⟨rfl, rfl⟩ := List.cons.inj hsplit
        refine .inr ⟨l, q, r, rfl, ?_⟩
        simpa only [List.flatMap_cons, size_append, newlines_append, ← Nat.add_assoc] using hf

/-- A find is that of a piece, at the place and on the line that the pieces before it make, or
the end marker behind all of them. -/
theorem mem_finds_iff {source : String} {f : Find} :
    f ∈ finds source ↔
      (∃ l p r, pieces source.toList = l ++ p :: r ∧ p.find? (size (l.flatMap Piece.text))
        (1 + newlines (l.flatMap Piece.text) + newlines p.text) = some f) ∨
      f = ⟨size source.toList, size source.toList,
        .token (.atEnd (1 + newlines source.toList))⟩ := by
  rw [finds, mem_findsFrom_iff, flatMap_pieces]
  simp only [Nat.zero_add]

/-! ### Places where a piece begins -/

/-- No piece is empty. -/
theorem text_ne_nil {s : List Char} {p : Piece} (h : p ∈ pieces s) : p.text ≠ [] := by
  fun_induction pieces s with
  | case1 => exact absurd h List.not_mem_nil
  | case2 c cs ih =>
    rcases List.mem_cons.1 h with rfl | h
    · exact first_ne_nil c cs
    · exact ih h

/-- The byte where a piece begins settles which piece it is. -/
theorem piece_unique {s : List Char} {l r l' r' : List Piece} {p p' : Piece}
    (h : pieces s = l ++ p :: r) (h' : pieces s = l' ++ p' :: r')
    (hsize : size (l.flatMap Piece.text) = size (l'.flatMap Piece.text)) :
    l = l' ∧ p = p' ∧ r = r' := by
  have hlt {a b : List Piece} {q : Piece} (hq : q ∈ pieces s) :
      size (a.flatMap Piece.text) < size ((a ++ q :: b).flatMap Piece.text) := by
    have hpos := size_pos (text_ne_nil hq)
    simp only [List.flatMap_append, List.flatMap_cons, size_append]
    omega
  rcases List.append_eq_append_iff.1 (h.symm.trans h') with ⟨a, rfl, ha⟩ | ⟨a, rfl, ha⟩
  · cases a with
    | nil =>
      obtain ⟨rfl, rfl⟩ := List.cons.inj ha
      exact ⟨(List.append_nil l).symm, rfl, rfl⟩
    | cons q a =>
      have := hlt (a := l) (b := a) (q := q) (by rw [h']; simp)
      omega
  · cases a with
    | nil =>
      obtain ⟨rfl, rfl⟩ := List.cons.inj ha
      exact ⟨List.append_nil l', rfl, rfl⟩
    | cons q a =>
      have := hlt (a := l') (b := a) (q := q) (by rw [h]; simp)
      omega

/-- A piece of the source begins between these two texts. -/
def GoesOn (source : String) (before rest : List Char) : Prop :=
  ∃ l p r, pieces source.toList = l ++ p :: r ∧ before = l.flatMap Piece.text ∧
    rest = p.text ++ r.flatMap Piece.text

/-- A place in a source has the source around it. -/
theorem GoesOn.source {source : String} {before rest : List Char} (h : GoesOn source before rest) :
    source.toList = before ++ rest := by
  obtain ⟨l, p, r, hsplit, rfl, rfl⟩ := h
  rw [← flatMap_pieces source.toList, hsplit, List.flatMap_append, List.flatMap_cons]

/-- The item is an error. -/
def Item.IsTrouble (i : Item) : Prop := ∃ line cause, i = .trouble line cause

/-- Where a piece is an error, no lexeme, blank or comment begins; where it is
none, one of them does. -/
theorem Cuts.isTrouble_iff {p : Piece} {rest : List Char} (h : Cuts p rest) (line : Nat) :
    (∃ i ∈ p.item? line, i.IsTrouble) ↔
      (∀ u, u <+: p.text ++ rest → ¬IsLexeme u) ∧
        (∀ c ∈ (p.text ++ rest).head?, isBlank c = false) ∧ ¬StartsComment (p.text ++ rest) := by
  cases h with
  | @blank c _ hblank =>
    refine ⟨(fun ⟨i, hi, _⟩ => nomatch hi), fun ⟨_, hno, _⟩ => ?_⟩
    exact nomatch (hno c rfl).symm.trans hblank
  | comment =>
    refine ⟨(fun ⟨i, hi, _⟩ => nomatch hi), fun ⟨_, _, hno⟩ => ?_⟩
    exact absurd ⟨_, rfl⟩ hno
  | lexeme hbelongs =>
    refine ⟨?_, fun ⟨hno, _⟩ => absurd ⟨_, _, hbelongs⟩ (hno _ (List.prefix_append _ _))⟩
    rintro ⟨i, hi, line, cause, rfl⟩
    exact nomatch hi
  | @stray c _ hblank hno =>
    refine ⟨fun _ => ⟨fun u hu hlexeme => ?_, fun d hd => ?_, ?_⟩,
      fun _ => ⟨_, rfl, line, .stray c, rfl⟩⟩
    · cases u with
      | nil => exact not_isLexeme_nil hlexeme
      | cons d u =>
        obtain ⟨w, hw⟩ := hu
        obtain ⟨rfl, -⟩ := List.cons.inj hw
        exact hno u hlexeme
    · obtain rfl := Option.some.inj hd
      exact hblank
    · refine not_startsComment ?_
      rintro rfl
      exact hno [] ⟨.slash, .none, .fixed (by decide)⟩
  | @openString body hbody =>
    refine ⟨fun _ => ⟨fun u hu hlexeme => ?_, fun d hd => ?_, not_startsComment (by decide)⟩,
      fun _ => ⟨_, rfl, line, .openString, rfl⟩⟩
    · cases u with
      | nil => exact not_isLexeme_nil hlexeme
      | cons d u =>
        obtain ⟨w, hw⟩ := hu
        obtain ⟨rfl, htail⟩ := List.cons.inj hw
        obtain ⟨body', -, rfl⟩ := hlexeme.of_quote
        have hmem : '"' ∈ body' ++ ['"'] ++ w := by simp
        have hall : body' ++ ['"'] ++ w = body ++ [] := htail
        rw [hall, List.append_nil] at hmem
        exact hbody hmem
    · obtain rfl := Option.some.inj hd
      decide

/-- Nothing longer than a longest lexeme is one. -/
theorem Longest.of_longer {text rest u : List Char} (h : Longest text rest)
    (hu : u <+: text ++ rest) (hlt : text.length < u.length) :
    ¬IsLexeme u ∧ ¬StartsComment u := by
  obtain ⟨v, rfl⟩ := List.prefix_of_prefix_length_le (List.prefix_append text rest) hu (by omega)
  refine h v ?_ ((List.prefix_append_right_inj text).1 hu)
  rintro rfl
  simp at hlt

/-- There is an error at the byte where a piece begins if and only if the piece is
one. -/
theorem exists_trouble_iff {source : String} {l r : List Piece} {p : Piece}
    (h : pieces source.toList = l ++ p :: r) :
    (∃ f ∈ finds source, f.first = size (l.flatMap Piece.text) ∧ f.item.IsTrouble) ↔
      ∃ i ∈ p.item? (1 + newlines (l.flatMap Piece.text) + newlines p.text), i.IsTrouble := by
  constructor
  · rintro ⟨f, hf, hfirst, htrouble⟩
    rcases mem_finds_iff.1 hf with ⟨l', p', r', hsplit, hfind⟩ | rfl
    · obtain ⟨i, hi, rfl⟩ := Option.map_eq_some_iff.1 hfind
      obtain ⟨rfl, rfl, -⟩ := piece_unique h hsplit hfirst.symm
      exact ⟨i, hi, htrouble⟩
    · obtain ⟨line, cause, heq⟩ := htrouble
      exact nomatch heq
  · rintro ⟨i, hi, htrouble⟩
    exact ⟨_, mem_finds_iff.2 (.inl ⟨l, p, r, h, by rw [Piece.find?, hi]; rfl⟩), rfl, htrouble⟩

/-- **Each token is the longest lexeme at its place, and errors stand exactly where
there is none.**  The finds are the items of the scan.  The text of a token is a
lexeme of its kind and value, and no longer text from its first byte on is a lexeme
or begins a comment.  Where a piece of the source begins there is an error if and
only if no lexeme begins there, no blank and no comment; errors stand nowhere
else. -/
theorem finds_longest (source : String) :
    (finds source).map Find.item = items source ∧
      (∀ f ∈ finds source, ∀ t, f.item = .token t →
        ∃ before rest, source.toList = before ++ rest ∧ f.first = size before ∧
          (t.kind = .eof ∧ rest = [] ∨
            Belongs t.kind t.payload t.lexeme.toList ∧ t.lexeme.toList <+: rest ∧
              ∀ u, u <+: rest → t.lexeme.toList.length < u.length →
                ¬IsLexeme u ∧ ¬StartsComment u)) ∧
      (∀ before rest, GoesOn source before rest →
        ((∃ f ∈ finds source, f.first = size before ∧ f.item.IsTrouble) ↔
          (∀ u, u <+: rest → ¬IsLexeme u) ∧ (∀ c ∈ rest.head?, isBlank c = false) ∧
            ¬StartsComment rest)) ∧
      ∀ f ∈ finds source, f.item.IsTrouble →
        ∃ before rest, GoesOn source before rest ∧ f.first = size before := by
  refine ⟨finds_map_item source, fun f hf t ht => ?_, fun before rest hgoes => ?_,
    fun f hf htrouble => ?_⟩
  · rcases mem_finds_iff.1 hf with ⟨l, p, r, hsplit, hfind⟩ | rfl
    · obtain ⟨i, hi, rfl⟩ := Option.map_eq_some_iff.1 hfind
      obtain rfl : i = .token t := ht
      refine ⟨_, _, GoesOn.source ⟨l, p, r, hsplit, rfl, rfl⟩, rfl, .inr ?_⟩
      have hcut := pieces_cut hsplit
      generalize r.flatMap Piece.text = rest at hcut
      cases hcut with
      | lexeme hbelongs hlongest =>
        obtain rfl := Item.token.inj (Option.some.inj hi)
        rw [String.toList_ofList]
        exact ⟨hbelongs, List.prefix_append _ _, fun u => hlongest.of_longer⟩
      | blank | comment | stray | openString => exact nomatch hi
    · obtain rfl := Item.token.inj ht
      exact ⟨source.toList, [], (List.append_nil _).symm, rfl, .inl ⟨rfl, rfl⟩⟩
  · obtain ⟨l, p, r, hsplit, rfl, rfl⟩ := hgoes
    rw [exists_trouble_iff hsplit, (pieces_cut hsplit).isTrouble_iff]
  · rcases mem_finds_iff.1 hf with ⟨l, p, r, hsplit, hfind⟩ | rfl
    · obtain ⟨i, -, rfl⟩ := Option.map_eq_some_iff.1 hfind
      exact ⟨_, _, ⟨l, p, r, hsplit, rfl, rfl⟩, rfl⟩
    · obtain ⟨line, cause, heq⟩ := htrouble
      exact nomatch heq

end Scan
end LoxFront
