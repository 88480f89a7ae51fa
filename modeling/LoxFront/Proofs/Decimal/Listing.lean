/-
# Numbers that are listed alike are the same

The listing of a finite number without a sign begins with a digit
(`Binary64.exists_listing_eq_cons`), and what it reads as is in the span of the number
(`Binary64.listing_mem_span`).  So a number is settled by its listing
(`Binary64.listing_inj`).  The numbers of source text are of this kind, or are infinite,
which is listed as `inf` (`Binary64.ofDecimal_isMagnitude`).
-/

import Mathlib.Data.List.TakeWhile
import LoxFront.Token
import LoxFront.Proofs.Decimal.Shortest
import LoxFront.Proofs.Json.Plain

namespace LoxFront

/-- What digits stand for, with a point between them or without. -/
def reading (s : List Char) : ℚ :=
  Nat.ofDigitChars 10 (s.filter Char.isDigit) 0 / 10 ^ (s.dropWhile Char.isDigit).tail.length

section Reading

variable {front back s : List Char}

/-- A row of digits reads as the number they spell. -/
theorem reading_digits (hs : ∀ c ∈ s, c.isDigit = true) :
    reading s = Nat.ofDigitChars 10 s 0 := by
  rw [reading, List.filter_eq_self.2 hs, List.dropWhile_eq_nil_iff.2 hs]
  simp

/-- With a point in it, a row of digits is that number, divided by ten for each digit behind
the point. -/
theorem reading_point (hfront : ∀ c ∈ front, c.isDigit = true)
    (hback : ∀ c ∈ back, c.isDigit = true) :
    reading (front ++ '.' :: back) = Nat.ofDigitChars 10 (front ++ back) 0 / 10 ^ back.length := by
  have hpoint : ¬Char.isDigit '.' = true := by decide
  rw [reading, List.filter_append, List.filter_cons_of_neg hpoint, List.filter_eq_self.2 hfront,
    List.filter_eq_self.2 hback, List.dropWhile_append_of_pos hfront,
    List.dropWhile_cons_of_neg hpoint, List.tail_cons]

end Reading

namespace Layout

variable {s : List Char}

/-- What fills a number up are digits. -/
theorem isDigit_of_mem_zeros {n : Nat} : ∀ c ∈ zeros n, c.isDigit = true := fun c hc => by
  rw [List.eq_of_mem_replicate hc]
  decide

/-- Digits in positions read as the number they are the digits of. -/
theorem reading_inPositions (hne : s ≠ []) (hs : ∀ c ∈ s, c.isDigit = true) (e : Int) :
    reading (plain.inPositions s e) =
      Nat.ofDigitChars 10 s 0 * (10 : ℚ) ^ (e - (s.length - 1 : Nat)) := by
  have hlength : 0 < s.length := List.length_pos_iff.2 hne
  have hten : (10 : ℚ) ≠ 0 := by norm_num
  cases e with
  | negSucc n =>
    have hback : ∀ c ∈ zeros n ++ s, c.isDigit = true :=
      List.forall_mem_append.2 ⟨isDigit_of_mem_zeros, hs⟩
    have hzero : ∀ c ∈ ['0'], c.isDigit = true := List.forall_mem_singleton.2 (by decide)
    rw [inPositions, ← List.singleton_append, reading_point hzero hback, List.singleton_append,
      Nat.ofDigitChars_cons, Nat.ofDigitChars_append, zeros, Nat.ofDigitChars_replicate_zero,
      List.length_append, List.length_replicate, div_eq_mul_inv, ← zpow_natCast, ← zpow_neg]
    congr 2
    rw [Int.negSucc_eq]
    omega
  | ofNat n =>
    have hfront : ∀ c ∈ s.take (n + 1) ++ zeros (n + 1 - s.length), c.isDigit = true :=
      List.forall_mem_append.2 ⟨fun c hc => hs c (List.mem_of_mem_take hc), isDigit_of_mem_zeros⟩
    rw [inPositions]
    split
    · next hback =>
      have hle : s.length ≤ n + 1 := List.drop_eq_nil_iff.1 hback
      rw [show plain.pointed = false from rfl, if_neg Bool.false_ne_true, reading_digits hfront,
        List.take_of_length_le hle, Nat.ofDigitChars_append, zeros,
        Nat.ofDigitChars_replicate_zero]
      push_cast
      rw [mul_comm, ← zpow_natCast]
      congr 2
      simp only [Int.ofNat_eq_natCast]
      omega
    · next hback =>
      have hlt : n + 1 < s.length := Nat.lt_of_not_le fun hle => hback (List.drop_eq_nil_iff.2 hle)
      rw [reading_point hfront fun c hc => hs c (List.mem_of_mem_drop hc),
        Nat.sub_eq_zero_of_le hlt.le, zeros, List.replicate_zero, List.append_nil,
        List.take_append_drop, List.length_drop, div_eq_mul_inv, ← zpow_natCast, ← zpow_neg]
      congr 2
      simp only [Int.ofNat_eq_natCast]
      omega

/-- A decimal in positions reads as what it is. -/
theorem reading_spell (d : Decimal) : reading (plain.spell d) = d.value := by
  rw [spell, show plain.positional = fun _ => true from rfl, if_pos rfl,
    reading_inPositions Nat.toDigits_ne_nil (isDigit_toDigits _),
    Nat.ofDigitChars_toDigits (by decide) (by decide), Decimal.value]
  congr 2
  omega

/-- Digits in positions begin with a digit. -/
theorem exists_inPositions_eq_cons (hne : s ≠ []) (hs : ∀ c ∈ s, c.isDigit = true) (e : Int) :
    ∃ c u, plain.inPositions s e = c :: u ∧ c.isDigit = true := by
  cases e with
  | negSucc n => exact ⟨'0', _, rfl, by decide⟩
  | ofNat n =>
    obtain ⟨c, u, rfl⟩ := List.exists_cons_of_ne_nil hne
    rw [inPositions]
    split <;> exact ⟨c, _, rfl, hs c List.mem_cons_self⟩

end Layout

namespace Binary64

variable {x y : Binary64}

/-- A number without a sign that is no NaN: a finite one or the infinity. -/
def IsMagnitude (x : Binary64) : Prop := x.word.toNat ≤ infinityWord

namespace IsMagnitude

/-- A magnitude has no sign. -/
theorem isNegative (h : x.IsMagnitude) : x.isNegative = false := by
  rw [IsMagnitude, infinityWord, Nat.pow_eq] at h
  rw [Binary64.isNegative, decide_eq_false_iff_not, Nat.pow_eq]
  omega

/-- What is not finite is the infinity. -/
theorem word_of_not_finite (h : x.IsMagnitude) (hfinite : x.isFinite = false) :
    x.word.toNat = infinityWord := by
  rw [IsMagnitude, infinityWord, Nat.pow_eq] at h
  rw [isFinite, decide_eq_false_iff_not, exponentField, Nat.pow_eq, Nat.pow_eq] at hfinite
  rw [infinityWord, Nat.pow_eq]
  omega

/-- A magnitude is a number. -/
theorem isNaN (h : x.IsMagnitude) : x.isNaN = false := by
  cases hfinite : x.isFinite with
  | true =>
    rw [isFinite, decide_eq_true_iff] at hfinite
    rw [Binary64.isNaN, beq_eq_false_iff_ne.2 hfinite.ne, Bool.false_and]
  | false =>
    have hfraction : (infinityWord % Nat.pow 2 52 != 0) = false := by decide
    rw [Binary64.isNaN, fractionField, h.word_of_not_finite hfinite, hfraction, Bool.and_false]

/-- The text of a magnitude is the spelling of its shortest decimal, or `inf`. -/
theorem text_eq (h : x.IsMagnitude) (l : Layout) : (l.text x).toList =
    if x.isFinite then l.spell (x.shortest l.tie) else ['i', 'n', 'f'] := by
  rw [Layout.text, h.isNaN, if_neg Bool.false_ne_true, h.isNegative, if_neg Bool.false_ne_true,
    String.toList_ofList, List.nil_append]

/-- How a number is listed: a whole one that is not too great in full, another finite one in
positions, and the infinity by name. -/
theorem listing_cases (h : x.IsMagnitude) :
    (∃ n, x.whole? = some n ∧ x.listing.toList = (toString n).toList ++ ".0".toList) ∨
      (x.isFinite = true ∧ x.listing.toList = Layout.plain.spell (x.shortest .up)) ∨
        (x.isFinite = false ∧ x.listing = "inf") := by
  have htext := h.text_eq Layout.plain
  have hothers : x.listing = Layout.plain.text x →
      (x.isFinite = true ∧ x.listing.toList = Layout.plain.spell (x.shortest .up)) ∨
        (x.isFinite = false ∧ x.listing = "inf") := by
    intro hlisting
    rw [hlisting]
    cases hfinite : x.isFinite with
    | true =>
      rw [hfinite, if_pos rfl] at htext
      exact .inl ⟨rfl, htext⟩
    | false =>
      rw [hfinite, if_neg Bool.false_ne_true] at htext
      exact .inr ⟨rfl, String.toList_inj.1 htext⟩
  cases hwhole : x.whole? with
  | none =>
    refine .inr (hothers ?_)
    rw [listing, hwhole]
  | some n =>
    by_cases hn : n < Nat.pow 2 63
    · refine .inl ⟨n, rfl, ?_⟩
      rw [listing, hwhole]
      simp only [if_pos hn, h.isNegative, Bool.false_and, if_neg Bool.false_ne_true,
        String.toList_append, String.toList_empty, List.nil_append]
    · refine .inr (hothers ?_)
      rw [listing, hwhole]
      simp only [if_neg hn]

/-- What the listing of a finite number reads as is no other number. -/
theorem listing_mem_span (h : x.IsMagnitude) (hfinite : x.isFinite = true) :
    x.span.Mem (reading x.listing.toList) := by
  rcases h.listing_cases with ⟨n, hwhole, hlisting⟩ | ⟨-, hlisting⟩ | ⟨hinfinite, -⟩
  · have hzero : ∀ c ∈ ['0'], c.isDigit = true := List.forall_mem_singleton.2 (by decide)
    have hvalue : reading x.listing.toList = n := by
      rw [hlisting, toList_natural, show ".0".toList = ['.', '0'] from rfl,
        reading_point (isDigit_toDigits n) hzero, Nat.ofDigitChars_append,
        Nat.ofDigitChars_toDigits (by decide) (by decide)]
      simp [Nat.ofDigitChars]
    rw [hvalue, (eq_of_whole? hwhole).2]
    exact x.mem_span
  · rw [hlisting, Layout.reading_spell]
    exact shortest_mem_span hfinite .up
  · exact nomatch hfinite.symm.trans hinfinite

/-- The listing of a finite number begins with a digit. -/
theorem exists_listing_eq_cons (h : x.IsMagnitude) (hfinite : x.isFinite = true) :
    ∃ c u, x.listing.toList = c :: u ∧ c.isDigit = true := by
  rcases h.listing_cases with ⟨n, -, hlisting⟩ | ⟨-, hlisting⟩ | ⟨hinfinite, -⟩
  · obtain ⟨c, u, hn⟩ := List.exists_cons_of_ne_nil (Nat.toDigits_ne_nil (b := 10) (n := n))
    rw [hlisting, toList_natural, hn]
    exact ⟨c, _, rfl, isDigit_toDigits n c (hn ▸ List.mem_cons_self)⟩
  · rw [hlisting]
    exact Layout.exists_inPositions_eq_cons Nat.toDigits_ne_nil (isDigit_toDigits _) _
  · exact nomatch hfinite.symm.trans hinfinite

/-- The magnitude without bound is listed by name. -/
theorem listing_eq_inf (h : x.IsMagnitude) (hfinite : x.isFinite = false) : x.listing = "inf" := by
  rcases h.listing_cases with ⟨n, hwhole, -⟩ | ⟨hfinite', -⟩ | ⟨-, hlisting⟩
  · exact nomatch hfinite.symm.trans (eq_of_whole? hwhole).1
  · exact nomatch hfinite.symm.trans hfinite'
  · exact hlisting

/-- **A number is settled by its listing.** -/
theorem listing_inj (hx : x.IsMagnitude) (hy : y.IsMagnitude) : x.listing = y.listing ↔ x = y := by
  have hne {x y : Binary64} (hx : x.IsMagnitude) (hy : y.IsMagnitude)
      (hfx : x.isFinite = true) (hfy : y.isFinite = false) : x.listing ≠ y.listing := by
    obtain ⟨c, u, hlisting, hc⟩ := hx.exists_listing_eq_cons hfx
    intro h
    rw [h, hy.listing_eq_inf hfy] at hlisting
    obtain ⟨rfl, -⟩ := List.cons.inj (hlisting : ['i', 'n', 'f'] = c :: u)
    exact absurd hc (by decide)
  constructor
  · intro h
    cases hfx : x.isFinite <;> cases hfy : y.isFinite
    · refine congrArg Binary64.mk (UInt64.toNat_inj.1 ?_)
      rw [hx.word_of_not_finite hfx, hy.word_of_not_finite hfy]
    · exact absurd h.symm (hne hy hx hfy hfx)
    · exact absurd h (hne hx hy hfx hfy)
    · have hmem := hy.listing_mem_span hfy
      rw [← h] at hmem
      exact span_unique hx.isNegative hy.isNegative (hx.listing_mem_span hfx) hmem
  · rintro rfl
    rfl

/-- No number is listed as nothing. -/
theorem listing_ne_nil (h : x.IsMagnitude) : x.listing.toList ≠ [] := by
  cases hfinite : x.isFinite with
  | true =>
    obtain ⟨c, u, hlisting, -⟩ := h.exists_listing_eq_cons hfinite
    rw [hlisting]
    exact List.cons_ne_nil c u
  | false =>
    rw [h.listing_eq_inf hfinite]
    decide

/-- The listing of a magnitude is made of the characters that numbers are written in. -/
theorem isWritten_of_mem_listing (h : x.IsMagnitude) : ∀ c ∈ x.listing.toList, IsWritten c := by
  rcases h.listing_cases with ⟨n, -, hlisting⟩ | ⟨-, hlisting⟩ | ⟨-, hlisting⟩
  · rw [hlisting, toList_natural]
    refine List.forall_mem_append.2 ⟨fun c hc => .inl (isNumeral_of_mem_toDigits hc), ?_⟩
    exact List.forall_mem_cons.2 ⟨.inl (.inr (by decide)),
      List.forall_mem_singleton.2 (.inl (.inl (by decide)))⟩
  · rw [hlisting]
    exact fun c hc => .inl (Layout.isNumeral_spell _ c hc)
  · rw [hlisting]
    exact fun c hc => .inr ((by decide : "inf".toList ⊆ letters) hc)

end IsMagnitude

/-- The numbers of source text have no sign. -/
theorem ofDecimal_isMagnitude (digits places : Nat) : (ofDecimal digits places).IsMagnitude := by
  have hword {n : Nat} (hn : n ≤ infinityWord) : (ofNat n).IsMagnitude := by
    have hlt : infinityWord < 2 ^ 64 := by decide
    rw [IsMagnitude, ofNat, UInt64.toNat_ofNat', Nat.mod_eq_of_lt (Nat.lt_of_le_of_lt hn hlt)]
    exact hn
  rw [ofDecimal]
  split
  · exact hword (Nat.zero_le _)
  · exact hword (Nat.min_le_left _ _)

/-- A number beyond all range is listed as the name `inf` is. -/
example : (ofDecimal (10 ^ 309) 0).listing = "inf" := by decide +kernel

end Binary64
end LoxFront
