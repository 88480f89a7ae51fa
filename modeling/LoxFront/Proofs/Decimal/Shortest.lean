/-
# The shortest decimal of a number is of no other number

The shortest decimal of a finite number is in the span of the number
(`Binary64.shortest_mem_span`), for the last of the twenty grids is finer than half the span.
No real is in the spans of two numbers without a sign (`Binary64.span_unique`): where two
spans meet, one of the two numbers has an odd significand, and its span is open.
-/

import Mathlib.Algebra.Order.Field.Power
import Mathlib.Data.Rat.Cast.Order
import Mathlib.Tactic.GCongr
import Mathlib.Tactic.Linarith
import Mathlib.Tactic.Ring
import LoxFront.Decimal.Shortest

namespace LoxFront

/-- The number that a decimal is. -/
def Decimal.value (d : Decimal) : ℚ := d.digits * 10 ^ d.exponent

namespace Span

/-- The number is in the span. -/
def Mem (s : Span) (r : ℚ) : Prop :=
  if s.closed then s.low * 2 ^ s.unit ≤ r ∧ r ≤ s.high * 2 ^ s.unit
  else s.low * 2 ^ s.unit < r ∧ r < s.high * 2 ^ s.unit

variable {s : Span} {tie : Tie} {k : Int} {d : Nat} {r : ℚ}

/-- A member of a span lies at its low end or above. -/
theorem Mem.low_le (h : s.Mem r) : s.low * 2 ^ s.unit ≤ r := by
  rw [Mem] at h
  split at h
  · exact h.1
  · exact h.1.le

/-- A member of a span lies at its high end or below. -/
theorem Mem.le_high (h : s.Mem r) : r ≤ s.high * 2 ^ s.unit := by
  rw [Mem] at h
  split at h
  · exact h.2
  · exact h.2.le

/-- A span that is not closed does not hold its low end. -/
theorem Mem.low_lt (h : s.Mem r) (hs : s.closed = false) : s.low * 2 ^ s.unit < r := by
  rw [Mem, hs, if_neg Bool.false_ne_true] at h
  exact h.1

/-- A span that is not closed does not hold its high end. -/
theorem Mem.lt_high (h : s.Mem r) (hs : s.closed = false) : r < s.high * 2 ^ s.unit := by
  rw [Mem, hs, if_neg Bool.false_ne_true] at h
  exact h.2

/-! ### Grids -/

/-- The factors are the unit and the step of the grid, but for a factor of both. -/
theorem exists_factors (unit k : Int) : ∃ c : ℚ, 0 < c ∧
    ((factors unit k).1 : ℚ) = 2 ^ unit * c ∧ ((factors unit k).2 : ℚ) = 10 ^ k * c := by
  have hfill {b : ℚ} (hb : b ≠ 0) (n : Int) : b ^ n.toNat = b ^ n * b ^ (-n).toNat := by
    rw [← zpow_natCast b n.toNat, ← zpow_natCast b (-n).toNat, ← zpow_add₀ hb]
    congr 1
    omega
  refine ⟨2 ^ (-unit).toNat * 10 ^ (-k).toNat, by positivity, ?_, ?_⟩
  · simp only [factors, Nat.pow_eq]
    push_cast
    rw [hfill (by norm_num) unit]
    ring
  · simp only [factors, Nat.pow_eq]
    push_cast
    rw [hfill (by norm_num) k]
    ring

/-- The test on natural numbers decides membership of a decimal. -/
theorem holds_iff : s.holds k d = true ↔ s.Mem (d * 10 ^ k) := by
  obtain ⟨c, hc, ha, hb⟩ := exists_factors s.unit k
  have hle (m n : Nat) : m * (factors s.unit k).1 ≤ n * (factors s.unit k).2 ↔
      (m : ℚ) * 2 ^ s.unit ≤ n * 10 ^ k := by
    rw [← Nat.cast_le (α := ℚ), Nat.cast_mul, Nat.cast_mul, ha, hb, ← mul_assoc, ← mul_assoc,
      mul_le_mul_iff_left₀ hc]
  have hge (m n : Nat) : n * (factors s.unit k).2 ≤ m * (factors s.unit k).1 ↔
      (n : ℚ) * 10 ^ k ≤ m * 2 ^ s.unit := by
    rw [← Nat.cast_le (α := ℚ), Nat.cast_mul, Nat.cast_mul, ha, hb, ← mul_assoc, ← mul_assoc,
      mul_le_mul_iff_left₀ hc]
  simp only [holds, Mem]
  split
  · rw [decide_eq_true_iff, hle, hge]
  · rw [decide_eq_true_iff, ← not_le, ← not_le, hge, hle, not_le, not_le]

/-- What stands for the number on a grid is in the span. -/
theorem holds_of_onGrid? (h : s.onGrid? tie k = some d) : s.holds k d = true := by
  rw [onGrid?] at h
  have hnearer (f : Nat) : s.nearer tie k f = f ∨ s.nearer tie k f = f + 1 := by
    simp only [nearer]
    split
    · exact .inl rfl
    · exact .inr rfl
    · exact .inr rfl
    · rcases Nat.mod_two_eq_zero_or_one f with h | h
      · exact .inl (by rw [h, Nat.add_zero])
      · exact .inr (by rw [h])
  cases hfloor : s.holds k (s.floor k) <;> cases hnext : s.holds k (s.floor k + 1) <;>
    simp only [hfloor, hnext, reduceCtorEq, Option.some.injEq] at h <;> subst h
  · exact hnext
  · exact hfloor
  · rcases hnearer (s.floor k) with h | h <;> rw [h] <;> assumption

/-- The search ends in the span if one of the grids has a point in it. -/
theorem search_holds {n j : Nat} (hj : j < n) (h : s.onGrid? tie (k - j) ≠ none) :
    s.holds (s.search tie n k).exponent (s.search tie n k).digits = true := by
  induction n generalizing k j with
  | zero => exact absurd hj (Nat.not_lt_zero j)
  | succ n ih =>
    rw [search]
    cases hgrid : s.onGrid? tie k with
    | some d => exact holds_of_onGrid? hgrid
    | none =>
      cases j with
      | zero =>
        rw [Nat.cast_zero, sub_zero] at h
        exact absurd hgrid h
      | succ j =>
        refine ih (Nat.lt_of_succ_lt_succ hj) ?_
        rwa [sub_sub, add_comm (1 : Int), ← Nat.cast_succ]

/-- A grid has a point in the span if its step is less than what is above the number. -/
theorem onGrid?_ne_none (hlow : s.low ≤ s.mid)
    (hstep : (10 : ℚ) ^ k < (s.high - s.mid : Nat) * 2 ^ s.unit) : s.onGrid? tie k ≠ none := by
  obtain ⟨c, hc, ha, hb⟩ := exists_factors s.unit k
  have hpos : 0 < (factors s.unit k).2 := by
    rw [← Nat.cast_pos (α := ℚ), hb]
    positivity
  have hsmall : (factors s.unit k).2 < (s.high - s.mid) * (factors s.unit k).1 := by
    rw [← Nat.cast_lt (α := ℚ), Nat.cast_mul, ha, hb, ← mul_assoc]
    exact mul_lt_mul_of_pos_right hstep hc
  have hfloor : s.floor k * (factors s.unit k).2 ≤ s.mid * (factors s.unit k).1 :=
    Nat.div_mul_le_self _ _
  have hnext : s.mid * (factors s.unit k).1 <
      s.floor k * (factors s.unit k).2 + (factors s.unit k).2 := Nat.lt_div_mul_add hpos
  have hmono := Nat.mul_le_mul_right (factors s.unit k).1 hlow
  have hholds : s.holds k (s.floor k + 1) = true := by
    simp only [holds]
    rw [Nat.sub_mul] at hsmall
    split <;> rw [decide_eq_true_iff, Nat.add_mul, Nat.one_mul] <;> omega
  rw [onGrid?, hholds]
  cases s.holds k (s.floor k) <;> exact Option.some_ne_none _

end Span

/-! ### Powers of ten against powers of two -/

/-- A power of two is the greater one once its exponent is more than ten thirds of that of a
power of ten. -/
theorem ten_pow_lt_two_pow {k m : Nat} (h : 10 * k + 1 ≤ 3 * m) : 10 ^ k < 2 ^ m := by
  refine lt_of_pow_lt_pow_left₀ 3 (Nat.zero_le _) ?_
  calc (10 ^ k) ^ 3 = (10 ^ 3) ^ k := pow_right_comm 10 k 3
    _ ≤ (2 ^ 10) ^ k := Nat.pow_le_pow_left (by norm_num) k
    _ = 2 ^ (10 * k) := (pow_mul 2 10 k).symm
    _ < 2 ^ (3 * m) := Nat.pow_lt_pow_right (by norm_num) h
    _ = (2 ^ m) ^ 3 := by rw [mul_comm, pow_mul]

/-- A power of ten is the greater one once its exponent is more than 28 in 93 of that of a
power of two. -/
theorem two_pow_lt_ten_pow {i j : Nat} (h : 28 * i + 1 ≤ 93 * j) : 2 ^ i < 10 ^ j := by
  refine lt_of_pow_lt_pow_left₀ 28 (Nat.zero_le _) ?_
  calc (2 ^ i) ^ 28 = 2 ^ (28 * i) := by rw [mul_comm, pow_mul]
    _ < 2 ^ (93 * j) := Nat.pow_lt_pow_right (by norm_num) h
    _ = (2 ^ 93) ^ j := pow_mul 2 93 j
    _ ≤ (10 ^ 28) ^ j := Nat.pow_le_pow_left (by norm_num) j
    _ = (10 ^ j) ^ 28 := pow_right_comm 10 28 j

/-- `1233 / 4096` is near enough to the decimal logarithm of two for all exponents there are. -/
theorem ten_zpow_lt_two_zpow {n : Int} (hlow : -1021 ≤ n) (hhigh : n ≤ 1024) :
    (10 : ℚ) ^ (n * 1233 / 4096 - 18) < 2 ^ (n - 54) := by
  rcases lt_or_ge (n * 1233 / 4096 - 18) 0 with hneg | hpos
  · obtain ⟨j, hj⟩ := Int.eq_ofNat_of_zero_le (a := 18 - n * 1233 / 4096) (by omega)
    have hlt : (2 : ℚ) ^ (54 - n).toNat < 10 ^ j := by
      exact_mod_cast two_pow_lt_ten_pow (i := (54 - n).toNat) (j := j) (by omega)
    calc (10 : ℚ) ^ (n * 1233 / 4096 - 18) = (10 ^ j)⁻¹ := by
          rw [← zpow_natCast, ← zpow_neg]
          congr 1
          omega
      _ < (2 ^ (54 - n).toNat)⁻¹ := inv_strictAnti₀ (by positivity) hlt
      _ = 2 ^ (-((54 - n).toNat : Int)) := by rw [zpow_neg, zpow_natCast]
      _ ≤ 2 ^ (n - 54) := zpow_le_zpow_right₀ (by norm_num) (by omega)
  · obtain ⟨k, hk⟩ := Int.eq_ofNat_of_zero_le hpos
    obtain ⟨m, hm⟩ := Int.eq_ofNat_of_zero_le (a := n - 54) (by omega)
    rw [hk, hm]
    exact_mod_cast ten_pow_lt_two_pow (k := k) (m := m) (by omega)

namespace Binary64

variable {x y : Binary64} {r : ℚ}

/-! ### Fields of a number -/

/-- The fraction has 52 bits. -/
theorem fractionField_lt (x : Binary64) : x.fractionField < 2 ^ 52 :=
  Nat.mod_lt _ (by norm_num)

/-- The greatest exponent stands for what is not finite. -/
theorem exponentField_lt_of_isFinite (h : x.isFinite = true) : x.exponentField < 2047 :=
  of_decide_eq_true h

/-- A significand has 53 bits, the hidden one included. -/
theorem significand_lt (x : Binary64) : x.significand < 2 ^ 53 := by
  have hfraction := x.fractionField_lt
  rw [significand, Nat.pow_eq]
  split <;> omega

/-- The scales of finite numbers, from the smallest to the greatest. -/
theorem scale_le (h : x.isFinite = true) : -1074 ≤ x.scale ∧ x.scale ≤ 971 := by
  have hexponent := exponentField_lt_of_isFinite h
  rw [scale]
  split <;> omega

/-- Only zero has the significand zero. -/
theorem significand_eq_zero_iff : x.significand = 0 ↔ x.isZero = true := by
  rw [significand, isZero, beq_iff_eq, exponentField, fractionField, Nat.pow_eq, Nat.pow_eq,
    Nat.pow_eq]
  split <;> omega

/-- The low end of a span is half the way to the number below, which is nearer at a power of
two. -/
theorem span_low (x : Binary64) : x.span.low =
    4 * x.significand - (if x.fractionField = 0 ∧ 1 < x.exponentField then 1 else 2) := rfl

/-- The middle of a span is the number itself, in quarters of its last place. -/
theorem span_mid (x : Binary64) : x.span.mid = 4 * x.significand := rfl

/-- The high end of a span is half the way to the number above. -/
theorem span_high (x : Binary64) : x.span.high = 4 * x.significand + 2 := rfl

/-- The unit of a span is a quarter of the last place. -/
theorem span_unit (x : Binary64) : x.span.unit = x.scale - 2 := rfl

/-! ### The shortest decimal -/

/-- **The shortest decimal reads back as its number.** -/
theorem shortest_mem_span (h : x.isFinite = true) (tie : Tie) :
    x.span.Mem (x.shortest tie).value := by
  rw [shortest]
  cases hzero : x.isZero with
  | true =>
    rw [if_pos rfl, Span.Mem, span, significand_eq_zero_iff.2 hzero]
    have hunit : (0 : ℚ) ≤ 2 ^ (x.scale - 2) := by positivity
    simpa [Decimal.value] using hunit
  | false =>
    rw [if_neg Bool.false_ne_true]
    refine Span.holds_iff.1 (Span.search_holds (j := 19) (by norm_num) ?_)
    refine Span.onGrid?_ne_none (Nat.sub_le _ _) ?_
    have hpos : x.significand ≠ 0 := fun h => by
      rw [significand_eq_zero_iff.1 h] at hzero
      exact nomatch hzero
    have hlog : x.span.mid.log2 < 55 := by
      have hlt := x.significand_lt
      rw [span_mid, Nat.log2_lt (by omega)]
      omega
    have hscale := scale_le h
    have hunit := x.span_unit
    have habove : x.span.high - x.span.mid = 2 := by
      rw [span_high, span_mid]
      omega
    calc (10 : ℚ) ^ ((x.span.mid.log2 + x.span.unit + 1) * 1233 / 4096 + 1 - (19 : Nat))
        ≤ 10 ^ ((x.span.unit + 55) * 1233 / 4096 - 18) :=
          zpow_le_zpow_right₀ (by norm_num) (by omega)
      _ < 2 ^ (x.span.unit + 55 - 54) := ten_zpow_lt_two_zpow (by omega) (by omega)
      _ = (x.span.high - x.span.mid : Nat) * 2 ^ x.span.unit := by
        rw [habove, show x.span.unit + 55 - 54 = 1 + x.span.unit by ring,
          zpow_add₀ (by norm_num)]
        norm_num

/-! ### Spans -/

/-- Of two numbers without a sign, the greater has the greater significand at the same scale,
or it is of a greater scale. -/
theorem scale_cases (hx : x.isNegative = false) (hy : y.isNegative = false)
    (h : x.word.toNat < y.word.toNat) :
    x.scale = y.scale ∧ x.significand < y.significand ∨
      x.scale < y.scale ∧ 2 ^ 54 ≤ y.span.low + 1 := by
  have hsign {z : Binary64} (hz : z.isNegative = false) : z.word.toNat < 2 ^ 63 := by
    rw [isNegative, decide_eq_false_iff_not, Nat.pow_eq] at hz
    omega
  have hword {z : Binary64} (hz : z.isNegative = false) :
      z.word.toNat = z.exponentField * 2 ^ 52 + z.fractionField := by
    have hlt := hsign hz
    rw [exponentField, fractionField, Nat.pow_eq, Nat.pow_eq]
    omega
  have hfractionx := x.fractionField_lt
  have hfractiony := y.fractionField_lt
  rw [hword hx, hword hy] at h
  rw [span_low, scale, scale, significand, significand, Nat.pow_eq]
  split <;> split <;> split <;> omega

/-- The span of a number is below those of greater numbers, and apart from them unless one of
the two is open. -/
theorem exists_span_le (hx : x.isNegative = false) (hy : y.isNegative = false)
    (h : x.word.toNat < y.word.toNat) : ∃ t : Nat, (t : ℚ) * 2 ^ x.span.unit ≤ 2 ^ y.span.unit ∧
      x.span.high ≤ y.span.low * t ∧
      (x.span.closed = true → y.span.closed = true → x.span.high < y.span.low * t) := by
  have hlow : 4 * y.significand ≤ y.span.low + 2 := by
    rw [span_low]
    split <;> omega
  have hclosed {z : Binary64} (hz : z.span.closed = true) : z.significand % 2 = 0 :=
    beq_iff_eq.1 hz
  rcases scale_cases hx hy h with ⟨hscale, hlt⟩ | ⟨hscale, hbound⟩
  · refine ⟨1, ?_, ?_, fun hx hy => ?_⟩
    · rw [span_unit, span_unit, hscale, Nat.cast_one, one_mul]
    · rw [span_high]
      omega
    · have hevenx := hclosed hx
      have heveny := hclosed hy
      rw [span_high]
      omega
  · have hbelow := x.significand_lt
    refine ⟨2, ?_, ?_, fun hx _ => ?_⟩
    · calc ((2 : Nat) : ℚ) * 2 ^ x.span.unit = 2 ^ (1 + x.span.unit) := by
            rw [zpow_add₀ (by norm_num), zpow_one, Nat.cast_ofNat]
        _ ≤ 2 ^ y.span.unit := zpow_le_zpow_right₀ (by norm_num) (by
          rw [span_unit, span_unit]
          omega)
    · rw [span_high]
      omega
    · have hevenx := hclosed hx
      rw [span_high]
      omega

/-- The spans of two numbers with different words have no member in common. -/
theorem not_mem_span (hx : x.isNegative = false) (hy : y.isNegative = false)
    (h : x.word.toNat < y.word.toNat) (hr : x.span.Mem r) : ¬y.span.Mem r := by
  intro hr'
  obtain ⟨t, ht, hle, hlt⟩ := exists_span_le hx hy h
  have hunit : (0 : ℚ) < 2 ^ x.span.unit := by positivity
  have hmeet : (y.span.low * t : Nat) * (2 : ℚ) ^ x.span.unit ≤ y.span.low * 2 ^ y.span.unit := by
    rw [Nat.cast_mul, mul_assoc]
    gcongr
  have hends : (x.span.high : ℚ) * 2 ^ x.span.unit ≤
      (y.span.low * t : Nat) * (2 : ℚ) ^ x.span.unit := by gcongr
  have habove := hr.le_high
  have hbelow := hr'.low_le
  cases hcx : x.span.closed with
  | false => linarith [hr.lt_high hcx]
  | true =>
    cases hcy : y.span.closed with
    | false => linarith [hr'.low_lt hcy]
    | true =>
      have hstrict : (x.span.high : ℚ) * 2 ^ x.span.unit <
          (y.span.low * t : Nat) * (2 : ℚ) ^ x.span.unit := by
        gcongr
        exact hlt hcx hcy
      linarith

/-- **No number is in the spans of two.** -/
theorem span_unique (hx : x.isNegative = false) (hy : y.isNegative = false) (hr : x.span.Mem r)
    (hr' : y.span.Mem r) : x = y := by
  rcases Nat.lt_trichotomy x.word.toNat y.word.toNat with h | h | h
  · exact absurd hr' (not_mem_span hx hy h hr)
  · exact congrArg Binary64.mk (UInt64.toNat_inj.1 h)
  · exact absurd hr (not_mem_span hy hx h hr')

/-- A number is in its own span. -/
theorem mem_span (x : Binary64) : x.span.Mem (x.significand * 2 ^ x.scale) := by
  have hunit : (0 : ℚ) < 2 ^ x.span.unit := by positivity
  have hmid : (x.significand : ℚ) * 2 ^ x.scale = x.span.mid * 2 ^ x.span.unit := by
    rw [span_mid, span_unit, zpow_sub₀ (by norm_num)]
    push_cast
    ring
  have hlow : x.span.low ≤ x.span.mid := Nat.sub_le _ _
  have hhigh : x.span.mid < x.span.high := Nat.lt_add_of_pos_right (by norm_num)
  rw [hmid, Span.Mem]
  split
  · constructor <;> gcongr
  · next hopen =>
    have hodd : x.significand % 2 ≠ 0 := fun heven => hopen (beq_iff_eq.2 heven)
    have hlt : x.span.low < x.span.mid := by
      rw [span_low, span_mid]
      split <;> omega
    constructor <;> gcongr

/-- What a whole number is. -/
theorem eq_of_whole? {n : Nat} (h : x.whole? = some n) :
    x.isFinite = true ∧ (n : ℚ) = x.significand * 2 ^ x.scale := by
  rw [whole?, Option.ite_none_right_eq_some] at h
  obtain ⟨hfinite, h⟩ := h
  refine ⟨hfinite, ?_⟩
  split at h
  · next hscale =>
    obtain ⟨e, he⟩ := Int.eq_ofNat_of_zero_le hscale
    rw [← Option.some.inj h, he, Int.toNat_natCast, Nat.pow_eq]
    push_cast
    rw [zpow_natCast]
  · next hscale =>
    obtain ⟨e, he⟩ := Int.eq_ofNat_of_zero_le (a := -x.scale) (by omega)
    rw [Option.ite_none_right_eq_some, he, Int.toNat_natCast, Nat.pow_eq] at h
    obtain ⟨hmod, h⟩ := h
    have hmul : n * 2 ^ e = x.significand := by
      rw [← Option.some.inj h, Nat.div_mul_cancel (Nat.dvd_of_mod_eq_zero hmod)]
    rw [show x.scale = -(e : Int) by omega, zpow_neg, zpow_natCast, ← div_eq_mul_inv,
      eq_div_iff (by positivity)]
    exact_mod_cast hmul

end Binary64
end LoxFront
