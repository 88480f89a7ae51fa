/-
# Strings in quotes are read back in one way

The spellings of characters are a prefix code (`Json.escape_prefixFree`), and none of them
begins with a quote.  So a string in quotes ends where it ends, whatever comes behind
it (`Json.quoted_unique`).
-/

import Mathlib.Data.Bool.AllAny
import LoxFront.Json.Basic

namespace LoxFront
namespace Json

/-- The characters that have a spelling of their own. -/
def spelled : List Char := '"' :: '\\' :: (List.range 0x20).map Char.ofNat

/-- A character that has no spelling of its own stands for itself. -/
theorem escape_of_not_mem {c : Char} (h : c ∉ spelled) : escape c = [c] := by
  have hhigh : 0x20 ≤ c.toNat := by
    refine Nat.le_of_not_lt fun hlow => h ?_
    have hmem : c ∈ (List.range 0x20).map Char.ofNat :=
      List.mem_map.2 ⟨c.toNat, List.mem_range.2 hlow, Char.ofNat_toNat c⟩
    exact List.mem_cons_of_mem _ (List.mem_cons_of_mem _ hmem)
  have hne {d : Char} (hd : d ∈ spelled) : c ≠ d := by
    rintro rfl
    exact h hd
  unfold escape
  rw [if_neg (hne (by decide)), if_neg (hne (by decide)), if_neg (hne (by decide)),
    if_neg (hne (by decide)), if_neg (hne (by decide)), if_neg (hne (by decide)),
    if_neg (hne (by decide)), if_neg (by omega), if_neg (by omega)]

/-- A spelling begins with a backslash. -/
theorem head?_escape_of_mem {c : Char} (h : c ∈ spelled) : (escape c).head? = some '\\' := by
  have hall : ∀ d ∈ spelled, (escape d).head? = some '\\' :=
    List.all_iff_forall_prop.1 (by decide)
  exact hall c h

/-- Among the characters that have a spelling of their own, no spelling begins another. -/
theorem eq_of_prefix_of_mem {c d : Char} (hc : c ∈ spelled) (hd : d ∈ spelled)
    (h : escape c <+: escape d) : c = d := by
  have hall : spelled.all (fun a => spelled.all fun b =>
      !(escape a).isPrefixOf (escape b) || a == b) = true := by decide +kernel
  have hcd := List.all_eq_true.1 (List.all_eq_true.1 hall c hc) d hd
  rw [List.isPrefixOf_iff_prefix.2 h, Bool.not_true, Bool.false_or] at hcd
  exact eq_of_beq hcd

/-- A text begins as its prefix does. -/
theorem head?_of_prefix {s t : List Char} (h : s <+: t) {c : Char} (hc : s.head? = some c) :
    t.head? = some c := by
  obtain ⟨u, rfl⟩ := h
  rw [List.head?_append, hc]
  rfl

/-- **The spellings are a prefix code.** -/
theorem escape_prefixFree {c d : Char} (h : escape c <+: escape d) : c = d := by
  by_cases hc : c ∈ spelled
  · by_cases hd : d ∈ spelled
    · exact eq_of_prefix_of_mem hc hd h
    · -- only a backslash begins as a spelling does, and it has one
      have hhead := head?_of_prefix h (head?_escape_of_mem hc)
      rw [escape_of_not_mem hd] at hhead
      obtain rfl := Option.some.inj hhead
      exact absurd (by decide) hd
  · rw [escape_of_not_mem hc] at h
    have hhead := head?_of_prefix h rfl
    by_cases hd : d ∈ spelled
    · obtain rfl := Option.some.inj ((head?_escape_of_mem hd).symm.trans hhead)
      exact absurd (by decide) hc
    · rw [escape_of_not_mem hd] at hhead
      exact (Option.some.inj hhead).symm

/-- The spelling of a character never begins with the quote that would end the text. -/
theorem escape_ne_quote (c : Char) : ∃ d s, escape c = d :: s ∧ d ≠ '"' := by
  by_cases hc : c ∈ spelled
  · obtain ⟨s, hs⟩ := List.head?_eq_some_iff.1 (head?_escape_of_mem hc)
    exact ⟨'\\', s, hs, by decide⟩
  · refine ⟨c, [], escape_of_not_mem hc, ?_⟩
    rintro rfl
    exact hc (by decide)

/-- What is spelled before a quote is settled. -/
theorem spelling_unique {s t x y : List Char}
    (h : s.flatMap escape ++ '"' :: x = t.flatMap escape ++ '"' :: y) : s = t ∧ x = y := by
  induction s generalizing t with
  | nil =>
    cases t with
    | nil => exact ⟨rfl, (List.cons.inj h).2⟩
    | cons d t =>
      obtain ⟨e, u, hd, hne⟩ := escape_ne_quote d
      rw [List.flatMap_cons, hd] at h
      exact absurd (List.cons.inj h).1.symm hne
  | cons c s ih =>
    cases t with
    | nil =>
      obtain ⟨e, u, hc, hne⟩ := escape_ne_quote c
      rw [List.flatMap_cons, hc] at h
      exact absurd (List.cons.inj h).1 hne
    | cons d t =>
      rw [List.flatMap_cons, List.flatMap_cons, List.append_assoc, List.append_assoc] at h
      obtain rfl : c = d := by
        rcases List.prefix_or_prefix_of_prefix (List.prefix_append _ _)
          (h ▸ List.prefix_append _ _) with hprefix | hprefix
        · exact (escape_prefixFree hprefix).symm
        · exact escape_prefixFree hprefix
      obtain ⟨rfl, hrest⟩ := ih (List.append_cancel_left h)
      exact ⟨rfl, hrest⟩

/-- A quoted text is its characters in their spellings, between two quotes. -/
theorem toList_quoted (s : String) :
    (quoted s).toList = '"' :: (s.toList.flatMap escape ++ ['"']) := String.toList_ofList

/-- **A string in quotes is read back in one way.** -/
theorem quoted_unique {s t : String} {x y : List Char}
    (h : (quoted s).toList ++ x = (quoted t).toList ++ y) : s = t ∧ x = y := by
  rw [toList_quoted, toList_quoted] at h
  have hbody : s.toList.flatMap escape ++ ['"'] ++ x = t.toList.flatMap escape ++ ['"'] ++ y :=
    (List.cons.inj h).2
  rw [List.append_assoc, List.append_assoc] at hbody
  obtain ⟨hst, hxy⟩ := spelling_unique hbody
  exact ⟨String.toList_inj.1 hst, hxy⟩

end Json
end LoxFront
