/-
# Source texts in which there is nothing

The last item of a scan is the end marker, and no other is (`Scan.items_eq`).  It is
the only one if and only if the source is made of blanks and whole comments
(`Scan.gap_iff`).
-/

import LoxFront.Proofs.Scan.Apart
import LoxFront.Proofs.Scan.Layout

namespace LoxFront
namespace Scan

variable {s gap rest : List Char}

/-- The finds of a text end in the end marker, and no other token is one. -/
theorem items_eq (source : String) :
    ∃ found line, items source = found ++ [.token (.atEnd line)] ∧
      ∀ t, .token t ∈ found → t.kind ≠ .eof := by
  obtain ⟨found, line, hitems, hall⟩ := itemsFrom_concat 1 (pieces source.toList)
  refine ⟨found, line, hitems, fun t ht => ?_⟩
  obtain ⟨p, hp, n, hitem⟩ := hall _ ht
  obtain ⟨l, r, hsplit⟩ := List.append_of_mem hp
  exact ((pieces_cut hsplit).belongs_of_item hitem).kind_ne_eof

/-- A gap leaves nothing. -/
theorem Gap.items (h : Gap gap rest) (line : Nat) :
    ∃ n, itemsFrom line (pieces (gap ++ rest)) = itemsFrom n (pieces rest) := by
  induction h generalizing line with
  | nil => exact ⟨line, rfl⟩
  | @blank c gap rest hc _ ih =>
    have hblank : isBlank c = true := by simpa [isBlank, or_assoc] using hc
    obtain ⟨n, hn⟩ := ih (line + newlines [c])
    exact ⟨n, by rw [List.cons_append, pieces, first_of_isBlank hblank]; exact hn⟩
  | @comment body gap rest hbody hnext _ ih =>
    have hall : ∀ d ∈ body, (d != '\n') = true := fun d hd => by
      rw [bne_iff_ne]
      rintro rfl
      exact hbody hd
    obtain ⟨htake, hdrop⟩ := stretch_append hall fun d hd => bne_eq_false_iff_eq.2 (hnext d hd)
    have hfirst : first '/' ('/' :: (body ++ (gap ++ rest))) =
        (⟨.comment, '/' :: '/' :: body⟩, gap ++ rest) := by
      rw [first_slash, slash, htake, hdrop]
    obtain ⟨n, hn⟩ := ih (line + newlines ('/' :: '/' :: body))
    refine ⟨n, ?_⟩
    simp only [List.cons_append, List.append_assoc]
    rw [pieces, hfirst]
    exact hn

/-- A text that leaves nothing but the end marker is a gap. -/
theorem gap_of_items {line n : Nat} (h : itemsFrom line (pieces s) = [.token (.atEnd n)]) :
    Gap s [] := by
  fun_induction pieces s generalizing line n with
  | case1 => exact .nil
  | case2 c cs ih =>
    obtain ⟨found, n', hfound, -⟩ :=
      itemsFrom_concat (line + newlines (first c cs).1.text) (pieces (first c cs).2)
    rw [itemsFrom, hfound, ← List.append_assoc] at h
    have hbefore := (List.append_inj' (h.trans (List.nil_append _).symm) rfl).1
    obtain ⟨hnone, rfl⟩ := List.append_eq_nil_iff.1 hbefore
    have hgap : Gap (first c cs).2 [] := ih hfound
    have hcut := first_cuts c cs
    rw [← List.append_nil (first c cs).2] at hcut
    rw [← first_append c cs]
    have hfind : (first c cs).1.find? 0 (line + newlines (first c cs).1.text) = none := by
      rw [Piece.find?, Option.toList_eq_nil_iff.1 hnone]
      rfl
    exact hcut.gap hfind hgap

/-- **Only the end marker is found in blanks and comments**, and in nothing else. -/
theorem gap_iff (source : String) :
    Gap source.toList [] ↔ ∃ line, items source = [.token (.atEnd line)] := by
  refine ⟨fun h => ?_, fun ⟨n, hn⟩ => gap_of_items hn⟩
  obtain ⟨n, hn⟩ := h.items 1
  rw [List.append_nil, pieces, itemsFrom] at hn
  exact ⟨n, hn⟩

end Scan
end LoxFront
