/-
# On which line a find is

A token or an error is on the line on which its text ends (`Scan.lines_exact`): one, and
one more for each newline before that place, wherever in the source the newline stands.
A newline is a byte of its own (`Scan.count_bytes`), so lines can be counted in bytes.
-/

import LoxFront.Proofs.Scan.Layout

namespace LoxFront
namespace Scan

/-- The line of an item. -/
def Item.line : Item → Nat
  | token t => t.line
  | trouble line _ => line

/-- The byte of a newline. -/
def newlineByte : UInt8 := 10

/-- Among single bytes only that of the newline reads as one. -/
theorem ofUInt8_eq_newline_iff {b : UInt8} : Char.ofUInt8 b = '\n' ↔ b = newlineByte := by
  refine ⟨fun h => UInt8.toNat_inj.1 ?_, fun h => h ▸ rfl⟩
  have hnat : b.toUInt32.toNat = 10 := congrArg Char.toNat h
  rwa [UInt8.toNat_toUInt32] at hnat

/-- The newlines of a text are as many as their bytes. -/
theorem count_bytes (s : List Char) : (bytes s).count newlineByte = newlines s := by
  rw [← Machine.countP_newlines, List.count]
  refine List.countP_congr fun b _ => ?_
  rw [beq_iff_eq, beq_iff_eq, ofUInt8_eq_newline_iff]

/-- What a piece leaves stands on the line that it is given. -/
theorem Piece.line_of_item? {p : Piece} {line : Nat} {i : Item} (h : p.item? line = some i) :
    i.line = line := by
  unfold Piece.item? at h
  split at h <;> cases h <;> rfl

/-- A find stands for a text of the source, and its line is counted up to the end of that
text. -/
theorem stands_of_mem_finds {source : String} {f : Find} (h : f ∈ finds source) :
    ∃ before text rest, source.toList = before ++ text ++ rest ∧ f.first = size before ∧
      f.last = size (before ++ text) ∧ Stands f.given.result text rest ∧
        f.item.line = 1 + newlines (before ++ text) := by
  rcases mem_finds_iff.1 h with ⟨l, p, r, hsplit, hfind⟩ | rfl
  · obtain ⟨hfirst, hlast, hstands⟩ := (pieces_cut hsplit).stands hfind
    obtain ⟨i, hi, rfl⟩ := Option.map_eq_some_iff.1 hfind
    refine ⟨l.flatMap Piece.text, p.text, r.flatMap Piece.text, ?_, hfirst, ?_, hstands, ?_⟩
    · rw [← flatMap_pieces source.toList, hsplit, List.flatMap_append, List.flatMap_cons,
        List.append_assoc]
    · rw [hlast, size_append]
    · rw [newlines_append, ← Nat.add_assoc]
      exact Piece.line_of_item? hi
  · refine ⟨source.toList, [], [], by simp, rfl, by simp, .atEnd, by simp; rfl⟩

/-- The line of a find, counted in bytes. -/
theorem line_of_mem_finds {source : String} {f : Find} (h : f ∈ finds source) :
    f.item.line = 1 + ((bytes source.toList).take f.last).count newlineByte := by
  obtain ⟨before, text, rest, hsource, -, hlast, -, hline⟩ := stands_of_mem_finds h
  rw [hline, hsource, bytes_append, hlast, ← length_bytes, List.take_left, count_bytes]

/-- The end marker is on the line behind all newlines. -/
theorem itemsFrom_getLast? (line : Nat) (ps : List Piece) :
    (itemsFrom line ps).getLast? =
      some (.token (.atEnd (line + newlines (ps.flatMap Piece.text)))) := by
  induction ps generalizing line with
  | nil => rfl
  | cons p ps ih =>
    rw [itemsFrom, List.getLast?_append, ih, List.flatMap_cons, newlines_append, Nat.add_assoc]
    rfl

/-- **Lines are exact.**  The walk over the bytes of a source gives the items of the scan,
each for the bytes that it stands for: a token for its lexeme, a stray character for
itself and an open string for all that is left.  The line of each is one, and one more
for each newline byte before the end of these bytes; the end marker's counts all
newlines, and from one item to the next the line never falls. -/
theorem lines_exact (source : String) :
    walk source = some ((finds source).map Find.given) ∧
      (finds source).map Find.item = items source ∧
      (∀ f ∈ finds source,
        f.item.line = 1 + ((bytes source.toList).take f.last).count newlineByte ∧
          ∃ before text rest, source.toList = before ++ text ++ rest ∧ f.first = size before ∧
            f.last = size (before ++ text) ∧ Stands f.given.result text rest) ∧
      (items source).getLast? =
        some (.token (.atEnd (1 + (bytes source.toList).count newlineByte))) ∧
      (items source).Pairwise fun i j => i.line ≤ j.line := by
  refine ⟨walk_eq source, finds_map_item source, fun f hf => ⟨line_of_mem_finds hf, ?_⟩, ?_, ?_⟩
  · obtain ⟨before, text, rest, hsource, hfirst, hlast, hstands, -⟩ := stands_of_mem_finds hf
    exact ⟨before, text, rest, hsource, hfirst, hlast, hstands⟩
  · rw [items, itemsFrom_getLast?, flatMap_pieces, count_bytes]
  · -- a find that comes later ends later, and more newlines are before its end
    rw [← finds_map_item, List.pairwise_map]
    refine (findsFrom_pairwise 0 1 (pieces source.toList)).imp_of_mem fun {f g} hf hg hle => ?_
    obtain ⟨before, text, -, -, hfirst, hlast, -⟩ := stands_of_mem_finds hg
    have hend : f.last ≤ g.last := by
      rw [hlast, size_append, ← hfirst]
      exact Nat.le_trans hle (Nat.le_add_right _ _)
    rw [line_of_mem_finds hf, line_of_mem_finds hg]
    exact Nat.add_le_add_left ((List.take_prefix_take_left hend).sublist.count_le _) 1

/-- A string is on the line of its closing quote. -/
example : (items "\"a\nb\" // c\n.\n1").map Item.line = [2, 3, 4, 4] := by decide +kernel

end Scan
end LoxFront
