/-
# Two source texts with a line break between them

What a scan finds in two texts that are joined by a newline is what it finds in each
(`Scan.items_joined`): the newline ends whatever the first text ends with, unless that
is a string that is not closed, and the second text is scanned as if it stood alone, on
later lines.
-/

import LoxFront.Proofs.Scan.Division
import LoxFront.Proofs.Scan.Finds

namespace LoxFront
namespace Scan

/-- The item so many lines further down. -/
def Item.lower (n : Nat) : Item → Item
  | token t => .token { t with line := t.line + n }
  | trouble line cause => .trouble (line + n) cause

variable {ps qs : List Piece}

/-! ### Pieces one behind the other -/

/-- Pieces of two texts divide the first text, a newline and the second one. -/
theorem Divided.joined (hps : Divided ps) (hopen : ∀ p ∈ ps, p.shape ≠ .openString)
    (hqs : Divided qs) : Divided (ps ++ ⟨.blank, ['\n']⟩ :: qs) := by
  induction hps with
  | nil => exact .cons (.blank (by decide)) hqs
  | @cons p ps hp _ ih =>
    obtain ⟨hpopen, hopen⟩ := List.forall_mem_cons.1 hopen
    refine .cons (hp.upToBlank hpopen ?_) (ih hopen)
    rw [List.append_eq, List.flatMap_append]
    exact .line

/-- A newline parts the pieces of two texts if the first one leaves no string open. -/
theorem pieces_joined {s : List Char} (hopen : ∀ p ∈ pieces s, p.shape ≠ .openString)
    (t : List Char) : pieces (s ++ '\n' :: t) = pieces s ++ ⟨.blank, ['\n']⟩ :: pieces t := by
  refine pieces_eq_iff.2 ⟨(divided_pieces s).joined hopen (divided_pieces t), ?_⟩
  rw [List.flatMap_append, List.flatMap_cons, flatMap_pieces, flatMap_pieces]
  rfl

/-- What is found in the first pieces, up to their end, and then in the others. -/
theorem itemsFrom_append (line : Nat) (ps qs : List Piece) :
    itemsFrom line (ps ++ qs) =
      (itemsFrom line ps).dropLast ++ itemsFrom (line + newlines (ps.flatMap Piece.text)) qs := by
  induction ps generalizing line with
  | nil => rfl
  | cons p ps ih =>
    have hne : itemsFrom (line + newlines p.text) ps ≠ [] := by
      obtain ⟨found, n, hfound, -⟩ := itemsFrom_concat (line + newlines p.text) ps
      simp [hfound]
    rw [List.cons_append, itemsFrom, ih, itemsFrom, List.dropLast_append_of_ne_nil hne,
      List.append_assoc, List.flatMap_cons, newlines_append, Nat.add_assoc]

/-- What a piece leaves is moved down with its line. -/
theorem Piece.item?_lower (p : Piece) (line n : Nat) :
    p.item? (line + n) = (p.item? line).map (Item.lower n) := by
  unfold Piece.item?
  split <;> rfl

/-- Lines are counted from where the text begins. -/
theorem itemsFrom_lower (line n : Nat) (ps : List Piece) :
    itemsFrom (line + n) ps = (itemsFrom line ps).map (Item.lower n) := by
  induction ps generalizing line with
  | nil => rfl
  | cons p ps ih =>
    rw [itemsFrom, itemsFrom, Nat.add_right_comm, ih, Piece.item?_lower, List.map_append]
    cases p.item? (line + newlines p.text) <;> rfl

/-! ### Strings that are not closed -/

/-- A piece leaves its item. -/
theorem exists_mem_itemsFrom {p : Piece} (h : p ∈ ps) (line : Nat) :
    ∃ n, ∀ i ∈ p.item? n, i ∈ itemsFrom line ps := by
  induction ps generalizing line with
  | nil => exact absurd h List.not_mem_nil
  | cons q ps ih =>
    rw [itemsFrom]
    rcases List.mem_cons.1 h with rfl | h
    · exact ⟨_, fun i hi => List.mem_append_left _ (Option.mem_toList.2 hi)⟩
    · obtain ⟨n, hn⟩ := ih h (line + newlines q.text)
      exact ⟨n, fun i hi => List.mem_append_right _ (hn i hi)⟩

/-- Where no open string is reported there is none. -/
theorem shape_ne_openString {line : Nat}
    (h : ∀ n, Item.trouble n .openString ∉ itemsFrom line ps) :
    ∀ p ∈ ps, p.shape ≠ .openString := by
  intro p hp hshape
  obtain ⟨n, hn⟩ := exists_mem_itemsFrom hp line
  refine h n (hn _ ?_)
  rw [Piece.item?, hshape]
  rfl

/-- **A scan goes through line breaks.**  If all strings of the first text are closed, the
items of two texts with a newline between them are those of the first but for its end
marker, and then those of the second, each as many lines further down as there are
newlines before the second text. -/
theorem items_joined {a : String} (h : ∀ line, .trouble line .openString ∉ items a)
    (b : String) :
    items (a ++ "\n" ++ b) =
      (items a).dropLast ++ (items b).map (Item.lower (1 + newlines a.toList)) := by
  have hopen := shape_ne_openString h
  have htext : (a ++ "\n" ++ b).toList = a.toList ++ '\n' :: b.toList := by simp
  rw [items, htext, pieces_joined hopen, itemsFrom_append, flatMap_pieces, items, items,
    ← itemsFrom_lower, Nat.add_comm 1 (1 + newlines a.toList)]
  -- the newline between them leaves nothing
  rfl

/-- A comment and a stray character before the newline do not reach behind it. -/
theorem items_joined_comment :
    (∀ line, .trouble line .openString ∉ items "1.\n=// é\"") ∧
      items "1.\n=// é\"\n=\"\n" = [.token ⟨.number, "1", 1, .number (.ofDecimal 1 0)⟩,
        .trouble 1 (.stray '.'), .token ⟨.equal, "=", 2, .none⟩, .token ⟨.equal, "=", 3, .none⟩,
        .trouble 4 .openString, .token (.atEnd 4)] := by
  have hfirst : items "1.\n=// é\"" = [.token ⟨.number, "1", 1, .number (.ofDecimal 1 0)⟩,
      .trouble 1 (.stray '.'), .token ⟨.equal, "=", 2, .none⟩, .token (.atEnd 2)] := by
    decide +kernel
  have hopen : ∀ line, .trouble line .openString ∉ items "1.\n=// é\"" := by
    rw [hfirst]
    simp
  have hjoined := items_joined hopen "=\"\n"
  have hsecond : items "=\"\n" = [.token ⟨.equal, "=", 1, .none⟩, .trouble 2 .openString,
      .token (.atEnd 2)] := by decide +kernel
  rw [hfirst, hsecond] at hjoined
  exact ⟨hopen, hjoined⟩

end Scan
end LoxFront
