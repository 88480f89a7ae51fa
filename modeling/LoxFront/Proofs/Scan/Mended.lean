/-
# A source text with spaces for its stray characters

A scan goes on behind a character that it cannot use as if a space stood there.  With a
space in place of each character that a scan reports as unexpected
(`Scan.mended`), a source text is scanned without an error, into the tokens that were
found beside the errors (`Scan.tokens_mended`).
-/

import LoxFront.Proofs.Scan.Joined

namespace LoxFront
namespace Scan

/-- The item is a stray character. -/
def Item.isStray : Item → Bool
  | trouble _ (.stray _) => true
  | _ => false

/-- A stray character was found at this byte. -/
def strayAt (found : List Find) (offset : Nat) : Bool :=
  found.any fun f => f.first == offset && f.item.isStray

/-- A text that begins at a byte, with a space in place of each stray character. -/
def mendedFrom (found : List Find) (offset : Nat) : List Char → List Char
  | [] => []
  | c :: s =>
    (if strayAt found offset then ' ' else c) :: mendedFrom found (offset + c.utf8Size) s

/-- The source text with a space in place of each stray character. -/
def mended (source : String) : String :=
  .ofList (mendedFrom (finds source) 0 source.toList)

/-- The piece with a space in place of a stray character. -/
def Piece.mended (p : Piece) : Piece :=
  match p.shape with
  | .stray _ => ⟨.blank, [' ']⟩
  | _ => p

variable {found found' : List Find} {offset line : Nat} {s t rest : List Char} {p : Piece}
  {ps : List Piece}

/-! ### The characters that are replaced -/

/-- Only finds in the text matter for it. -/
theorem mendedFrom_congr
    (h : ∀ o, offset ≤ o → o < offset + size s → strayAt found o = strayAt found' o) :
    mendedFrom found offset s = mendedFrom found' offset s := by
  induction s generalizing offset with
  | nil => rfl
  | cons c s ih =>
    have hpos := c.utf8Size_pos
    rw [size_cons] at h
    rw [mendedFrom, mendedFrom, h offset (Nat.le_refl _) (by omega),
      ih fun o hle hlt => h o (by omega) (by omega)]

/-- Where nothing is found nothing is replaced. -/
theorem mendedFrom_nil (offset : Nat) (s : List Char) : mendedFrom [] offset s = s := by
  induction s generalizing offset with
  | nil => rfl
  | cons c s ih => exact congrArg (c :: ·) (ih _)

/-- A text is mended part by part, each from its own place on. -/
theorem mendedFrom_append (found : List Find) (offset : Nat) (s t : List Char) :
    mendedFrom found offset (s ++ t) =
      mendedFrom found offset s ++ mendedFrom found (offset + size s) t := by
  induction s generalizing offset with
  | nil => rfl
  | cons c s ih => rw [List.cons_append, mendedFrom, ih, mendedFrom, size_cons, Nat.add_assoc]; rfl

/-- A place is one of a stray character if the one or the other list of finds says so. -/
theorem strayAt_append (found found' : List Find) (offset : Nat) :
    strayAt (found ++ found') offset = (strayAt found offset || strayAt found' offset) :=
  List.any_append

/-- No find at a place, no stray character there. -/
theorem strayAt_eq_false (h : ∀ f ∈ found, f.first ≠ offset) : strayAt found offset = false := by
  refine List.any_eq_false.2 fun f hf => ?_
  simp [h f hf]

/-- Finds stand behind the place where the pieces begin. -/
theorem le_first_of_mem_findsFrom {f : Find} (h : f ∈ findsFrom offset line ps) :
    offset ≤ f.first := by
  rcases mem_findsFrom_iff.1 h with ⟨l, q, r, -, hfind⟩ | rfl
  · obtain ⟨i, -, rfl⟩ := Option.map_eq_some_iff.1 hfind
    exact Nat.le_add_right _ _
  · exact Nat.le_add_right _ _

/-- A text without a stray character stays as it is. -/
theorem mendedFrom_of_no_stray (h : ∀ o, strayAt found o = false) (offset : Nat) (s : List Char) :
    mendedFrom found offset s = s :=
  (mendedFrom_congr fun o _ _ => h o).trans (mendedFrom_nil offset s)

/-- In the text of a piece that character is replaced that the piece is, if it is stray. -/
theorem Cuts.mendedFrom_text (h : Cuts p t) (offset line : Nat) :
    mendedFrom (p.find? offset line).toList offset p.text = p.mended.text := by
  cases h with
  | stray => simp [Piece.find?, Piece.item?, mendedFrom, strayAt, Item.isStray, Piece.mended]
  | blank | comment => exact mendedFrom_nil _ _
  | lexeme | openString =>
    refine mendedFrom_of_no_stray (fun o => ?_) _ _
    simp [Piece.find?, Piece.item?, strayAt, Item.isStray]

/-- **A text is mended piece by piece.** -/
theorem mendedFrom_findsFrom (h : Divided ps) (offset line : Nat) :
    mendedFrom (findsFrom offset line ps) offset (ps.flatMap Piece.text) =
      (ps.map Piece.mended).flatMap Piece.text := by
  induction h generalizing offset line with
  | nil => rfl
  | @cons p ps hp _ ih =>
    have hsize := size_pos hp.text_ne_nil
    -- what later pieces leave stands behind this one, and what it leaves at its first byte
    have hhead (o : Nat) (hlt : o < offset + size p.text) :
        strayAt (findsFrom (offset + size p.text) (line + newlines p.text) ps) o = false := by
      refine strayAt_eq_false fun f hf => ?_
      have hle := le_first_of_mem_findsFrom hf
      omega
    have htail (o : Nat) (hle : offset + size p.text ≤ o) :
        strayAt (p.find? offset (line + newlines p.text)).toList o = false := by
      refine strayAt_eq_false fun f hf => ?_
      obtain ⟨i, -, rfl⟩ := Option.map_eq_some_iff.1 (Option.mem_toList.1 hf)
      show offset ≠ o
      omega
    rw [List.flatMap_cons, findsFrom, mendedFrom_append, List.map_cons, List.flatMap_cons,
      ← ih (offset + size p.text) (line + newlines p.text),
      ← hp.mendedFrom_text offset (line + newlines p.text)]
    congr 1
    · refine mendedFrom_congr fun o _ hlt => ?_
      rw [strayAt_append, hhead o hlt, Bool.or_false]
    · refine mendedFrom_congr fun o hle _ => ?_
      rw [strayAt_append, htail o hle, Bool.false_or]

/-! ### One piece -/

/-- From a stray character on, or from a later one, a text goes on with a space. -/
theorem Cuts.upToBlank_mended (h : Cuts p rest) (ht : UpToBlank s t) :
    UpToBlank (p.text ++ s) (p.mended.text ++ t) := by
  cases h with
  | stray hblank => exact @UpToBlank.space [] _ _ _ hblank
  | blank | comment | lexeme | openString => exact ht.append _

/-- A mended piece is as long as it can be. -/
theorem Cuts.mended (h : Cuts p s) (hp : p.shape ≠ .openString) (ht : UpToBlank s t) :
    Cuts p.mended t := by
  have hcut := h.upToBlank hp ht
  cases h with
  | stray => exact .blank (by decide)
  | blank | comment | lexeme | openString => exact hcut

/-- A stray character is no newline. -/
theorem Cuts.newlines_mended (h : Cuts p rest) : newlines p.mended.text = newlines p.text := by
  cases h with
  | @stray c _ hblank =>
    refine (List.count_eq_zero.2 fun hmem => ?_).symm
    obtain rfl := List.mem_singleton.1 hmem
    exact absurd hblank (by decide)
  | blank | comment | lexeme | openString => rfl

/-- A mended piece leaves the token of the piece, and no error. -/
theorem Cuts.item?_mended (h : Cuts p rest) (hp : p.shape ≠ .openString) (line : Nat) :
    (p.mended.item? line).toList =
      ((p.item? line).toList.filterMap Item.token?).map Item.token := by
  cases h with
  | blank | comment | lexeme | stray => rfl
  | openString => exact absurd rfl hp

/-! ### All pieces -/

/-- Up to its first stray character a text stays the same. -/
theorem Divided.upToBlank_mended (h : Divided ps) :
    UpToBlank (ps.flatMap Piece.text) ((ps.map Piece.mended).flatMap Piece.text) := by
  induction h with
  | nil => exact .same
  | cons hp _ ih => exact hp.upToBlank_mended ih

/-- **A space parts as a stray character does**: the other pieces stay as they are. -/
theorem Divided.mended (h : Divided ps) (hopen : ∀ p ∈ ps, p.shape ≠ .openString) :
    Divided (ps.map Piece.mended) := by
  induction h with
  | nil => exact .nil
  | cons hp hps ih =>
    obtain ⟨hpopen, hopen⟩ := List.forall_mem_cons.1 hopen
    exact .cons (hp.mended hpopen hps.upToBlank_mended) (ih hopen)

/-- The pieces of a mended text are the mended pieces of the text, if no string is left open. -/
theorem pieces_mended {source : String}
    (hopen : ∀ p ∈ pieces source.toList, p.shape ≠ .openString) :
    pieces (mended source).toList = (pieces source.toList).map Piece.mended := by
  refine pieces_eq_iff.2 ⟨(divided_pieces _).mended hopen, ?_⟩
  rw [← mendedFrom_findsFrom (divided_pieces _) 0 1, flatMap_pieces, Scan.mended,
    String.toList_ofList, finds]

/-- Mended pieces leave the tokens of the pieces, on the same lines. -/
theorem itemsFrom_mended (h : Divided ps) (hopen : ∀ p ∈ ps, p.shape ≠ .openString)
    (line : Nat) :
    itemsFrom line (ps.map Piece.mended) =
      ((itemsFrom line ps).filterMap Item.token?).map Item.token := by
  induction h generalizing line with
  | nil => rfl
  | cons hp _ ih =>
    obtain ⟨hpopen, hopen⟩ := List.forall_mem_cons.1 hopen
    rw [List.map_cons, itemsFrom, itemsFrom, hp.newlines_mended, hp.item?_mended hpopen,
      ih hopen, List.filterMap_append, List.map_append]

/-- **A scan goes on behind a stray character as behind a space.**  If all strings of a
source text are closed, the text with a space in place of each stray character is
scanned without an error, into the tokens that the scan of the text itself finds beside
its errors. -/
theorem tokens_mended {source : String} (h : ∀ line, .trouble line .openString ∉ items source) :
    tokens (mended source) = .ok ((items source).filterMap Item.token?) := by
  have hopen := shape_ne_openString h
  rw [tokens_eq_ok_iff, items, items, pieces_mended hopen,
    itemsFrom_mended (divided_pieces _) hopen]

/-- Stray characters of one byte and of two become blanks, and those in a comment or a string
stay. -/
theorem tokens_mended_multibyte :
    (∀ line, .trouble line .openString ∉ items "1.é2\n=@=/#/\"é\"") ∧
      mended "1.é2\n=@=/#/\"é\"" = "1  2\n= =/ /\"é\"" ∧
      tokens "1  2\n= =/ /\"é\"" = .ok [⟨.number, "1", 1, .number (.ofDecimal 1 0)⟩,
        ⟨.number, "2", 1, .number (.ofDecimal 2 0)⟩, ⟨.equal, "=", 2, .none⟩,
        ⟨.equal, "=", 2, .none⟩, ⟨.slash, "/", 2, .none⟩, ⟨.slash, "/", 2, .none⟩,
        ⟨.string, "\"é\"", 2, .text "é"⟩, .atEnd 2] := by
  have hitems : items "1.é2\n=@=/#/\"é\"" =
      [.token ⟨.number, "1", 1, .number (.ofDecimal 1 0)⟩, .trouble 1 (.stray '.'),
        .trouble 1 (.stray 'é'), .token ⟨.number, "2", 1, .number (.ofDecimal 2 0)⟩,
        .token ⟨.equal, "=", 2, .none⟩, .trouble 2 (.stray '@'),
        .token ⟨.equal, "=", 2, .none⟩, .token ⟨.slash, "/", 2, .none⟩,
        .trouble 2 (.stray '#'), .token ⟨.slash, "/", 2, .none⟩,
        .token ⟨.string, "\"é\"", 2, .text "é"⟩, .token (.atEnd 2)] := by
    decide +kernel
  have hopen : ∀ line, .trouble line .openString ∉ items "1.é2\n=@=/#/\"é\"" := by
    rw [hitems]
    simp
  have hmended : mended "1.é2\n=@=/#/\"é\"" = "1  2\n= =/ /\"é\"" := by decide +kernel
  have htokens := tokens_mended hopen
  rw [hitems, hmended] at htokens
  exact ⟨hopen, hmended, htokens⟩

end Scan
end LoxFront
