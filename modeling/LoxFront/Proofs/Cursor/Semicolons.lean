/-
# Semicolons between places

Two places in a list of tokens are parted if a semicolon stands between them or the
later one is the end (`Parted`).  Panic mode goes to a place that is parted from the
one where it began (`Cursor.On.parted_resume`), and passes a semicolon unless it comes
to the end (`Cursor.resume_semicolons`).  It passes no other one: just the tokens up to
the first semicolon are dropped (`Cursor.On.drops_resume`).
-/

import LoxFront.Proofs.Cursor.Passes

namespace LoxFront

/-- A semicolon stands at the place `p` of the list or behind it, and before the place `q`. -/
def SemicolonIn (tokens : List Token) (p q : Nat) : Prop :=
  ∃ s t, p ≤ s ∧ s < q ∧ tokens[s]? = some t ∧ t.kind = .semicolon

/-- Between the two places stands a semicolon, or the later one is the last of the list. -/
def Parted (tokens : List Token) (p q : Nat) : Prop :=
  SemicolonIn tokens p q ∨ p ≤ q ∧ q + 1 = tokens.length

/-- From the place `p` up to the place `q` tokens are dropped: the first semicolon and
all before it, or if there is none all but the last token of the list. -/
def Drops (tokens : List Token) (p q : Nat) : Prop :=
  (∃ s t, p ≤ s ∧ q = s + 1 ∧ tokens[s]? = some t ∧ t.kind = .semicolon ∧
      ∀ i u, p ≤ i → i < s → tokens[i]? = some u → u.kind ≠ .semicolon) ∨
    p ≤ q ∧ q + 1 = tokens.length ∧ ∀ i u, p ≤ i → tokens[i]? = some u → u.kind ≠ .semicolon

variable {tokens : List Token} {p q : Nat}

/-- Dropping tokens does not go back. -/
theorem Drops.le (h : Drops tokens p q) : p ≤ q := by
  rcases h with ⟨s, t, hp, rfl, -⟩ | ⟨hle, -⟩
  · exact Nat.le_succ_of_le hp
  · exact hle

/-- What a semicolon parts stands in its order. -/
theorem Parted.le (h : Parted tokens p q) : p ≤ q := by
  rcases h with ⟨s, t, hp, hq, -⟩ | ⟨hle, -⟩
  · omega
  · exact hle

/-- What is parted from a place is parted from all places behind it. -/
theorem Parted.mono {q' : Nat} (h : Parted tokens p q) (hle : q ≤ q') (hlt : q' < tokens.length) :
    Parted tokens p q' := by
  rcases h with ⟨s, t, hp, hq, ht⟩ | ⟨hp, hlast⟩
  · exact .inl ⟨s, t, hp, Nat.lt_of_lt_of_le hq hle, ht⟩
  · exact .inr ⟨Nat.le_trans hp hle, by omega⟩

namespace Cursor

variable {c d : Cursor}

/-- The cursor stands in this list of tokens. -/
def On (tokens : List Token) (c : Cursor) : Prop :=
  tokens.drop c.position = c.rest ++ [c.marker]

/-- How many semicolons there are from the cursor on. -/
def semicolons (c : Cursor) : Nat := c.rest.countP fun t => t.kind == .semicolon

/-- A place that is reached from a place in a list is a place in that list. -/
theorem On.of_reaches (h : c.On tokens) (hd : c.Reaches d) : d.On tokens := by
  obtain ⟨passed, hpassed⟩ := hd
  rw [On, hpassed.position, ← List.drop_drop, h, hpassed.rest, hpassed.marker, List.append_assoc,
    List.drop_left]

/-- The tokens before a place, those behind it and the end marker are the whole list. -/
theorem On.length (h : c.On tokens) : c.position + c.rest.length + 1 = tokens.length := by
  have hlen := congrArg List.length h
  rw [List.length_drop, List.length_append, List.length_singleton] at hlen
  omega

/-- The list ends in the end marker of the cursor. -/
theorem On.getLast? (h : c.On tokens) : tokens.getLast? = some c.marker := by
  have hlen := h.length
  have hlast := congrArg List.getLast? h
  rwa [List.getLast?_concat, List.getLast?_drop, if_neg (by omega)] at hlast

/-- A token ahead of the cursor stands in the list. -/
theorem On.getElem? (h : c.On tokens) {i : Nat} {t : Token} (ht : c.rest[i]? = some t) :
    tokens[c.position + i]? = some t := by
  have hi : i < c.rest.length := (List.getElem?_eq_some_iff.1 ht).1
  rw [← List.getElem?_drop, h, List.getElem?_append_left hi, ht]

/-- The token at a cursor stands in the list at its position. -/
theorem On.getElem?_position (h : c.On tokens) : tokens[c.position]? = some c.peek := by
  rw [← Nat.add_zero c.position, ← List.getElem?_drop, h, peek]
  cases c.rest <;> rfl

/-- Semicolons only get fewer on the way. -/
theorem Reaches.semicolons_le (h : c.Reaches d) : d.semicolons ≤ c.semicolons := by
  obtain ⟨passed, hpassed⟩ := h
  rw [semicolons, semicolons, hpassed.rest, List.countP_append]
  exact Nat.le_add_left _ _

/-- At the end there is no semicolon left. -/
theorem semicolons_of_isAtEnd (h : c.isAtEnd = true) : c.semicolons = 0 := by
  rw [semicolons, rest_eq_nil h]
  rfl

/-! ### Panic mode -/

/-- Up to the first semicolon there is no other, and if there is none all tokens are counted. -/
theorem toSemicolon_cases (ts : List Token) :
    (∃ i t, toSemicolon ts = i + 1 ∧ ts[i]? = some t ∧ t.kind = .semicolon ∧
      (ts.drop (i + 1)).countP (fun t => t.kind == .semicolon) + 1 =
        ts.countP fun t => t.kind == .semicolon) ∨
      (toSemicolon ts = ts.length ∧ ts.countP (fun t => t.kind == .semicolon) = 0) := by
  induction ts with
  | nil => exact .inr ⟨rfl, rfl⟩
  | cons t ts ih =>
    by_cases hk : t.kind = .semicolon
    · refine .inl ⟨0, t, by rw [toSemicolon, if_pos hk], rfl, hk, ?_⟩
      rw [List.countP_cons_of_pos (by simpa using hk)]
      rfl
    · rw [toSemicolon, if_neg hk, List.countP_cons_of_neg (by simpa using hk)]
      rcases ih with ⟨i, s, hi, hs, hks, hcount⟩ | ⟨hlen, hcount⟩
      · exact .inl ⟨i + 1, s, by rw [hi], hs, hks, hcount⟩
      · exact .inr ⟨by rw [hlen, List.length_cons], hcount⟩

/-- The tokens are counted up to the first semicolon, or all of them. -/
theorem toSemicolon_first (ts : List Token) :
    (∃ i t, toSemicolon ts = i + 1 ∧ ts[i]? = some t ∧ t.kind = .semicolon ∧
      ∀ j u, j < i → ts[j]? = some u → u.kind ≠ .semicolon) ∨
      (toSemicolon ts = ts.length ∧ ∀ t ∈ ts, t.kind ≠ .semicolon) := by
  induction ts with
  | nil => exact .inr ⟨rfl, List.forall_mem_nil _⟩
  | cons t ts ih =>
    by_cases hk : t.kind = .semicolon
    · exact .inl ⟨0, t, by rw [toSemicolon, if_pos hk], rfl, hk, fun j u hj => by omega⟩
    · rw [toSemicolon, if_neg hk]
      rcases ih with ⟨i, s, hi, hs, hks, hfirst⟩ | ⟨hlen, hnone⟩
      · refine .inl ⟨i + 1, s, by rw [hi], hs, hks, fun j u hj hu => ?_⟩
        cases j with
        | zero => exact Option.some.inj hu ▸ hk
        | succ j => exact hfirst j u (Nat.lt_of_succ_lt_succ hj) hu
      · exact .inr ⟨by rw [hlen, List.length_cons], List.forall_mem_cons.2 ⟨hk, hnone⟩⟩

/-- At the end panic mode drops nothing. -/
theorem resume_of_isAtEnd (h : c.isAtEnd = true) : c.resume = c := by
  obtain ⟨rest, marker, position, depth⟩ := c
  obtain rfl : rest = [] := rest_eq_nil h
  rfl

/-- Panic mode passes a semicolon, or there is none and it comes to the end. -/
theorem resume_semicolons (c : Cursor) :
    c.resume.semicolons + 1 = c.semicolons ∨ c.resume.isAtEnd = true ∧ c.semicolons = 0 := by
  rcases toSemicolon_cases c.rest with ⟨i, t, hi, -, -, hcount⟩ | ⟨hlen, hcount⟩
  · refine .inl ?_
    rw [semicolons, resume, hi]
    exact hcount
  · refine .inr ⟨?_, hcount⟩
    rw [isAtEnd, resume, hlen, List.drop_length]
    rfl

/-- **Panic mode goes to a place that is parted** from the one where it began. -/
theorem On.parted_resume (h : c.On tokens) : Parted tokens c.position c.resume.position := by
  rcases toSemicolon_cases c.rest with ⟨i, t, hi, ht, hk, -⟩ | ⟨hlen, -⟩
  · refine .inl ⟨c.position + i, t, Nat.le_add_right _ _, ?_, h.getElem? ht, hk⟩
    rw [resume, hi]
    exact Nat.lt_succ_self _
  · refine .inr ⟨c.reaches_resume.position_le, ?_⟩
    rw [resume, hlen]
    exact h.length

/-- **Panic mode drops the tokens up to the first semicolon**, and no others. -/
theorem On.drops_resume (h : c.On tokens) (hm : c.marker.kind = .eof) :
    Drops tokens c.position c.resume.position := by
  have hposition : c.resume.position = c.position + toSemicolon c.rest := rfl
  have hat {i : Nat} {u : Token} (hi : c.position ≤ i) (hu : tokens[i]? = some u) :
      (c.rest ++ [c.marker])[i - c.position]? = some u := by
    rw [← show tokens.drop c.position = _ from h, List.getElem?_drop, Nat.add_sub_cancel' hi, hu]
  rcases toSemicolon_first c.rest with ⟨i, t, hi, ht, hk, hfirst⟩ | ⟨hlen, hnone⟩
  · refine .inl ⟨c.position + i, t, Nat.le_add_right _ _, by rw [hposition, hi]; rfl, h.getElem? ht,
      hk, fun j u hle hlt hu => ?_⟩
    have hlen := (List.getElem?_eq_some_iff.1 ht).1
    have hj := hat hle hu
    rw [List.getElem?_append_left (by omega)] at hj
    exact hfirst _ u (by omega) hj
  · refine .inr ⟨c.reaches_resume.position_le, by rw [hposition, hlen]; exact h.length,
      fun j u hle hu => ?_⟩
    rcases List.mem_append.1 (List.mem_of_getElem? (hat hle hu)) with hmem | hmem
    · exact hnone u hmem
    · rw [List.mem_singleton.1 hmem, hm]
      decide

end Cursor
end LoxFront
