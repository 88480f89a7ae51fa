/-
# A source text with other blanks

The lexemes of a source text can be set again with other blanks and comments between
them, before them and behind them.  As long as a blank follows each but the last, a
scan of the new text finds the same tokens, but for their lines
(`Scan.tokens_respaced`).
-/

import LoxFront.Proofs.Scan.Blank

namespace LoxFront

/-- What a token is, wherever it stands. -/
def Token.word (t : Token) : Kind × String × Payload := (t.kind, t.lexeme, t.payload)

namespace Scan

/-- Blanks and whole comments, each with the newline behind it. -/
inductive Trivia : List Char → Prop where
  | nil : Trivia []
  | blank {c : Char} {s : List Char} : c ∈ [' ', '\t', '\r', '\n'] → Trivia s → Trivia (c :: s)
  | comment {body s : List Char} : '\n' ∉ body → Trivia s →
    Trivia ('/' :: '/' :: body ++ '\n' :: s)

/-- Blanks and whole comments that begin with a blank. -/
def Separator (s : List Char) : Prop := Trivia s ∧ ∃ c ∈ s.head?, isBlank c = true

/-- The lexemes of the tokens, each with the text behind it. -/
def written (parts : List (Token × List Char)) : List Char :=
  parts.flatMap fun p => p.1.lexeme.toList ++ p.2

/-- Between the tokens stand separators.  Behind the last one there is some trivia, and if
that token is a slash no other slash follows it. -/
structure Spaced (parts : List (Token × List Char)) : Prop where
  between : ∀ p ∈ parts.dropLast, Separator p.2
  behind : ∀ p ∈ parts.getLast?, Trivia p.2 ∧ (p.1.kind = .slash → p.2.head? ≠ some '/')

variable {s rest : List Char} {k : Kind} {payload : Payload} {line : Nat}

/-! ### One part -/

/-- Trivia is a gap, whatever follows. -/
theorem Trivia.gap (h : Trivia s) (rest : List Char) : Gap s rest := by
  induction h with
  | nil => exact .nil
  | blank hc _ ih => exact .blank hc ih
  | comment hbody _ ih =>
    refine .comment hbody (fun d hd => (Option.some.inj hd).symm) ?_
    exact .blank (by decide) ih

/-- Trivia leaves nothing. -/
theorem Trivia.items (h : Trivia s) (line : Nat) (rest : List Char) :
    ∃ n, itemsFrom line (pieces (s ++ rest)) = itemsFrom n (pieces rest) :=
  (h.gap rest).items line

/-- A lexeme that stands apart leaves its token. -/
theorem Belongs.items {text : List Char} (h : Belongs k payload text) (hrest : Apart k rest)
    (line : Nat) :
    ∃ n, itemsFrom line (pieces (text ++ rest)) =
      .token ⟨k, String.ofList text, n, payload⟩ :: itemsFrom n (pieces rest) := by
  cases text with
  | nil => exact absurd ⟨k, payload, h⟩ not_isLexeme_nil
  | cons c u =>
    refine ⟨line + newlines (c :: u), ?_⟩
    rw [List.cons_append, pieces, h.first hrest]
    rfl

/-- A separator keeps every lexeme apart from what follows. -/
theorem Separator.apart (h : Separator s) (k : Kind) (rest : List Char) : Apart k (s ++ rest) := by
  obtain ⟨-, c, hc, hblank⟩ := h
  intro b hb
  cases s with
  | nil => exact nomatch hc
  | cons d s =>
    obtain rfl := Option.some.inj hc
    obtain rfl := Option.some.inj hb
    exact .inl hblank

/-- So does trivia, unless it is a comment right behind a slash. -/
theorem Trivia.apart (h : Trivia s) (hslash : k = .slash → s.head? ≠ some '/') : Apart k s := by
  intro b hb
  cases h with
  | nil => exact nomatch hb
  | blank hc =>
    obtain rfl := Option.some.inj hb
    exact .inl (by simpa [isBlank, or_assoc] using hc)
  | comment =>
    obtain rfl := Option.some.inj hb
    exact .inr ⟨rfl, fun hk => hslash hk rfl⟩

/-! ### All parts -/

/-- Behind the first part the other parts are spaced. -/
theorem Spaced.tail {p : Token × List Char} {parts : List (Token × List Char)}
    (h : Spaced (p :: parts)) : Spaced parts := by
  cases parts with
  | nil => exact ⟨fun _ hq => (nomatch hq), fun _ hq => (nomatch hq)⟩
  | cons q parts =>
    exact ⟨fun r hr => h.between r (List.mem_cons_of_mem _ hr),
      fun r hr => h.behind r (by rwa [List.getLast?_cons_cons])⟩

/-- The first part is set apart from the others. -/
theorem Spaced.head {p : Token × List Char} {parts : List (Token × List Char)}
    (h : Spaced (p :: parts)) : Trivia p.2 ∧ Apart p.1.kind (p.2 ++ written parts) := by
  cases parts with
  | nil =>
    obtain ⟨htrivia, hslash⟩ := h.behind p rfl
    rw [written, List.flatMap_nil, List.append_nil]
    exact ⟨htrivia, htrivia.apart hslash⟩
  | cons q parts =>
    have hseparator := h.between p List.mem_cons_self
    exact ⟨hseparator.1, hseparator.apart _ _⟩

/-- The parts leave their tokens again, on whatever lines. -/
theorem Spaced.items {parts : List (Token × List Char)} (h : Spaced parts)
    (hlexemes : ∀ p ∈ parts, Belongs p.1.kind p.1.payload p.1.lexeme.toList) (line : Nat) :
    ∃ ts n, itemsFrom line (pieces (written parts)) = (ts ++ [.atEnd n]).map Item.token ∧
      ts.map Token.word = parts.map fun p => p.1.word := by
  induction parts generalizing line with
  | nil => exact ⟨[], line, by rw [written, List.flatMap_nil, pieces]; rfl, rfl⟩
  | cons p parts ih =>
    obtain ⟨hp, hparts⟩ := List.forall_mem_cons.1 hlexemes
    obtain ⟨htrivia, hapart⟩ := h.head
    obtain ⟨m, hm⟩ := hp.items hapart line
    obtain ⟨n, hn⟩ := htrivia.items m (written parts)
    obtain ⟨ts, last, hts, hwords⟩ := ih h.tail hparts n
    refine ⟨⟨p.1.kind, p.1.lexeme, m, p.1.payload⟩ :: ts, last, ?_, ?_⟩
    · rw [written, List.flatMap_cons, List.append_assoc, ← written, hm, hn, hts,
        String.ofList_toList]
      rfl
    · exact congrArg (p.1.word :: ·) hwords

/-- **A source text may be set with other blanks.**  If a source text is scanned into the
tokens `body` and the end marker, then so is the text that has the same lexemes in any
spacing: the tokens have the same kinds, lexemes and values in the same order, and only
their lines can be others. -/
theorem tokens_respaced {source : String} {ts : List Token} (h : tokens source = .ok ts) :
    ∃ body line, ts = body ++ [.atEnd line] ∧
      ∀ (before : List Char) (parts : List (Token × List Char)), Trivia before → Spaced parts →
        parts.map Prod.fst = body →
          ∃ body' line', tokens (String.ofList (before ++ written parts)) =
            .ok (body' ++ [.atEnd line']) ∧ body'.map Token.word = body.map Token.word := by
  obtain ⟨body, line, rfl, hlexemes⟩ := tokens_eq_ok h
  refine ⟨body, line, rfl, fun before parts hbefore hspaced hparts => ?_⟩
  obtain ⟨n, hn⟩ := hbefore.items 1 (written parts)
  obtain ⟨body', line', hbody, hwords⟩ := hspaced.items
    (fun p hp => hlexemes p.1 (hparts ▸ List.mem_map_of_mem hp)) n
  refine ⟨body', line', tokens_eq_ok_iff.2 ?_, ?_⟩
  · rw [Scan.items, String.toList_ofList, hn, hbody]
  · rw [hwords, ← hparts, List.map_map]
    rfl

/-- The tokens of a quotient, each with the text behind it in a new setting. -/
def quotient : List (Token × List Char) :=
  [(⟨.number, "1.5", 1, .number (.ofDecimal 15 1)⟩, ['\t', '/', '/', '"', '\n']),
   (⟨.slash, "/", 1, .none⟩, [' ']),
   (⟨.string, "\"b\n\"", 2, .text "b\n"⟩, ['/', '/', '\n'])]

/-- The three tokens of a quotient, spaced differently, with a comment behind the slash. -/
theorem tokens_respaced_quotient :
    tokens "1.5/\"b\n\"" = .ok (quotient.map Prod.fst ++ [.atEnd 2]) ∧
      ∃ body line, tokens "\n1.5\t//\"\n/ \"b\n\"//\n" = .ok (body ++ [.atEnd line]) ∧
        body.map Token.word = [(.number, "1.5", .number (.ofDecimal 15 1)), (.slash, "/", .none),
          (.string, "\"b\n\"", .text "b\n")] := by
  have hscan : tokens "1.5/\"b\n\"" = .ok (quotient.map Prod.fst ++ [.atEnd 2]) := by
    decide +kernel
  refine ⟨hscan, ?_⟩
  obtain ⟨body, line, hbody, hrespaced⟩ := tokens_respaced hscan
  obtain ⟨hbody, -⟩ := List.append_inj' hbody rfl
  have hbefore : Trivia ['\n'] := .blank (by decide) .nil
  have hnumber : Separator ['\t', '/', '/', '"', '\n'] :=
    ⟨.blank (by decide) (@Trivia.comment ['"'] [] (by decide) .nil), '\t', rfl, rfl⟩
  have hslash : Separator [' '] := ⟨.blank (by decide) .nil, ' ', rfl, rfl⟩
  have hspaced : Spaced quotient := by
    refine ⟨by simpa [quotient] using ⟨hnumber, hslash⟩, fun p hp => ?_⟩
    obtain rfl := Option.some.inj hp
    exact ⟨@Trivia.comment [] [] (by decide) .nil, fun h => nomatch h⟩
  obtain ⟨body', line', htokens, hwords⟩ := hrespaced ['\n'] quotient hbefore hspaced hbody
  refine ⟨body', line', htokens, ?_⟩
  rw [hwords, ← hbody]
  rfl

end Scan
end LoxFront
