/-
# What a leaf of a printed tree shows

A leaf is printed as a string in quotes or as one word (`Token.nested_text`,
`Token.Lexed.nested_sound`).  Leaves of a source text that print alike have the same value
(`Token.Lexed.leafLike`), with one exception: a number beyond all range prints as `inf`, and so
does a variable of this name.  Operators and names print as they are spelled, and are settled by
it (`Token.Lexed.word_eq`).
-/

import LoxFront.Tree.Printer
import LoxFront.Proofs.Decimal.Listing
import LoxFront.Proofs.Scan.Respaced
import LoxFront.Proofs.Source.Expr
import LoxFront.Proofs.Tree.Json
import LoxFront.Proofs.Tree.Nested

namespace LoxFront
namespace Token

variable {s t : Token}

/-- Leaves that print alike.  They are of the same kind and have the same value, unless both
print as `inf`. -/
structure LeafLike (s t : Token) : Prop where
  leaf : s.leaf = t.leaf
  value : s.kind = t.kind ∧ s.payload = t.payload ∨ s.leaf = "inf"

/-- What a leaf shows. -/
def nested (t : Token) : Nested :=
  if t.kind = .string then .quoted t.heldText.toList else .word t.leaf.toList

/-- A token is printed as its leaf. -/
theorem nested_text (t : Token) : t.nested.text = t.leaf.toList := by
  rw [nested]
  split
  · next hkind =>
    rw [leaf, literal?, hkind, Nested.text]
    simp
  · rw [Nested.text]

/-- A number is printed as its listing. -/
theorem leaf_of_number {x : Binary64} (hk : t.kind = .number) (hp : t.payload = .number x) :
    t.leaf = x.listing := by
  rw [leaf, literal?, hk, heldNumber, hp]
  rfl

/-- The leaf is a word of letters, digits and underscores, as it is spelled. -/
def SpelledOut (t : Token) : Prop := t.leaf = t.lexeme ∧
  ∃ c u, t.lexeme.toList = c :: u ∧ Scan.isWordStart c = true ∧ ∀ d ∈ u, Scan.isWordRest d = true

/-- A token that is printed as it is spelled is a word of the print. -/
theorem SpelledOut.isWord (h : t.SpelledOut) : Nested.IsWord t.lexeme.toList := by
  obtain ⟨-, c, u, htext, hstart, hrest⟩ := h
  have hno : ∀ d ∈ Nested.breaks, Scan.isWordRest d = false :=
    List.all_iff_forall_prop.1 (by decide)
  have hword {d : Char} (hd : Scan.isWordRest d = true) : d ∉ Nested.breaks := fun hmem =>
    nomatch hd.symm.trans (hno d hmem)
  rw [htext]
  exact ⟨List.cons_ne_nil _ _, List.forall_mem_cons.2
    ⟨hword (Scan.isWordRest_of_isWordStart hstart), fun d hd => hword (hrest d hd)⟩⟩

/-- A number prints as no word does but `inf`. -/
theorem SpelledOut.listing_eq_inf {x : Binary64} (ht : t.SpelledOut) (hx : x.IsMagnitude)
    (h : x.listing = t.leaf) : x.listing = "inf" := by
  cases hfinite : x.isFinite with
  | false => exact hx.listing_eq_inf hfinite
  | true =>
    obtain ⟨c, u, hlisting, hc⟩ := hx.exists_listing_eq_cons hfinite
    obtain ⟨hleaf, d, v, htext, hd, -⟩ := ht
    rw [h, hleaf, htext] at hlisting
    obtain ⟨rfl, -⟩ := List.cons.inj hlisting
    exact nomatch hd.symm.trans (Scan.not_isWordStart_of_isDigit hc)

namespace Lexed

/-- The kind of a scanned token belongs to its text. -/
theorem belongs (h : t.Lexed) (hk : t.kind ≠ .eof) :
    Scan.Belongs t.kind t.payload t.lexeme.toList := h.resolve_left hk

/-- Tokens that are spelled alike are the same but for their lines. -/
theorem word_eq (hs : s.Lexed) (ht : t.Lexed) (hks : s.kind ≠ .eof) (hkt : t.kind ≠ .eof)
    (h : s.lexeme = t.lexeme) : s.word = t.word := by
  have hbelongs := ht.belongs hkt
  rw [← h] at hbelongs
  obtain ⟨hkind, hpayload⟩ := (hs.belongs hks).unique hbelongs
  rw [word, word, hkind, h, hpayload]

/-- A leaf is a string, a number or spelled out. -/
theorem leaf_cases (h : t.Lexed) (hk : t.kind.StandsAlone) :
    (∃ s, t.kind = .string ∧ t.payload = .text s ∧ '"' ∉ s.toList) ∨
      (∃ x, t.kind = .number ∧ t.payload = .number x ∧ x.IsMagnitude) ∨
        t.kind ≠ .string ∧ t.kind ≠ .number ∧ t.SpelledOut := by
  have hbelongs := h.belongs fun heof => absurd (heof ▸ hk) (by decide)
  rcases t with ⟨kind, lexeme, line, payload⟩
  generalize htext : lexeme.toList = text at hbelongs
  cases hbelongs with
  | fixed hmem =>
    have hnone : ∀ e ∈ Scan.fixed, ¬e.2.StandsAlone := by decide
    exact absurd hk (hnone _ hmem)
  | whole => exact .inr (.inl ⟨_, rfl, rfl, Binary64.ofDecimal_isMagnitude _ _⟩)
  | fraction => exact .inr (.inl ⟨_, rfl, rfl, Binary64.ofDecimal_isMagnitude _ _⟩)
  | string hbody => exact .inl ⟨_, rfl, rfl, by rwa [String.toList_ofList]⟩
  | @reserved word kind hmem =>
    obtain rfl := String.toList_inj.1 htext
    have hleaf : ∀ e ∈ Kind.reserved, e.2.StandsAlone →
        e.2 ≠ .string ∧ e.2 ≠ .number ∧ leaf ⟨e.2, e.1, 0, .none⟩ = e.1 := by decide
    obtain ⟨hstring, hnumber, hleaf⟩ := hleaf _ hmem hk
    exact .inr (.inr ⟨hstring, hnumber, hleaf, Scan.word_of_mem_reserved hmem⟩)
  | name hstart hrest =>
    exact .inr (.inr ⟨by simp, by simp, rfl, _, _, htext, hstart, hrest⟩)

/-- Names of scanned tokens are words of the print. -/
theorem isWord_name (h : t.Lexed) (hk : t.kind = .identifier) :
    Nested.IsWord t.lexeme.toList := by
  rcases h.leaf_cases (by rw [hk]; decide) with ⟨s, hkind, -⟩ | ⟨x, hkind, -⟩ | ⟨-, -, hspelled⟩
  · exact nomatch hk.symm.trans hkind
  · exact nomatch hk.symm.trans hkind
  · exact hspelled.isWord

/-- A scanned token that stands alone is printed as a word. -/
theorem nested_sound (h : t.Lexed) (hk : t.kind.StandsAlone) : t.nested.Sound := by
  rw [nested]
  rcases h.leaf_cases hk with ⟨s, hkind, hpayload, hbody⟩ | ⟨x, hkind, hpayload, hx⟩ |
    ⟨hkind, -, hspelled⟩
  · rw [if_pos hkind, Nested.Sound, heldText, hpayload]
    exact hbody
  · rw [if_neg (by rw [hkind]; decide), Nested.Sound, leaf_of_number hkind hpayload]
    exact ⟨hx.listing_ne_nil, fun c hc => (hx.isWritten_of_mem_listing c hc).not_mem (by decide)⟩
  · rw [if_neg hkind, Nested.Sound, hspelled.1]
    exact hspelled.isWord

/-- **Leaves that show the same are alike.** -/
theorem leafLike (hs : s.Lexed) (ht : t.Lexed) (hks : s.kind.StandsAlone)
    (hkt : t.kind.StandsAlone) (h : s.nested = t.nested) : s.LeafLike t := by
  have hleaf : s.leaf = t.leaf := String.toList_inj.1 (by rw [← nested_text, ← nested_text, h])
  have hstring : s.kind = .string ↔ t.kind = .string := by
    rw [nested, nested] at h
    by_cases hs : s.kind = .string <;> by_cases ht : t.kind = .string <;> simp_all
  refine ⟨hleaf, ?_⟩
  rcases hs.leaf_cases hks with ⟨u, hkind, hpayload, -⟩ | ⟨x, hkind, hpayload, hx⟩ |
    ⟨hnot, -, hspelled⟩
  · have hkind' := hstring.1 hkind
    rcases ht.leaf_cases hkt with ⟨v, -, hpayload', -⟩ | ⟨y, hnumber, -⟩ | ⟨hnot', -⟩
    · rw [nested, nested, if_pos hkind, if_pos hkind', Nested.quoted.injEq, heldText, heldText,
        hpayload, hpayload', String.toList_inj] at h
      obtain rfl : u = v := h
      exact .inl ⟨hkind.trans hkind'.symm, hpayload.trans hpayload'.symm⟩
    · exact absurd (hkind'.symm.trans hnumber) (by decide)
    · exact absurd hkind' hnot'
  · rcases ht.leaf_cases hkt with ⟨v, hkind', -⟩ | ⟨y, hkind', hpayload', hy⟩ | ⟨-, -, hspelled'⟩
    · exact absurd (hkind.symm.trans (hstring.2 hkind')) (by decide)
    · rw [leaf_of_number hkind hpayload, leaf_of_number hkind' hpayload', hx.listing_inj hy] at hleaf
      exact .inl ⟨hkind.trans hkind'.symm, by rw [hpayload, hpayload', hleaf]⟩
    · rw [leaf_of_number hkind hpayload] at hleaf ⊢
      exact .inr (hspelled'.listing_eq_inf hx hleaf)
  · rcases ht.leaf_cases hkt with ⟨v, hkind', -⟩ | ⟨y, hkind', hpayload', hy⟩ | ⟨-, -, hspelled'⟩
    · exact absurd (hstring.2 hkind') hnot
    · rw [leaf_of_number hkind' hpayload'] at hleaf
      exact .inr (hleaf.trans (hspelled.listing_eq_inf hy hleaf.symm))
    · have hlexeme : s.lexeme = t.lexeme := by rw [← hspelled.1, hleaf, hspelled'.1]
      have hword := hs.word_eq ht (fun heof => absurd (heof ▸ hks) (by decide))
        (fun heof => absurd (heof ▸ hkt) (by decide)) hlexeme
      rw [word, word, Prod.mk.injEq, Prod.mk.injEq] at hword
      exact .inl ⟨hword.1, hword.2.2⟩

/-! ### Operators -/

/-- No operator is an end marker. -/
theorem ne_eof_of_operator {k : Kind} (hk : k.Prefixes ∨ 1 ≤ k.rank) : k ≠ .eof := by
  rintro rfl
  exact absurd hk (by decide)

/-- What an operator is spelled as is a word, and no head of another node. -/
theorem operator (h : t.Lexed) (hk : t.kind.Prefixes ∨ 1 ≤ t.kind.rank) :
    Nested.IsWord t.lexeme.toList ∧ t.lexeme.toList ≠ "group".toList ∧
      t.lexeme.toList ≠ "=".toList := by
  have hbelongs := h.belongs (ne_eof_of_operator hk)
  generalize t.lexeme.toList = text, t.kind = kind, t.payload = payload at hk hbelongs ⊢
  cases hbelongs with
  | fixed hmem =>
    have hall : ∀ e ∈ Scan.fixed, (e.2.Prefixes ∨ 1 ≤ e.2.rank) →
        Nested.IsWord e.1 ∧ e.1 ≠ "group".toList ∧ e.1 ≠ "=".toList := by decide
    exact hall _ hmem hk
  | @reserved word kind hmem =>
    have hall : ∀ e ∈ Kind.reserved, (e.2.Prefixes ∨ 1 ≤ e.2.rank) →
        Nested.IsWord e.1.toList ∧ e.1.toList ≠ "group".toList ∧ e.1.toList ≠ "=".toList := by
      decide
    exact hall _ hmem hk
  | whole | fraction | string | name => exact absurd hk (by decide)

/-- Operators that are spelled alike are the same but for their lines. -/
theorem operator_eq (hs : s.Lexed) (ht : t.Lexed) (hks : s.kind.Prefixes ∨ 1 ≤ s.kind.rank)
    (hkt : t.kind.Prefixes ∨ 1 ≤ t.kind.rank) (h : s.lexeme.toList = t.lexeme.toList) :
    s.word = t.word :=
  hs.word_eq ht (ne_eof_of_operator hks) (ne_eof_of_operator hkt) (String.toList_inj.1 h)

/-- Names that are spelled alike are the same but for their lines. -/
theorem name_eq (hs : s.Lexed) (ht : t.Lexed) (hks : s.kind = .identifier)
    (hkt : t.kind = .identifier) (h : s.lexeme.toList = t.lexeme.toList) : s.word = t.word :=
  hs.word_eq ht (by rw [hks]; decide) (by rw [hkt]; decide) (String.toList_inj.1 h)

end Lexed
end Token
end LoxFront
