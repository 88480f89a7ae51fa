/-
# What a walk over the bytes finds

A step of the walk reads a piece, to its end and with what it leaves
(`Scan.Machine.scanToken_steps`), so a walk finds what the scan by characters finds,
at the same bytes, and never reads or cuts where it may not (`Scan.walk_eq`).
-/

import LoxFront.Proofs.Scan.Machine
import Mathlib.Data.List.TakeWhile

namespace LoxFront
namespace Scan
namespace Machine

variable {src : List UInt8} {before rest : List Char} {m : Machine} {c : Char}

/-! ### Strings, numbers and words -/

/-- Passing digits goes to behind the last of them, and changes nothing else. -/
theorem At.passDigits (h : m.At src before rest) :
    ∃ m', m.passDigits src = some m' ∧ m' = { m with curr := m'.curr } ∧
      m'.At src (before ++ rest.takeWhile Char.isDigit) (rest.dropWhile Char.isDigit) := by
  obtain ⟨m', hm', heq, hat⟩ :=
    h.passWhile (fun _ => false) (tests_peek (p := Char.isDigit) (by decide)) isPlain_isDigit
  refine ⟨m', hm', ?_, hat⟩
  rw [List.countP_false] at heq
  exact heq

/-- Words are looked up by their bytes. -/
theorem keyword?_bytes (text : List Char) :
    (keyword? (bytes text)).getD .identifier = Kind.ofWord (String.ofList text) := by
  rw [keyword?, Kind.ofWord]
  congr 1
  induction Kind.reserved with
  | nil => rfl
  | cons e table ih =>
    have hiff : bytes text = bytes e.1.toList ↔ String.ofList text = e.1 := by
      rw [bytes_inj]
      exact ⟨fun h => by rw [h, String.ofList_toList], fun h => by rw [← h, String.toList_ofList]⟩
    rw [List.map_cons, List.lookup_cons, List.lookup_cons, ih,
      Bool.eq_iff_iff.2 (beq_iff_eq.trans (hiff.trans beq_iff_eq.symm))]

end Machine

/-! ### One step -/

/-- The lexeme that a piece leaves waiting. -/
def Piece.pending? (p : Piece) : Option (Kind × Payload) :=
  match p.shape with
  | .lexeme kind payload => some (kind, payload)
  | _ => none

/-- The error that a piece is, if it ends on this line. -/
def Piece.error? (p : Piece) (line : Nat) : Option Diagnostic :=
  match p.shape with
  | .stray c => some (.lexical line (Trouble.stray c).message)
  | .openString => some (.lexical line Trouble.openString.message)
  | _ => none

/-- Characters that pass a test that newlines fail hold no newline. -/
theorem newlines_eq_zero {p : Char → Bool} (hp : p '\n' = false) {s : List Char}
    (hs : ∀ c ∈ s, p c = true) : newlines s = 0 := by
  refine List.count_eq_zero.2 fun hmem => ?_
  exact nomatch hp.symm.trans (hs _ hmem)

/-- A character other than a newline adds none. -/
theorem newlines_singleton {c : Char} (hc : c ≠ '\n') : newlines [c] = 0 :=
  List.count_eq_zero.2 (by simpa using hc.symm)

namespace Machine

/-- From `m`, which has read a part of it, the walk has read a piece that begins
behind `s`, and stands before the rest. -/
structure Reads (src : List UInt8) (s : List Char) (m : Machine) (p : Piece × List Char)
    (m' : Machine) : Prop where
  at_end : m'.At src (s ++ p.1.text) p.2
  start : m'.start = m.start
  line : m'.line = m.line + newlines p.1.text
  pending : m'.pending = p.1.pending?

/-- A step from `m` reads the piece, and gives its error if it is one. -/
def Steps (src : List UInt8) (s : List Char) (m : Machine) (p : Piece × List Char)
    (r : Option (Machine × Option Diagnostic)) : Prop :=
  ∃ m', r = some (m', p.1.error? m'.line) ∧ Reads src s m p m'

variable {src : List UInt8} {s before rest : List Char} {m : Machine} {c : Char}

/-- A lexeme without newlines is found. -/
theorem Reads.found {m' : Machine} {text : List Char} {k : Kind} {payload : Payload}
    (hat : m'.At src (s ++ text) rest) (hm' : m' = { m with curr := m'.curr })
    (hline : newlines text = 0) :
    Reads src s m (⟨.lexeme k payload, text⟩, rest) (m'.found k payload) :=
  ⟨⟨hat.src, hat.curr⟩, by rw [hm']; rfl, by rw [hm', hline]; rfl, rfl⟩

/-- Reading a word reads the piece of a word. -/
theorem parseIdentifier_reads (h : m.At src (s ++ [c]) rest) (hs : m.start = size s)
    (hc : isWordStart c = true) :
    ∃ m', m.parseIdentifier src = some m' ∧ Reads src s m (word c rest) m' := by
  obtain ⟨m', hm', heq, hat⟩ := h.passWhile (fun _ => false)
    (tests_peek (p := isWordRest) (by decide)) isPlain_isWordRest
  rw [List.append_assoc, List.singleton_append] at hat
  have hslice := hat.slice (by rw [heq]; exact hs)
  rw [List.countP_false] at heq
  have hline : newlines (c :: rest.takeWhile isWordRest) = 0 := by
    refine newlines_eq_zero (p := isWordRest) (by decide)
      (List.forall_mem_cons.2 ⟨isWordRest_of_isWordStart hc, fun _ => of_mem_takeWhile⟩)
  refine ⟨_, ?_, Reads.found hat heq hline⟩
  rw [Machine.parseIdentifier, hm']
  simp only [Option.bind_eq_bind, Option.bind_some, hslice, keyword?_bytes]
  rfl

/-- The value of digits without a point. -/
theorem valueOf_whole {whole : List Char} (hwhole : ∀ d ∈ whole, d.isDigit = true) :
    valueOf whole = .ofDecimal (digitsValue (whole ++ [])) 0 := by
  rw [valueOf, List.takeWhile_eq_self_iff.2 hwhole, List.dropWhile_eq_nil_iff.2 hwhole]
  rfl

/-- The value of digits with a point and more digits. -/
theorem valueOf_fraction {whole : List Char} (hwhole : ∀ d ∈ whole, d.isDigit = true)
    (frac : List Char) :
    valueOf (whole ++ '.' :: frac) = .ofDecimal (digitsValue (whole ++ frac)) frac.length := by
  rw [valueOf, List.takeWhile_append_of_pos hwhole, List.dropWhile_append_of_pos hwhole]
  simp

/-- A point with a digit behind it begins a fraction, which the piece of the number includes. -/
theorem number_of_fraction {d : Char} {more : List Char}
    (h : rest.dropWhile Char.isDigit = '.' :: d :: more) (hd : d.isDigit = true) :
    number c rest = (⟨numeral (c :: rest.takeWhile Char.isDigit) (d :: more.takeWhile Char.isDigit),
      c :: rest.takeWhile Char.isDigit ++ '.' :: (d :: more.takeWhile Char.isDigit)⟩,
      more.dropWhile Char.isDigit) := by
  rw [number, h]
  simp only [hd, if_true]

/-- Without a digit behind the point the number ends before it. -/
theorem number_of_whole
    (h : ∀ d more, rest.dropWhile Char.isDigit = '.' :: d :: more → d.isDigit = false) :
    number c rest = (⟨numeral (c :: rest.takeWhile Char.isDigit) [],
      c :: rest.takeWhile Char.isDigit⟩, rest.dropWhile Char.isDigit) := by
  rw [number]
  split
  · next d more hdrop =>
    rw [h d more hdrop, if_neg Bool.false_ne_true, hdrop]
  · rfl

/-- Reading a number reads the piece of a number, with its fraction if there is one. -/
theorem parseNumber_reads (h : m.At src (s ++ [c]) rest) (hs : m.start = size s)
    (hc : c.isDigit = true) :
    ∃ m', m.parseNumber src = some m' ∧ Reads src s m (number c rest) m' := by
  obtain ⟨m₁, hm₁, heq₁, hat₁⟩ := h.passDigits
  have hwhole : ∀ d ∈ c :: rest.takeWhile Char.isDigit, d.isDigit = true :=
    List.forall_mem_cons.2 ⟨hc, fun _ => of_mem_takeWhile⟩
  have hstart₁ : m₁.start = size s := by rw [heq₁]; exact hs
  rw [Machine.parseNumber, hm₁]
  rcases hat₁.fractionFollows with ⟨d, more, hdrop, hd, hfollows⟩ | ⟨hno, hfollows⟩
  · rw [hdrop] at hat₁
    obtain ⟨m₂, hm₂, heq₂, hat₂⟩ := hat₁.advance (by decide)
    obtain ⟨m₃, hm₃, heq₃, hat₃⟩ := hat₂.passDigits
    rw [List.takeWhile_cons_of_pos hd, List.dropWhile_cons_of_pos hd] at hat₃
    have hat : m₃.At src (s ++ (c :: rest.takeWhile Char.isDigit ++
        '.' :: (d :: more.takeWhile Char.isDigit))) (more.dropWhile Char.isDigit) := by
      simpa using hat₃
    have heq : m₃ = { m with curr := m₃.curr } := by rw [heq₃, heq₂, heq₁]
    have hline : newlines (c :: rest.takeWhile Char.isDigit ++
        '.' :: (d :: more.takeWhile Char.isDigit)) = 0 := by
      have hfrac : ∀ e ∈ d :: more.takeWhile Char.isDigit, e.isDigit = true :=
        List.forall_mem_cons.2 ⟨hd, fun _ => of_mem_takeWhile⟩
      rw [newlines_append, newlines_eq_zero (p := Char.isDigit) (by decide) hwhole, Nat.zero_add]
      exact newlines_eq_zero (p := fun e => e.isDigit || e == '.') (by decide)
        (List.forall_mem_cons.2 ⟨rfl, fun e he => by simp [hfrac e he]⟩)
    rw [number_of_fraction hdrop hd]
    refine ⟨_, ?_, Reads.found hat heq hline⟩
    simp only [Option.bind_eq_bind, Option.bind_some, hfollows, if_true, hm₂, hm₃,
      hat.textSlice (by rw [heq]; exact hs), String.toList_ofList, valueOf_fraction hwhole]
    rfl
  · rw [List.append_assoc, List.singleton_append] at hat₁
    rw [number_of_whole hno]
    have hline : newlines (c :: rest.takeWhile Char.isDigit) = 0 :=
      newlines_eq_zero (p := Char.isDigit) (by decide) hwhole
    refine ⟨_, ?_, Reads.found hat₁ heq₁ hline⟩
    simp only [Option.bind_eq_bind, Option.bind_some, hfollows, hat₁.textSlice hstart₁,
      String.toList_ofList, valueOf_whole hwhole]
    rfl

/-- Reading a string takes the step to the closing quote, or to the end with an error. -/
theorem parseString_steps (h : m.At src (s ++ ['"']) rest) (hs : m.start = size s)
    (hpending : m.pending = none) : Steps src s m (quote rest) (m.parseString src) := by
  obtain ⟨m₁, hm₁, heq₁, hat₁⟩ := h.passWhile (· == '\n') tests_unlessAtEnd
    (isPlain_bne (e := '"') (by decide))
  rw [countP_newlines] at heq₁
  have hsize : size (s ++ ['"']) = m.start + 1 := by rw [hs, size_append]; rfl
  rw [Steps, Machine.parseString, hm₁, quote]
  simp only [Option.bind_eq_bind, Option.bind_some, hat₁.isAtEnd]
  have hnext := of_head?_dropWhile (p := (· != '"')) (s := rest)
  generalize rest.takeWhile (· != '"') = body at hat₁ heq₁
  generalize rest.dropWhile (· != '"') = more at hat₁ hnext
  cases more with
  | nil =>
    refine ⟨m₁, rfl, ⟨?_, by rw [heq₁], ?_, by rw [heq₁]; exact hpending⟩⟩
    · simpa using hat₁
    · rw [heq₁]
      rfl
  | cons q more =>
    have hq : q = '"' := by simpa using hnext q rfl
    subst hq
    obtain ⟨m₂, hm₂, heq₂, hat₂⟩ := hat₁.advance (by decide)
    have hslice : Scan.textSlice src (m₂.start + 1) (m₂.curr - 1) = some (String.ofList body) := by
      have hstart : m₂.start + 1 = size (s ++ ['"']) := by rw [hsize, heq₂, heq₁]
      have hcurr : m₂.curr - 1 = size (s ++ ['"'] ++ body) := by rw [← hat₁.curr, heq₂]; rfl
      rw [hstart, hcurr, hat₁.src, textSlice_bytes]
    refine ⟨m₂.found .string (.text (String.ofList body)), ?_, ⟨⟨?_, ?_⟩, ?_, ?_, rfl⟩⟩
    · simp only [List.isEmpty_cons, if_neg Bool.false_ne_true, hm₂, Option.bind_some, hslice]
      rfl
    · rw [hat₂.src]
      simp
    · show m₂.curr = _
      rw [hat₂.curr]
      simp
    · show m₂.start = _
      rw [heq₂, heq₁]
    · show m₂.line = _
      rw [heq₂, heq₁]
      simp [newlines]

/-- A character from 128 on begins nothing. -/
structure Foreign (c : Char) : Prop where
  mark : mark? c = none
  operator : operator? c = none
  blank : isBlank c = false
  newline : c ≠ '\n'
  slash : c ≠ '/'
  quote : c ≠ '"'
  digit : c.isDigit = false
  word : isWordStart c = false

/-- A character beyond ASCII begins nothing. -/
theorem foreign_of_le (hc : 128 ≤ c.toNat) : Foreign c := by
  have hne {d : Char} (hd : d.toNat < 128) : c ≠ d := by
    rintro rfl
    omega
  have hmarks : c ∉ marks := fun hmem => by
    have hall : ∀ d ∈ marks, d.toNat < 128 := List.all_iff_forall_prop.1 (by decide)
    exact hne (hall c hmem) rfl
  refine ⟨?_, ?_, ?_, hne (by decide), hne (by decide), hne (by decide), ?_, ?_⟩
  · cases h : mark? c with
    | none => rfl
    | some k => exact absurd (head_mem_marks (mark?_cases h).1) hmarks
  · cases h : operator? c with
    | none => rfl
    | some k => exact absurd (head_mem_marks (operator?_cases h).1) hmarks
  · simp [isBlank, hne (d := ' ') (by decide), hne (d := '\t') (by decide),
      hne (d := '\r') (by decide), hne (d := '\n') (by decide)]
  · exact isPlain_isDigit c 'é' hc (by decide)
  · have hrest : isWordRest c = false := isPlain_isWordRest c 'é' hc (by decide)
    refine Bool.eq_false_iff.2 fun h => ?_
    exact nomatch hrest.symm.trans (isWordRest_of_isWordStart h)

/-- So does its first byte. -/
theorem foreign_lead (hc : 128 ≤ c.toNat) (rest : List Char) : Foreign (lead (c :: rest)) := by
  refine foreign_of_le ?_
  obtain ⟨b, bs, hencode, -, -, ⟨hlt, -⟩ | ⟨-, hall⟩⟩ := exists_encode_eq c
  · omega
  · rw [lead, bytes_cons, hencode]
    exact hall b List.mem_cons_self

/-- A stray character is passed to its last byte. -/
theorem stray_steps (h : m.At src s (c :: rest)) (hs : m.start = size s)
    (hpending : m.pending = none) (hc : c ≠ '\n') :
    Steps src s m (⟨.stray c, [c]⟩, rest) (do
      let m := toBoundary src { m with curr := m.curr + 1 }
      let text ← Scan.textSlice src m.start m.curr
      return (m, some (.lexical m.line ("Unexpected character: " ++ text)))) := by
  obtain ⟨b, bs, hencode, -, hbs, -⟩ := exists_encode_eq c
  have hsize : c.utf8Size = bs.length + 1 := by rw [← String.length_utf8EncodeChar, hencode]; rfl
  have hsrc : src = (bytes s ++ [b]) ++ (bs ++ bytes rest) := by
    rw [h.src, bytes_append, bytes_cons, hencode]
    simp
  have hnext : ∀ x ∈ (bytes rest).head?, isContinuation x = false := by
    intro x hx
    cases rest with
    | nil => exact nomatch hx
    | cons d rest =>
      obtain ⟨b', bs', hd, hb', -⟩ := exists_encode_eq d
      rw [bytes_cons, hd] at hx
      obtain rfl := Option.some.inj hx
      exact hb'
  have hboundary : toBoundary src { m with curr := m.curr + 1 } =
      { m with curr := m.curr + 1 + bs.length } :=
    toBoundary_eq (by simp) hsrc (by simp [h.curr]) hbs hnext
  have hat : At src (s ++ [c]) rest { m with curr := m.curr + 1 + bs.length } := by
    refine ⟨by rw [h.src, List.append_assoc]; rfl, ?_⟩
    show m.curr + 1 + bs.length = _
    rw [h.curr, size_append, size_cons, size_nil, hsize]
    omega
  refine ⟨_, ?_, hat, rfl, by rw [newlines_singleton hc]; rfl, hpending⟩
  rw [hboundary]
  simp only [Option.bind_eq_bind, hat.textSlice (m := { m with curr := _ }) hs, Option.bind_some]
  rfl

section Ascii

variable {m' : Machine}

/-- A lexeme of one character. -/
theorem single_steps (hat : m'.At src (s ++ [c]) rest) (heq : m' = { m with curr := m'.curr })
    (hc : c ≠ '\n') (k : Kind) :
    Steps src s m (⟨.lexeme k .none, [c]⟩, rest) (some (m'.found k .none, none)) :=
  ⟨_, rfl, Reads.found hat heq (newlines_singleton hc)⟩

/-- At a blank the machine goes on without a find. -/
theorem blank_steps (hat : m'.At src (s ++ [c]) rest) (heq : m' = { m with curr := m'.curr })
    (hpending : m.pending = none) :
    Steps src s m (⟨.blank, [c]⟩, rest)
      (if c = '\n' then some ({ m' with line := m'.line + 1 }, none) else some (m', none)) := by
  by_cases hc : c = '\n'
  · rw [if_pos hc]
    refine ⟨_, rfl, ⟨hat.src, hat.curr⟩, by rw [heq], ?_, by rw [heq]; exact hpending⟩
    rw [heq, hc]
    rfl
  · rw [if_neg hc]
    refine ⟨_, rfl, hat, by rw [heq], ?_, by rw [heq]; exact hpending⟩
    rw [heq, newlines_eq_zero (p := (· != '\n')) (by decide) (by simpa using hc)]
    rfl

/-- At an operator the machine finds the longer lexeme if an equals sign follows, and else the
shorter. -/
theorem operator_steps (hat : m'.At src (s ++ [c]) rest) (heq : m' = { m with curr := m'.curr })
    (hc : c ≠ '\n') (alone wide : Kind) :
    Steps src s m (operator c alone wide rest) (do
      let (twice, m) ← m'.matchByte src '='
      return (m.found (if twice then wide else alone) .none, none)) := by
  rcases hat.matchByte (e := '=') (by decide) with
    ⟨more, m₂, rfl, hmatch, heq₂, hat₂⟩ | ⟨hno, hmatch⟩
  · rw [List.append_assoc] at hat₂
    rw [hmatch]
    refine ⟨_, rfl, Reads.found hat₂ (by rw [heq₂, heq]) ?_⟩
    exact newlines_eq_zero (p := (· != '\n')) (by decide) (by simpa using hc)
  · have hoperator : operator c alone wide rest = (⟨.lexeme alone .none, [c]⟩, rest) := by
      unfold operator
      split
      · next more => exact absurd rfl (hno more)
      · rfl
    rw [hmatch, hoperator]
    exact single_steps hat heq hc alone

/-- At a slash the machine skips a comment or finds the lexeme. -/
theorem slash_steps (hat : m'.At src (s ++ ['/']) rest) (heq : m' = { m with curr := m'.curr })
    (hpending : m.pending = none) :
    Steps src s m (slash rest) (do
      let (twice, m) ← m'.matchByte src '/'
      if twice then return (← m.skipLine src, none)
      else return (m.found .slash .none, none)) := by
  rcases hat.matchByte (e := '/') (by decide) with
    ⟨more, m₂, rfl, hmatch, heq₂, hat₂⟩ | ⟨hno, hmatch⟩
  · obtain ⟨m₃, hm₃, heq₃, hat₃⟩ := hat₂.skipLine
    have heq' : m₃ = { m with curr := m₃.curr } := by rw [heq₃, heq₂, heq]
    have hline : newlines ('/' :: '/' :: more.takeWhile (· != '\n')) = 0 :=
      newlines_eq_zero (p := (· != '\n')) (by decide) (List.forall_mem_cons.2 ⟨rfl,
        List.forall_mem_cons.2 ⟨rfl, fun _ => of_mem_takeWhile⟩⟩)
    refine ⟨m₃, ?_, ⟨?_, ?_⟩, by rw [heq'], ?_, by rw [heq']; exact hpending⟩
    · simp only [hmatch, Option.bind_eq_bind, Option.bind_some, if_true, hm₃]
      rfl
    · rw [hat₃.src]
      simp [slash]
    · rw [hat₃.curr]
      simp [slash]
    · have htext : newlines (slash ('/' :: more)).1.text = 0 := hline
      rw [heq', htext]
      rfl
  · have hslash : slash rest = (⟨.lexeme .slash .none, ['/']⟩, rest) := by
      unfold slash
      split
      · next more => exact absurd rfl (hno more)
      · rfl
    rw [hmatch, hslash]
    exact single_steps hat heq (by decide) .slash

end Ascii

/-- Only the place where a piece begins and the line matter for what is read. -/
theorem Steps.of_eq {m' : Machine} {p : Piece × List Char}
    {r : Option (Machine × Option Diagnostic)} (heq : m' = { m with curr := m'.curr })
    (h : Steps src s m' p r) : Steps src s m p r := by
  obtain ⟨m₂, hr, hreads⟩ := h
  refine ⟨m₂, hr, hreads.at_end, ?_, ?_, hreads.pending⟩
  · rw [hreads.start, heq]
  · rw [hreads.line, heq]

/-- A number leaves no error. -/
theorem error?_number (line : Nat) : (number c rest).1.error? line = none := by
  unfold number
  split
  · split <;> rfl
  · rfl

/-- Blanks are no marks or operators. -/
theorem of_isBlank (h : isBlank c = true) : mark? c = none ∧ operator? c = none := by
  have hmem : c ∈ [' ', '\t', '\r', '\n'] := by simpa [isBlank, or_assoc] using h
  have hall : ∀ d ∈ [' ', '\t', '\r', '\n'], mark? d = none ∧ operator? d = none :=
    List.all_iff_forall_prop.1 (by decide)
  exact hall c hmem

/-- Behind a first character below 128 the piece is read that it begins. -/
theorem piece_steps {m' : Machine} (h : m.At src s (c :: rest)) (hs : m.start = size s)
    (hpending : m.pending = none) (hat : m'.At src (s ++ [c]) rest)
    (hm' : m' = { m with curr := m.curr + 1 }) : Steps src s m (first c rest) (m'.piece src c) := by
  have heq : m' = { m with curr := m'.curr } := by rw [hm']
  have hs' : m'.start = size s := by rw [hm']; exact hs
  have hpending' : m'.pending = none := by rw [hm']; exact hpending
  unfold first
  split
  · next hblank =>
    obtain ⟨hmark, hop⟩ := of_isBlank hblank
    rw [piece, hmark, hop]
    simp only [hblank, if_true]
    exact blank_steps hat heq hpending
  · next hblank =>
    have hc : c ≠ '\n' := by
      rintro rfl
      exact hblank rfl
    split
    · next _ k hmark =>
      rw [piece, hmark]
      exact single_steps hat heq hc k
    · next alone wide hmark hop =>
      rw [piece, hmark, hop]
      exact operator_steps hat heq hc alone wide
    · next hmark hop =>
      rw [piece, hmark, hop]
      simp only [if_neg hc, if_neg hblank]
      split
      · next h =>
        subst h
        exact slash_steps hat heq hpending
      split
      · next h =>
        subst h
        exact (parseString_steps hat hs' hpending').of_eq heq
      split
      · next h =>
        obtain ⟨m₂, hm₂, hreads⟩ := parseNumber_reads hat hs' h
        refine Steps.of_eq heq ⟨m₂, ?_, hreads⟩
        rw [hm₂, error?_number]
        rfl
      split
      · next h =>
        obtain ⟨m₂, hm₂, hreads⟩ := parseIdentifier_reads hat hs' h
        refine Steps.of_eq heq ⟨m₂, ?_, hreads⟩
        rw [hm₂]
        rfl
      · rw [hm']
        exact stray_steps h hs hpending hc

/-- **A step reads the first piece of what is left.** -/
theorem scanToken_steps (h : m.At src s (c :: rest)) (hs : m.start = size s)
    (hpending : m.pending = none) : Steps src s m (first c rest) (m.scanToken src) := by
  have hadvance : m.advance src = some (lead (c :: rest), { m with curr := m.curr + 1 }) := by
    rw [Machine.advance, h.byte?]
    rfl
  rw [Machine.scanToken, hadvance]
  rcases Nat.lt_or_ge c.toNat 128 with hc | hc
  · obtain ⟨m', -, hm', hat⟩ := h.advance hc
    rw [(lead_of_lt hc rest).1, ← hm']
    exact piece_steps h hs hpending hat hm'
  · have hlead := foreign_lead hc rest
    have hforeign := foreign_of_le hc
    have hfirst : first c rest = (⟨.stray c, [c]⟩, rest) := by
      simp [first, hforeign.mark, hforeign.operator, hforeign.blank, hforeign.slash,
        hforeign.quote, hforeign.digit, hforeign.word]
    have hstray := stray_steps h hs hpending hforeign.newline
    rw [hfirst]
    show Steps _ _ _ _ (piece src _ (lead (c :: rest)))
    rw [piece, hlead.mark, hlead.operator]
    simp only [hlead.newline, hlead.blank, hlead.slash, hlead.quote, hlead.digit, hlead.word,
      if_false, Bool.false_eq_true]
    exact hstray

end Machine

/-! ### The whole walk -/

/-- What a find gives: its token, or its error as a diagnostic. -/
def Find.given (f : Find) : Given :=
  match f.item with
  | .token t => ⟨f.first, f.last, .ok t⟩
  | .trouble line cause => ⟨f.first, f.last, .error (.lexical line cause.message)⟩

/-- At the end the machine finds the end marker and stops. -/
theorem walkFrom_end {src : List UInt8} {before : List Char} {m : Machine}
    (h : m.At src before []) (n : Nat) :
    walkFrom src (n + 2) m = some [⟨m.curr, m.curr, .ok (.atEnd m.line)⟩] := by
  have hlen : src.length = m.curr := by rw [h.length]; rfl
  rw [walkFrom, walkFrom]
  simp [hlen]

/-- **One step gives what the first piece leaves**, and the walk goes on behind it. -/
theorem walkFrom_step {src : List UInt8} {before rest : List Char} {c : Char} {m : Machine}
    (h : m.At src before (c :: rest)) {n : Nat} {l : List Given}
    (hnext : ∀ m' : Machine, m'.At src (before ++ (first c rest).1.text) (first c rest).2 →
      m'.line = m.line + newlines (first c rest).1.text → walkFrom src n m' = some l) :
    walkFrom src (n + 1) m =
      some (((first c rest).1.find? m.curr (m.line + newlines (first c rest).1.text)).toList.map
        Find.given ++ l) := by
  have hpos := c.utf8Size_pos
  have hlen := h.length
  rw [size_cons] at hlen
  obtain ⟨m', hstep, hreads⟩ := Machine.scanToken_steps
    (m := { m with start := m.curr, pending := none }) ⟨h.src, h.curr⟩ h.curr rfl
  have hcurr : m.curr + size (first c rest).1.text = m'.curr := by
    rw [hreads.at_end.curr, size_append, h.curr]
  have hline : m'.line = m.line + newlines (first c rest).1.text := hreads.line
  have hrest := hnext m' hreads.at_end hline
  have hrest' := hnext { m' with pending := none } ⟨hreads.at_end.src, hreads.at_end.curr⟩ hline
  rw [walkFrom, Piece.find?, hcurr, ← hline]
  simp only [hstep, if_neg (show ¬src.length < m.curr by omega),
    if_neg (show m.curr ≠ src.length by omega), Option.bind_eq_bind, Option.bind_some]
  generalize first c rest = p at hreads
  obtain ⟨⟨shape, text⟩, after⟩ := p
  obtain ⟨hat, hstart, -, hpending⟩ := hreads
  rw [hpending]
  cases shape with
  | blank | comment => exact hrest
  | lexeme k payload =>
    have hslice := hat.textSlice (hstart.trans h.curr)
    simp only [Piece.error?, Piece.pending?, Option.bind_some, hslice, hrest']
    rw [hstart]
    rfl
  | stray | openString =>
    simp only [Piece.error?, Option.bind_some, hrest]
    rw [hstart]
    rfl

/-- With a round for each character and two more, the machine gives all finds of the pieces
that are left. -/
theorem walkFrom_eq {src : List UInt8} {before rest : List Char} {m : Machine}
    (h : m.At src before rest) {n : Nat} (hn : rest.length + 2 ≤ n) :
    walkFrom src n m = some ((findsFrom m.curr m.line (pieces rest)).map Find.given) := by
  fun_induction pieces rest generalizing before m n with
  | case1 =>
    obtain ⟨n, rfl⟩ : ∃ k, n = k + 2 := ⟨n - 2, by simp at hn; omega⟩
    rw [walkFrom_end h]
    rfl
  | case2 c cs ih =>
    obtain ⟨n, rfl⟩ : ∃ k, n = k + 1 := ⟨n - 1, by simp at hn; omega⟩
    have hshorter := length_first c cs
    rw [findsFrom, List.map_append]
    refine walkFrom_step h fun m' hat hline => ?_
    have hcurr : m'.curr = m.curr + size (first c cs).1.text := by
      rw [hat.curr, size_append, h.curr]
    rw [ih hat (by omega), hcurr, hline]

/-- **The walk over the bytes finds what the scan finds, at the same bytes.**  No byte
is read out of range, and no slice is cut out of range or inside a character. -/
theorem walk_eq (source : String) : walk source = some ((finds source).map Find.given) := by
  have hat : Machine.At (bytes source.toList) [] source.toList ⟨0, 0, 1, none⟩ := ⟨rfl, rfl⟩
  rw [walk, ← bytes_toList]
  refine walkFrom_eq hat ?_
  have hle := length_le_size source.toList
  rw [length_bytes]
  omega

end Scan
end LoxFront
