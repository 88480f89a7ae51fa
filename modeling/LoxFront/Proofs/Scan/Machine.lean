/-
# Scanning byte by byte

The scan as a walk over the bytes of a source, with one index for the beginning of
a piece and one behind the last byte that was read (`Scan.Machine`).  Reading a
byte out of range or cutting a slice out of range or inside a character gives
nothing at all; so does running out of steps.  A byte is read as the character of
the same number.
-/

import LoxFront.Proofs.Scan.Bytes

namespace LoxFront
namespace Scan

/-- Where a walk over the bytes stands. -/
structure Machine where
  /-- The first byte of the piece. -/
  start : Nat
  /-- The byte behind the last one that was read. -/
  curr : Nat
  line : Nat
  /-- The lexeme that was recognised and waits to be given. -/
  pending : Option (Kind × Payload)
  deriving DecidableEq, Repr

namespace Machine

variable (src : List UInt8) (m : Machine)

/-- All bytes were read. -/
def isAtEnd : Bool := decide (src.length ≤ m.curr)

/-- The byte at an index, if it is in range. -/
def byte? (i : Nat) : Option Char := src[i]?.map Char.ofUInt8

/-- The byte at hand, and the index moved behind it. -/
def advance : Option (Char × Machine) :=
  (byte? src m.curr).map fun b => (b, { m with curr := m.curr + 1 })

/-- The byte at hand, or zero at the end. -/
def peek : Option Char := if m.isAtEnd src then some '\x00' else byte? src m.curr

/-- The byte behind the one at hand, or zero if there is none. -/
def peekNext : Option Char :=
  if src.length ≤ m.curr + 1 then some '\x00' else byte? src (m.curr + 1)

/-- The byte at hand is passed if it is this one. -/
def matchByte (expected : Char) : Option (Bool × Machine) := do
  if m.isAtEnd src then return (false, m)
  if (← m.peek src) == expected then
    let (_, m) ← m.advance src
    return (true, m)
  return (false, m)

/-- Bytes are passed as long as the walk goes on, and those counted that are told to
be newlines. -/
def passWhile (goes : Machine → Option Bool) (counts : Char → Bool) (m : Machine) :
    Option Machine :=
  match goes m with
  | none => none
  | some false => some m
  | some true =>
    match _h : byte? src m.curr with
    | none => none
    | some b =>
      passWhile goes counts
        { m with curr := m.curr + 1, line := if counts b then m.line + 1 else m.line }
termination_by src.length - m.curr
decreasing_by
  obtain ⟨b, hb, -⟩ := Option.map_eq_some_iff.1 _h
  have hlt := (List.getElem?_eq_some_iff.1 hb).1
  show src.length - (m.curr + 1) < src.length - m.curr
  omega

/-- The walk goes on to the next place between characters. -/
def toBoundary (m : Machine) : Machine :=
  if _h : m.isAtEnd src = false ∧ isBoundary src m.curr = false then
    toBoundary { m with curr := m.curr + 1 }
  else m
termination_by src.length - m.curr
decreasing_by
  have hlt : ¬src.length ≤ m.curr := by simpa [isAtEnd] using _h.1
  show src.length - (m.curr + 1) < src.length - m.curr
  omega

/-- A lexeme is recognised. -/
def found (kind : Kind) (payload : Payload) : Machine := { m with pending := some (kind, payload) }

/-- The rest of a line is passed, up to its newline. -/
def skipLine : Option Machine := do
  let rest ← slice src m.curr src.length
  match rest.findIdx? (fun b => Char.ofUInt8 b == '\n') with
  | some i => return { m with curr := m.curr + i }
  | none => return { m with curr := src.length }

/-- A string behind its quote. -/
def parseString : Option (Machine × Option Diagnostic) := do
  let m ← passWhile src
    (fun m => if m.isAtEnd src then some false else (m.peek src).map (· != '"')) (· == '\n') m
  if m.isAtEnd src then return (m, some (.lexical m.line "Unterminated string."))
  let (_, m) ← m.advance src
  let body ← textSlice src (m.start + 1) (m.curr - 1)
  return (m.found .string (.text body), none)

/-- Digits are passed. -/
def passDigits : Option Machine :=
  passWhile src (fun m => (m.peek src).map Char.isDigit) (fun _ => false) m

/-- The value of digits with a point among them or without one. -/
def valueOf (text : List Char) : Binary64 :=
  let frac := (text.dropWhile Char.isDigit).drop 1
  .ofDecimal (digitsValue (text.takeWhile Char.isDigit ++ frac)) frac.length

/-- A point is at hand and a digit behind it. -/
def fractionFollows : Option Bool := do
  if (← m.peek src) == '.' then return (← m.peekNext src).isDigit
  return false

/-- A number behind its first digit. -/
def parseNumber : Option Machine := do
  let m ← m.passDigits src
  let m ←
    if ← m.fractionFollows src then do
      let (_, m) ← m.advance src
      m.passDigits src
    else some m
  let text ← textSlice src m.start m.curr
  return m.found .number (.number (valueOf text.toList))

/-- The kind of a reserved word, by its bytes. -/
def keyword? (word : List UInt8) : Option Kind :=
  (Kind.reserved.map fun e => (bytes e.1.toList, e.2)).lookup word

/-- A word behind its first letter. -/
def parseIdentifier : Option Machine := do
  let m ← passWhile src (fun m => (m.peek src).map isWordRest) (fun _ => false) m
  let word ← slice src m.start m.curr
  return m.found ((keyword? word).getD .identifier) .none

/-- A piece behind its first byte `c`: the place behind it, with the lexeme that it
is, and the error if it is one. -/
def piece (c : Char) : Option (Machine × Option Diagnostic) :=
  match mark? c, operator? c with
  | some kind, _ => return (m.found kind .none, none)
  | none, some (alone, wide) => do
    let (twice, m) ← m.matchByte src '='
    return (m.found (if twice then wide else alone) .none, none)
  | none, none =>
    if c = '\n' then return ({ m with line := m.line + 1 }, none)
    else if isBlank c then return (m, none)
    else if c = '/' then do
      let (twice, m) ← m.matchByte src '/'
      if twice then return (← m.skipLine src, none)
      else return (m.found .slash .none, none)
    else if c = '"' then m.parseString src
    else if c.isDigit then do return (← m.parseNumber src, none)
    else if isWordStart c then do return (← m.parseIdentifier src, none)
    else do
      let m := m.toBoundary src
      let text ← textSlice src m.start m.curr
      return (m, some (.lexical m.line ("Unexpected character: " ++ text)))

/-- One piece of the source. -/
def scanToken : Option (Machine × Option Diagnostic) := do
  let (c, m) ← m.advance src
  m.piece src c

end Machine

/-- What a walk gives: a token or an error, with its first byte and the byte behind
it. -/
structure Given where
  first : Nat
  last : Nat
  result : Except Diagnostic Token

/-- What is given from a place on, in so many steps. -/
def walkFrom (src : List UInt8) : Nat → Machine → Option (List Given)
  | 0, _ => none
  | n + 1, m => do
    if src.length < m.curr then return []
    if m.curr = src.length then
      let rest ← walkFrom src n { m with curr := m.curr + 1 }
      return ⟨m.curr, m.curr, .ok (.atEnd m.line)⟩ :: rest
    let (m, error) ← Machine.scanToken src { m with start := m.curr, pending := none }
    match error, m.pending with
    | some e, _ =>
      let rest ← walkFrom src n m
      return ⟨m.start, m.curr, .error e⟩ :: rest
    | none, some (kind, payload) =>
      let lexeme ← textSlice src m.start m.curr
      let rest ← walkFrom src n { m with pending := none }
      return ⟨m.start, m.curr, .ok ⟨kind, lexeme, m.line, payload⟩⟩ :: rest
    | none, none => walkFrom src n m

/-- The walk over the bytes of a source. -/
def walk (source : String) : Option (List Given) :=
  let src := source.toByteArray.data.toList
  walkFrom src (src.length + 2) ⟨0, 0, 1, none⟩

/-! ### Between two characters -/

/-- The walk stands between two texts. -/
structure Machine.At (src : List UInt8) (before rest : List Char) (m : Machine) : Prop where
  src : src = bytes (before ++ rest)
  curr : m.curr = size before

namespace Machine

variable {src : List UInt8} {before rest : List Char} {m : Machine} {c : Char}

/-- The place of a machine and the size of what is left make up the source. -/
theorem At.length (h : m.At src before rest) : src.length = m.curr + size rest := by
  rw [h.src, h.curr, length_bytes, size_append]

/-- The byte at a place is the first one of what follows it. -/
theorem getElem?_of_append {a r : List UInt8} {i : Nat} (hsrc : src = a ++ r) (hi : i = a.length) :
    src[i]? = r.head? := by
  rw [hsrc, hi, List.getElem?_append_right (Nat.le_refl _), Nat.sub_self, List.head?_eq_getElem?]

/-- A machine sees the first byte of what is left. -/
theorem At.getElem? (h : m.At src before rest) : src[m.curr]? = (bytes rest).head? := by
  refine getElem?_of_append (a := bytes before) ?_ ?_
  · rw [h.src, bytes_append]
  · rw [h.curr, length_bytes]

/-- A machine is at the end exactly if nothing is left. -/
theorem At.isAtEnd (h : m.At src before rest) : m.isAtEnd src = rest.isEmpty := by
  rw [Machine.isAtEnd, h.length]
  cases rest with
  | nil => simp
  | cons c rest =>
    have hpos := c.utf8Size_pos
    rw [size_cons, List.isEmpty_cons, decide_eq_false_iff_not]
    omega

/-- Where a character is left, the byte at the machine is the one that leads it in. -/
theorem At.byte? (h : m.At src before (c :: rest)) :
    Machine.byte? src m.curr = some (lead (c :: rest)) := by
  obtain ⟨b, bs, hc, -⟩ := exists_encode_eq c
  rw [Machine.byte?, h.getElem?, lead, bytes_cons, hc]
  rfl

/-- A look ahead never leaves the source: it shows the byte that leads in what is left. -/
theorem At.peek (h : m.At src before rest) : m.peek src = some (lead rest) := by
  rw [Machine.peek, h.isAtEnd]
  cases rest with
  | nil => rfl
  | cons c rest => exact h.byte?

/-- A character below 128 is read as it is, and the walk stands behind it. -/
theorem lead_of_lt (hc : c.toNat < 128) (rest : List Char) :
    lead (c :: rest) = c ∧ c.utf8Size = 1 := by
  obtain ⟨b, bs, heq, -, -, ⟨-, hb, rfl⟩ | ⟨hge, -⟩⟩ := exists_encode_eq c
  · refine ⟨?_, by rw [← String.length_utf8EncodeChar, heq]; rfl⟩
    rw [lead, bytes_cons, heq]
    exact hb
  · omega

/-- An ASCII character is passed by one step, and nothing but the place changes. -/
theorem At.advance (h : m.At src before (c :: rest)) (hc : c.toNat < 128) :
    ∃ m', m.advance src = some (c, m') ∧ m' = { m with curr := m.curr + 1 } ∧
      m'.At src (before ++ [c]) rest := by
  obtain ⟨hlead, hsize⟩ := lead_of_lt hc rest
  refine ⟨_, by rw [Machine.advance, h.byte?, hlead]; rfl, rfl, ?_, ?_⟩
  · rw [h.src, List.append_assoc]
    rfl
  · show m.curr + 1 = _
    rw [h.curr, size_append, size_cons, hsize, size_nil]

/-- Before an ASCII character the look ahead by two shows what is left behind it. -/
theorem At.peekNext (h : m.At src before (c :: rest)) (hc : c.toNat < 128) :
    m.peekNext src = some (lead rest) := by
  obtain ⟨m', -, rfl, hm'⟩ := h.advance hc
  have hpeek := hm'.peek
  rw [Machine.peekNext, ← hpeek, Machine.peek, Machine.isAtEnd]
  simp only [decide_eq_true_eq]

/-- An expected byte is passed if it is the next character. -/
theorem At.matchByte (h : m.At src before rest) {e : Char} (he : e.toNat < 128) :
    (∃ more m', rest = e :: more ∧ m.matchByte src e = some (true, m') ∧
      m' = { m with curr := m.curr + 1 } ∧ m'.At src (before ++ [e]) more) ∨
    (∀ more, rest ≠ e :: more) ∧ m.matchByte src e = some (false, m) := by
  rw [Machine.matchByte, h.isAtEnd]
  cases rest with
  | nil => exact .inr ⟨(fun _ hno => nomatch hno), rfl⟩
  | cons d more =>
    rw [List.isEmpty_cons, if_neg Bool.false_ne_true, h.peek]
    have hlead : (lead (d :: more) == e) = (d == e) := (isPlain_beq he).lead d more
    by_cases hd : d = e
    · subst hd
      obtain ⟨m', hadvance, hm', hat⟩ := h.advance he
      refine .inl ⟨more, m', rfl, ?_, hm', hat⟩
      simp [(lead_of_lt he more).1, hadvance]
    · have hne : lead (d :: more) ≠ e := by
        rw [← beq_eq_false_iff_ne, hlead]
        exact beq_eq_false_iff_ne.2 hd
      refine .inr ⟨fun more' hno => hd (List.cons.inj hno).1, ?_⟩
      simp [hne]

/-- A fraction follows if a point and a digit are the next characters. -/
theorem At.fractionFollows (h : m.At src before rest) :
    (∃ d more, rest = '.' :: d :: more ∧ d.isDigit = true ∧ m.fractionFollows src = some true) ∨
      (∀ d more, rest = '.' :: d :: more → d.isDigit = false) ∧
        m.fractionFollows src = some false := by
  rw [Machine.fractionFollows, h.peek]
  cases rest with
  | nil => exact .inr ⟨(fun _ _ hno => nomatch hno), rfl⟩
  | cons c more =>
    have hlead : (lead (c :: more) == '.') = (c == '.') := (isPlain_beq (by decide)).lead c more
    by_cases hc : c = '.'
    · subst hc
      simp only [Option.bind_eq_bind, Option.bind_some, hlead, beq_self_eq_true, if_true,
        h.peekNext (by decide)]
      cases more with
      | nil => exact .inr ⟨(fun _ _ hno => nomatch (List.cons.inj hno).2), rfl⟩
      | cons d more =>
        rw [isPlain_isDigit.lead d more]
        cases hd : d.isDigit with
        | true => exact .inl ⟨d, more, rfl, hd, rfl⟩
        | false =>
          refine .inr ⟨fun d' more' heq => ?_, rfl⟩
          obtain ⟨rfl, -⟩ := List.cons.inj (List.cons.inj heq).2
          exact hd
    · refine .inr ⟨fun d' more' heq => absurd (List.cons.inj heq).1 hc, ?_⟩
      simp only [Option.bind_eq_bind, Option.bind_some, hlead, beq_eq_false_iff_ne.2 hc]
      rfl

/-! ### Loops -/

/-- The walk goes on at bytes that pass the test, and not at the end. -/
def Tests (src : List UInt8) (goes : Machine → Option Bool) (p : Char → Bool) : Prop :=
  ∀ m : Machine, (∀ b, src[m.curr]? = some b → goes m = some (p (Char.ofUInt8 b))) ∧
    (m.curr = src.length → goes m = some false)

/-- Where there is a byte the machine is not at the end. -/
theorem isAtEnd_of_getElem? {b : UInt8} (h : src[m.curr]? = some b) : m.isAtEnd src = false := by
  have hlt := (List.getElem?_eq_some_iff.1 h).1
  rw [Machine.isAtEnd, decide_eq_false_iff_not]
  omega

/-- Where there is a byte the look ahead shows it. -/
theorem peek_of_getElem? {b : UInt8} (h : src[m.curr]? = some b) :
    m.peek src = some (Char.ofUInt8 b) := by
  rw [Machine.peek, isAtEnd_of_getElem? h, if_neg Bool.false_ne_true, Machine.byte?, h]
  rfl

/-- Behind the last byte the machine is at the end. -/
theorem isAtEnd_of_eq (h : m.curr = src.length) : m.isAtEnd src = true :=
  decide_eq_true (Nat.le_of_eq h.symm)

/-- A test that zero fails needs no look at the end. -/
theorem tests_peek {p : Char → Bool} (hp : p '\x00' = false) :
    Tests src (fun m => (m.peek src).map p) p := by
  refine fun m => ⟨fun b hb => ?_, fun hend => ?_⟩
  · show (m.peek src).map p = _
    rw [peek_of_getElem? hb]
    rfl
  · show (m.peek src).map p = _
    rw [Machine.peek, isAtEnd_of_eq hend, if_pos rfl, Option.map_some, hp]

/-- The tests of the loops look ahead only before the end, and come out as the test on the next
character. -/
theorem tests_unlessAtEnd {p : Char → Bool} :
    Tests src (fun m => if m.isAtEnd src then some false else (m.peek src).map p) p := by
  refine fun m => ⟨fun b hb => ?_, fun hend => ?_⟩
  · show (if m.isAtEnd src then some false else (m.peek src).map p) = _
    rw [isAtEnd_of_getElem? hb, if_neg Bool.false_ne_true, peek_of_getElem? hb]
    rfl
  · show (if m.isAtEnd src then some false else (m.peek src).map p) = _
    rw [isAtEnd_of_eq hend, if_pos rfl]

/-- A loop whose test holds passes one byte more, and counts it if it is one to count. -/
theorem passWhile_goes {goes : Machine → Option Bool} {counts : Char → Bool} {b : Char}
    (hgo : goes m = some true) (hb : byte? src m.curr = some b) :
    m.passWhile src goes counts = passWhile src goes counts
      { m with curr := m.curr + 1, line := if counts b then m.line + 1 else m.line } := by
  rw [passWhile, hgo]
  dsimp only
  split
  · next h => exact nomatch h.symm.trans hb
  · next b' h =>
    obtain rfl := Option.some.inj (h.symm.trans hb)
    rfl

/-- A loop whose test fails stops where it is. -/
theorem passWhile_stops {goes : Machine → Option Bool} {counts : Char → Bool}
    (hstop : goes m = some false) : m.passWhile src goes counts = some m := by
  rw [passWhile, hstop]

/-- A loop passes the bytes that pass its test, up to the first that does not. -/
theorem passWhile_bytes {goes : Machine → Option Bool} {p counts : Char → Bool}
    (hgoes : Tests src goes p) {a u r : List UInt8} (hsrc : src = a ++ (u ++ r))
    (hm : m.curr = a.length) (hu : ∀ b ∈ u, p (Char.ofUInt8 b) = true)
    (hr : ∀ b ∈ r.head?, p (Char.ofUInt8 b) = false) :
    m.passWhile src goes counts = some { m with
      curr := m.curr + u.length, line := m.line + u.countP fun b => counts (Char.ofUInt8 b) } := by
  induction u generalizing a m with
  | nil =>
    refine passWhile_stops ?_
    have hget := getElem?_of_append hsrc hm
    cases r with
    | nil => exact (hgoes m).2 (by rw [hm, hsrc]; simp)
    | cons b r => rw [(hgoes m).1 b hget, hr b rfl]
  | cons b u ih =>
    have hget : src[m.curr]? = some b := getElem?_of_append hsrc hm
    have hgo := (hgoes m).1 b hget
    rw [hu b List.mem_cons_self] at hgo
    have hbyte : byte? src m.curr = some (Char.ofUInt8 b) := by
      rw [byte?, hget]
      rfl
    have hsrc' : src = (a ++ [b]) ++ (u ++ r) := by simpa using hsrc
    have hline : (if counts (Char.ofUInt8 b) then m.line + 1 else m.line) +
        u.countP (fun b => counts (Char.ofUInt8 b)) =
          m.line + (b :: u).countP fun b => counts (Char.ofUInt8 b) := by
      rw [List.countP_cons]
      split <;> omega
    rw [passWhile_goes hgo hbyte,
      ih hsrc' (by simp [hm]) fun x hx => hu x (List.mem_cons_of_mem b hx)]
    dsimp only
    rw [hline, List.length_cons, Nat.add_assoc, Nat.add_comm 1]

/-- A loop over characters: those that pass the test are passed. -/
theorem At.passWhile (h : m.At src before rest) {goes : Machine → Option Bool} {p : Char → Bool}
    (counts : Char → Bool) (hgoes : Tests src goes p) (hp : IsPlain p) :
    ∃ m', m.passWhile src goes counts = some m' ∧
      m' = { m with
        curr := m'.curr
        line := m.line + (bytes (rest.takeWhile p)).countP fun b => counts (Char.ofUInt8 b) } ∧
      m'.At src (before ++ rest.takeWhile p) (rest.dropWhile p) := by
  have hsplit : bytes rest = bytes (rest.takeWhile p) ++ bytes (rest.dropWhile p) := by
    rw [← bytes_append, List.takeWhile_append_dropWhile]
  refine ⟨_, passWhile_bytes hgoes (a := bytes before) (r := bytes (rest.dropWhile p)) ?_ ?_
    (hp.bytes fun _ => of_mem_takeWhile) ?_, rfl, ?_, ?_⟩
  · rw [h.src, bytes_append, hsplit]
  · rw [h.curr, length_bytes]
  · intro b hb
    cases hrest : rest.dropWhile p with
    | nil => rw [hrest] at hb; exact nomatch hb
    | cons c more =>
      have hc : p c = false := of_head?_dropWhile (s := rest) c (by rw [hrest]; rfl)
      obtain ⟨b', bs, heq, -⟩ := exists_encode_eq c
      rw [hrest, bytes_cons, heq] at hb
      obtain rfl := Option.some.inj hb
      rw [hp.encode c b' (by rw [heq]; exact List.mem_cons_self), hc]
  · rw [h.src, List.append_assoc, List.takeWhile_append_dropWhile]
  · show m.curr + _ = _
    rw [h.curr, length_bytes, size_append]

/-- The bytes of newlines are those of a text's newlines. -/
theorem countP_newlines (s : List Char) :
    ((bytes s).countP fun b => Char.ofUInt8 b == '\n') = newlines s := by
  induction s with
  | nil => rfl
  | cons c s ih =>
    rw [bytes_cons, List.countP_append, ih, newlines, newlines, List.count_cons, Nat.add_comm]
    congr 1
    obtain ⟨b, bs, hc, -, -, ⟨-, hb, rfl⟩ | ⟨hn, hall⟩⟩ := exists_encode_eq c
    · rw [hc, List.countP_singleton, hb]
    · have hne {x : Char} (hx : 128 ≤ x.toNat) : (x == '\n') = false := by
        refine beq_eq_false_iff_ne.2 ?_
        rintro rfl
        exact absurd hx (by decide)
      rw [hne hn, hc, List.countP_eq_zero.2 fun x hx => by rw [hne (hall x hx)]; decide]
      rfl

/-- Behind the first byte of a character the walk goes on to its end. -/
theorem toBoundary_eq {a u r : List UInt8} (ha : a ≠ []) (hsrc : src = a ++ (u ++ r))
    (hm : m.curr = a.length) (hu : ∀ b ∈ u, isContinuation b = true)
    (hr : ∀ b ∈ r.head?, isContinuation b = false) :
    m.toBoundary src = { m with curr := m.curr + u.length } := by
  induction u generalizing a m with
  | nil =>
    have hget := getElem?_of_append hsrc hm
    rw [toBoundary, dif_neg]
    · rfl
    rintro ⟨hend, hboundary⟩
    rw [isBoundary, hget] at hboundary
    cases r with
    | nil =>
      rw [isAtEnd_of_eq (by rw [hm, hsrc]; simp)] at hend
      exact absurd hend.symm Bool.false_ne_true
    | cons b r => simp [hr b rfl] at hboundary
  | cons b u ih =>
    have hget : src[m.curr]? = some b := getElem?_of_append hsrc hm
    have hpos := List.length_pos_iff.2 ha
    have hsrc' : src = (a ++ [b]) ++ (u ++ r) := by simpa using hsrc
    have hinside : isBoundary src m.curr = false := by
      have hb := hu b List.mem_cons_self
      rw [isBoundary, hget]
      simp [hb]
      omega
    rw [toBoundary, dif_pos ⟨isAtEnd_of_getElem? hget, hinside⟩,
      ih (by simp) hsrc' (by simp [hm]) fun x hx => hu x (List.mem_cons_of_mem b hx)]
    dsimp only
    rw [List.length_cons, Nat.add_assoc, Nat.add_comm 1]

/-! ### The parts of a step -/

/-- A text between the two indices of the walk. -/
theorem At.textSlice {s t : List Char} (h : m.At src (s ++ t) rest) (hs : m.start = size s) :
    Scan.textSlice src m.start m.curr = some (String.ofList t) := by
  rw [h.src, h.curr, hs, textSlice_bytes]

/-- The slice from the start of a piece up to the machine is the bytes of the piece. -/
theorem At.slice {s t : List Char} (h : m.At src (s ++ t) rest) (hs : m.start = size s) :
    Scan.slice src m.start m.curr = some (bytes t) := by
  rw [h.src, h.curr, hs, slice_bytes]

/-- A comment is passed up to its newline. -/
theorem At.skipLine (h : m.At src before rest) :
    ∃ m', m.skipLine src = some m' ∧ m' = { m with curr := m'.curr } ∧
      m'.At src (before ++ rest.takeWhile (· != '\n')) (rest.dropWhile (· != '\n')) := by
  have hslice : Scan.slice src m.curr src.length = some (bytes rest) := by
    have hall := slice_bytes before rest []
    rwa [List.append_nil, ← length_bytes (before ++ rest), ← h.src, ← h.curr] at hall
  have hnone : (bytes (rest.takeWhile (· != '\n'))).findIdx? (fun b => Char.ofUInt8 b == '\n') =
      none := by
    refine List.findIdx?_eq_none_iff.2 fun b hb => ?_
    have hne := (isPlain_bne (e := '\n') (by decide)).bytes (fun _ => of_mem_takeWhile) b hb
    simpa using hne
  have hsplit := List.takeWhile_append_dropWhile (p := (· != '\n')) (l := rest)
  generalize rest.takeWhile (· != '\n') = line at hnone hsplit
  generalize hmore : rest.dropWhile (· != '\n') = more at hsplit
  subst hsplit
  have hat (i : Nat) (hi : i = size (before ++ line)) :
      At src (before ++ line) more { m with curr := i } := ⟨by rw [h.src, List.append_assoc], hi⟩
  rw [Machine.skipLine, hslice]
  cases more with
  | nil =>
    rw [List.append_nil] at h ⊢
    refine ⟨{ m with curr := src.length }, ?_, rfl, hat _ ?_⟩
    · simp only [Option.bind_eq_bind, Option.bind_some, hnone]
      rfl
    · rw [h.src, length_bytes]
  | cons c more =>
    have hc : c = '\n' := by
      have := of_head?_dropWhile (p := (· != '\n')) c (by rw [hmore]; rfl)
      simpa using this
    subst hc
    refine ⟨{ m with curr := m.curr + size line }, ?_, rfl, hat _ ?_⟩
    · have hfind : (bytes (line ++ '\n' :: more)).findIdx? (fun b => Char.ofUInt8 b == '\n') =
          some (size line) := by
        rw [bytes_append, List.findIdx?_append, hnone, length_bytes]
        exact congrArg some (Nat.zero_add _)
      simp only [Option.bind_eq_bind, Option.bind_some, hfind]
      rfl
    · rw [h.curr, size_append]

end Machine
end Scan
end LoxFront
