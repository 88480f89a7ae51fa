/-
# The bytes of a text

A text as the bytes of its characters (`Scan.bytes`).  Characters below 128 are one
byte; all others begin with a byte from 192 on and go on with bytes from 128 to 191
(`Scan.exists_encode_eq`).  So a test of characters that gives the same for all
characters from 128 on can be made byte by byte (`Scan.IsPlain.encode`), and the
places between characters are those where no such byte is at hand
(`Scan.isBoundary_size`).
-/

import LoxFront.Proofs.Scan.Finds

namespace LoxFront
namespace Scan

/-- The bytes of a text. -/
def bytes (s : List Char) : List UInt8 := s.flatMap String.utf8EncodeChar

/-- No characters have no bytes. -/
@[simp] theorem bytes_nil : bytes [] = [] := rfl

/-- The bytes of a text begin with those of its first character. -/
@[simp] theorem bytes_cons (c : Char) (s : List Char) :
    bytes (c :: s) = String.utf8EncodeChar c ++ bytes s := List.flatMap_cons

/-- The bytes of two texts one behind the other are those of the one and then of the other. -/
@[simp] theorem bytes_append (s t : List Char) : bytes (s ++ t) = bytes s ++ bytes t :=
  List.flatMap_append

/-- A text has as many bytes as its size tells. -/
@[simp] theorem length_bytes (s : List Char) : (bytes s).length = size s := by
  induction s with
  | nil => rfl
  | cons c s ih => rw [bytes_cons, List.length_append, String.length_utf8EncodeChar, ih, size_cons]

/-- The bytes of a source text are those that it is kept in. -/
theorem bytes_toList (source : String) : bytes source.toList = source.toByteArray.data.toList := by
  rw [← String.utf8Encode_toList, List.utf8Encode, List.toList_data_toByteArray, bytes]

/-- The bytes of a list of characters are those of the text that it makes. -/
theorem toByteArray_bytes (s : List Char) : (bytes s).toByteArray = (String.ofList s).toByteArray :=
  String.toByteArray_ofList.symm

/-- Different texts have different bytes. -/
theorem bytes_inj {s t : List Char} : bytes s = bytes t ↔ s = t := by
  refine ⟨fun h => ?_, congrArg bytes⟩
  have harray := congrArg List.toByteArray h
  rw [toByteArray_bytes, toByteArray_bytes, String.toByteArray_inj] at harray
  exact String.ofList_injective harray

/-- A byte that goes on a character. -/
def isContinuation (b : UInt8) : Bool := decide (128 ≤ b.toNat ∧ b.toNat < 192)

/-- The character of the same number as a byte. -/
theorem toNat_ofUInt8 {n : Nat} (h : n < 256) : (Char.ofUInt8 (UInt8.ofNat n)).toNat = n := by
  show (UInt8.ofNat n).toUInt32.toNat = n
  rw [UInt8.toNat_toUInt32, UInt8.toNat_ofNat', Nat.mod_eq_of_lt h]

/-- The continuation bytes are those from 128 up to 191. -/
theorem isContinuation_ofNat {n : Nat} (h : n < 256) :
    isContinuation (UInt8.ofNat n) = decide (128 ≤ n ∧ n < 192) := by
  rw [isContinuation, UInt8.toNat_ofNat', Nat.mod_eq_of_lt h]

/-- The bytes behind the first carry six bits each. -/
theorem continuation (n : Nat) :
    isContinuation (UInt8.ofNat (n % 64 + 128)) = true ∧
      128 ≤ (Char.ofUInt8 (UInt8.ofNat (n % 64 + 128))).toNat := by
  rw [isContinuation_ofNat (by omega), toNat_ofUInt8 (by omega), decide_eq_true_iff]
  omega

/-- A byte from 192 on begins a character, and is no ASCII character itself. -/
theorem beginning {n : Nat} (h : 192 ≤ n) (hlt : n < 256) :
    isContinuation (UInt8.ofNat n) = false ∧ 128 ≤ (Char.ofUInt8 (UInt8.ofNat n)).toNat := by
  rw [isContinuation_ofNat hlt, toNat_ofUInt8 hlt, decide_eq_false_iff_not]
  omega

/-- A character is one byte of its own number, or a byte that begins a longer one and
bytes that go on. -/
theorem exists_encode_eq (c : Char) :
    ∃ b bs, String.utf8EncodeChar c = b :: bs ∧ isContinuation b = false ∧
      (∀ x ∈ bs, isContinuation x = true) ∧
        (c.toNat < 128 ∧ Char.ofUInt8 b = c ∧ bs = [] ∨
          128 ≤ c.toNat ∧ ∀ x ∈ b :: bs, 128 ≤ (Char.ofUInt8 x).toNat) := by
  have hn : c.val.toNat = c.toNat := rfl
  simp only [String.utf8EncodeChar, hn]
  split
  · refine ⟨_, [], rfl, ?_, List.forall_mem_nil _, .inl ⟨by omega, ?_, rfl⟩⟩
    · rw [isContinuation_ofNat (by omega), decide_eq_false_iff_not]
      omega
    · exact Char.toNat_inj.1 (toNat_ofUInt8 (by omega))
  -- several bytes: the first has the number of them, the others six bits each
  split
  · have hb := beginning (n := c.toNat / 64 % 32 + 192) (by omega) (by omega)
    refine ⟨_, _, rfl, hb.1, ?_, .inr ⟨by omega, ?_⟩⟩ <;>
      simp only [List.forall_mem_cons, List.not_mem_nil, continuation, hb.2, and_true,
        false_implies, implies_true]
  split
  · have hb := beginning (n := c.toNat / 4096 % 16 + 224) (by omega) (by omega)
    refine ⟨_, _, rfl, hb.1, ?_, .inr ⟨by omega, ?_⟩⟩ <;>
      simp only [List.forall_mem_cons, List.not_mem_nil, continuation, hb.2, and_true,
        false_implies, implies_true]
  · have hb := beginning (n := c.toNat / 262144 % 8 + 240) (by omega) (by omega)
    refine ⟨_, _, rfl, hb.1, ?_, .inr ⟨by omega, ?_⟩⟩ <;>
      simp only [List.forall_mem_cons, List.not_mem_nil, continuation, hb.2, and_true,
        false_implies, implies_true]

/-! ### Tests of characters, byte by byte -/

/-- The test gives the same for all characters from 128 on. -/
def IsPlain (p : Char → Bool) : Prop := ∀ c d : Char, 128 ≤ c.toNat → 128 ≤ d.toNat → p c = p d

/-- To be a certain ASCII character is told by the first byte. -/
theorem isPlain_beq {e : Char} (he : e.toNat < 128) : IsPlain (· == e) := by
  intro c d hc hd
  have hne {x : Char} (hx : 128 ≤ x.toNat) : (x == e) = false := by
    refine beq_eq_false_iff_ne.2 ?_
    rintro rfl
    omega
  exact (hne hc).trans (hne hd).symm

/-- Not to be a certain ASCII character is told by the first byte. -/
theorem isPlain_bne {e : Char} (he : e.toNat < 128) : IsPlain (· != e) := fun c d hc hd =>
  congrArg not (isPlain_beq he c d hc hd)

/-- A test that holds of ASCII characters only is told by the first byte. -/
theorem isPlain_of {p : Char → Bool} (hp : ∀ c : Char, (128 : UInt32) ≤ c.val → p c = false) :
    IsPlain p := fun c d hc hd =>
  (hp c (UInt32.le_iff_toNat_le.2 hc)).trans (hp d (UInt32.le_iff_toNat_le.2 hd)).symm

/-- To be a digit is told by the first byte. -/
theorem isPlain_isDigit : IsPlain Char.isDigit := by
  refine isPlain_of fun c hc => ?_
  simp only [Char.isDigit]
  grind

/-- To go on with a word is told by the first byte. -/
theorem isPlain_isWordRest : IsPlain isWordRest := by
  refine isPlain_of fun c hc => ?_
  have hne : c ≠ '_' := by rintro rfl; revert hc; decide
  unfold isWordRest Char.isAlphanum Char.isAlpha Char.isUpper Char.isLower Char.isDigit
  grind

/-- Every byte of a character passes the test if the character does. -/
theorem IsPlain.encode {p : Char → Bool} (hp : IsPlain p) (c : Char) :
    ∀ b ∈ String.utf8EncodeChar c, p (Char.ofUInt8 b) = p c := by
  obtain ⟨b, bs, hc, -, -, ⟨-, hb, rfl⟩ | ⟨hn, hall⟩⟩ := exists_encode_eq c
  · rw [hc, List.forall_mem_singleton, hb]
  · rw [hc]
    exact fun x hx => hp _ _ (hall x hx) hn

/-- A test told by the first byte comes out alike on every byte of a text, if it does on its
characters. -/
theorem IsPlain.bytes {p : Char → Bool} (hp : IsPlain p) {s : List Char} {v : Bool}
    (h : ∀ c ∈ s, p c = v) : ∀ b ∈ bytes s, p (Char.ofUInt8 b) = v := by
  intro b hb
  obtain ⟨c, hc, hb⟩ := List.mem_flatMap.1 hb
  rw [hp.encode c b hb, h c hc]

/-- The byte at hand before a text, as a character; zero at the end. -/
def lead (s : List Char) : Char := ((bytes s).head?.map Char.ofUInt8).getD '\x00'

/-- Such a test comes out on the byte that leads in a character as on the character. -/
theorem IsPlain.lead {p : Char → Bool} (hp : IsPlain p) (c : Char) (s : List Char) :
    p (lead (c :: s)) = p c := by
  obtain ⟨b, bs, hc, -⟩ := exists_encode_eq c
  rw [Scan.lead, bytes_cons, hc]
  exact hp.encode c b (by rw [hc]; exact List.mem_cons_self)

/-! ### Boundaries -/

/-- A character begins at this byte, or the text ends there. -/
def isBoundary (src : List UInt8) (i : Nat) : Bool :=
  i == 0 || (match src[i]? with
    | none => i == src.length
    | some b => !isContinuation b)

/-- Where a text ends a character boundary stands, whatever follows. -/
theorem isBoundary_size (s t : List Char) : isBoundary (bytes (s ++ t)) (size s) = true := by
  rw [isBoundary, bytes_append, ← length_bytes, List.getElem?_append_right (Nat.le_refl _),
    Nat.sub_self]
  cases t with
  | nil => simp
  | cons c t =>
    obtain ⟨b, bs, hc, hb, -⟩ := exists_encode_eq c
    simp [hc, hb]

/-! ### Slices -/

/-- A slice of the bytes, if it is in range. -/
def slice (src : List UInt8) (i j : Nat) : Option (List UInt8) :=
  if i ≤ j ∧ j ≤ src.length then some ((src.drop i).take (j - i)) else none

/-- A slice as text, if it is in range and both its ends are boundaries. -/
def textSlice (src : List UInt8) (i j : Nat) : Option String :=
  if isBoundary src i && isBoundary src j then
    (slice src i j).bind fun b => String.fromUTF8? b.toByteArray
  else none

/-- Sliced from the end of one text to the end of the next, the bytes are those of the second. -/
theorem slice_bytes (s t u : List Char) :
    slice (bytes (s ++ t ++ u)) (size s) (size (s ++ t)) = some (bytes t) := by
  have hle : size s ≤ size (s ++ t) ∧ size (s ++ t) ≤ (bytes (s ++ t ++ u)).length := by
    simp only [length_bytes, size_append]
    omega
  rw [slice, if_pos hle, size_append, Nat.add_sub_cancel_left, List.append_assoc, bytes_append,
    ← length_bytes s, List.drop_left, bytes_append, ← length_bytes t, List.take_left]

/-- The slice at character boundaries is the text between them. -/
theorem textSlice_bytes (s t u : List Char) :
    textSlice (bytes (s ++ t ++ u)) (size s) (size (s ++ t)) = some (String.ofList t) := by
  have hfirst := isBoundary_size s (t ++ u)
  rw [← List.append_assoc] at hfirst
  rw [textSlice, hfirst, isBoundary_size, slice_bytes]
  have hvalid : (String.ofList t).toByteArray.IsValidUTF8 := (String.ofList t).isValidUTF8
  show String.fromUTF8? (bytes t).toByteArray = _
  rw [toByteArray_bytes, String.fromUTF8?, dif_pos hvalid]
  rfl

end Scan
end LoxFront
