/-
# Items on demand

A scan is made item by item: each call walks on from where the one before it
stopped, to the next token or error, to the end marker, or to nothing
(`Scan.Machine.next`).  The calls give the items of the scan in order, and nothing
for ever after (`Scan.Machine.call_fresh`); what they give makes up the tokens of the
source or its errors (`Scan.gather_items`).
-/

import LoxFront.Proofs.Scan.Layout

namespace LoxFront
namespace Scan

/-- What is handed over for an item. -/
def Item.result : Item → Except Diagnostic Token
  | token t => .ok t
  | trouble line cause => .error (.lexical line cause.message)

namespace Machine

/-- The walk before the first byte. -/
def fresh : Machine := ⟨0, 0, 1, none⟩

/-- The next token or error and the walk behind it.  The walk is one byte behind the
end when the end marker was given; from there on nothing is given.  Like a byte out of
range, a piece that takes no byte stops everything. -/
def next (src : List UInt8) (m : Machine) : Option (Option (Except Diagnostic Token) × Machine) :=
  if src.length < m.curr then some (none, m)
  else if m.curr = src.length then
    some (some (.ok (.atEnd m.line)), { m with curr := m.curr + 1 })
  else
    match scanToken src { m with start := m.curr, pending := none } with
    | none => none
    | some (m', some e) => some (some (.error e), m')
    | some (m', none) =>
      match m'.pending with
      | some (kind, payload) =>
        (textSlice src m'.start m'.curr).map fun lexeme =>
          (some (.ok ⟨kind, lexeme, m'.line, payload⟩), { m' with pending := none })
      | none => if _h : m.curr < m'.curr then next src m' else none
termination_by src.length - m.curr

/-- What the call with this number gives, counted from zero. -/
def call (src : List UInt8) : Nat → Machine → Option (Option (Except Diagnostic Token))
  | 0, m => (next src m).map Prod.fst
  | n + 1, m => (next src m).bind fun r => call src n r.2

variable {src : List UInt8} {before rest : List Char} {m m' : Machine} {c : Char}

/-! ### One call -/

/-- A call looks only at the walk behind the calls before it. -/
theorem call_congr (h : m.next src = m'.next src) (n : Nat) : m.call src n = m'.call src n := by
  cases n with
  | zero => rw [call, call, h]
  | succ n => rw [call, call, h]

/-- Behind the end marker nothing is given, whenever it is asked for. -/
theorem call_spent (h : src.length < m.curr) (n : Nat) : m.call src n = some none := by
  have hnext : m.next src = some (none, m) := by rw [next, if_pos h]
  induction n with
  | zero => rw [call, hnext]; rfl
  | succ n ih => rw [call, hnext]; exact ih

/-- At the end of the input the end marker is given, and the walk is spent. -/
theorem At.next_nil (h : m.At src before []) :
    m.next src = some (some (.ok (.atEnd m.line)), { m with curr := m.curr + 1 }) ∧
      src.length < m.curr + 1 := by
  have hlen : src.length = m.curr := h.length
  rw [next, if_neg (by omega), if_pos hlen.symm, hlen]
  exact ⟨rfl, Nat.lt_succ_self _⟩

/-- **The next call gives what the first piece leaves**, or what the one after the
piece would give if it leaves nothing. -/
theorem At.next_cons (h : m.At src before (c :: rest)) :
    ∃ m', m'.At src (before ++ (first c rest).1.text) (first c rest).2 ∧
      m'.line = m.line + newlines (first c rest).1.text ∧
      m.next src = match (first c rest).1.item? m'.line with
        | some i => some (some i.result, m')
        | none => m'.next src := by
  have hpos := c.utf8Size_pos
  have hlen := h.length
  rw [size_cons] at hlen
  obtain ⟨m', hstep, hreads⟩ := scanToken_steps
    (m := { m with start := m.curr, pending := none }) ⟨h.src, h.curr⟩ h.curr rfl
  -- no piece is empty, so a call that goes on behind blanks and comments comes to an end
  have hforward : m.curr < m'.curr := by
    have hsize := size_pos (first_ne_nil c rest)
    rw [hreads.at_end.curr, size_append, h.curr]
    omega
  rw [next, if_neg (by omega), if_neg (by omega), hstep]
  generalize first c rest = p at hreads hforward
  obtain ⟨⟨shape, text⟩, after⟩ := p
  obtain ⟨hat, hstart, hline, hpending⟩ := hreads
  cases shape with
  | blank | comment =>
    refine ⟨m', hat, hline, ?_⟩
    simp only [Piece.error?, hpending, Piece.pending?, dif_pos hforward]
    rfl
  | lexeme k payload =>
    have hslice := hat.textSlice (hstart.trans h.curr)
    refine ⟨{ m' with pending := none }, ⟨hat.src, hat.curr⟩, hline, ?_⟩
    simp only [Piece.error?, hpending, Piece.pending?, hslice]
    rfl
  | stray | openString => exact ⟨m', hat, hline, rfl⟩

/-! ### All calls -/

/-- **The calls give the items one after the other**, and nothing behind the last. -/
theorem At.call_eq (h : m.At src before rest) (n : Nat) :
    m.call src n = some ((itemsFrom m.line (pieces rest))[n]?.map Item.result) := by
  fun_induction pieces rest generalizing before m n with
  | case1 =>
    obtain ⟨hnext, hspent⟩ := h.next_nil
    cases n with
    | zero => rw [call, hnext]; rfl
    | succ n => rw [call, hnext]; exact call_spent hspent n
  | case2 c cs ih =>
    obtain ⟨m', hat, hline, hnext⟩ := h.next_cons
    have hmore := ih hat
    rw [itemsFrom, ← hline]
    cases hitem : (first c cs).1.item? m'.line with
    | none =>
      rw [hitem] at hnext
      rw [call_congr hnext, hmore]
      rfl
    | some i =>
      rw [hitem] at hnext
      cases n with
      | zero => rw [call, hnext]; rfl
      | succ n => rw [call, hnext]; exact hmore n

/-- The call number `n` of `next` gives the item number `n`, and nothing once they are spent. -/
theorem call_fresh (source : String) (n : Nat) :
    fresh.call (bytes source.toList) n = some ((items source)[n]?.map Item.result) := by
  have hat : At (bytes source.toList) [] source.toList fresh := ⟨rfl, rfl⟩
  exact hat.call_eq n

end Machine

/-! ### All that is given, together -/

/-- The error in what is given. -/
def error? : Except Diagnostic Token → Option Diagnostic
  | .ok _ => none
  | .error e => some e

/-- The tokens among what was given, or the errors if there are any. -/
def gather (given : List (Except Diagnostic Token)) : Except (List Diagnostic) (List Token) :=
  if (given.filterMap error?).isEmpty then .ok (given.filterMap Except.toOption)
  else .error (given.filterMap error?)

/-- The tokens of a source are gathered from its items. -/
theorem gather_items (source : String) :
    gather ((items source).map Item.result) = tokens source := by
  have herrors : error? ∘ Item.result = Item.diagnostic? := by
    funext i
    cases i <;> rfl
  have htokens : Except.toOption ∘ Item.result = Item.token? := by
    funext i
    cases i <;> rfl
  rw [gather, tokens, troubles, List.filterMap_map, List.filterMap_map, herrors, htokens]

end Scan
end LoxFront
