/-
# From the scan to the parser

A parser needs tokens that end in the only end marker and begin with something else.
The scan gives its items one at a time, the end marker last and once, and nothing
behind it; so its tokens can be parsed unless there is nothing in the source but
blanks and comments (`Scan.next_handsOver`).
-/

import LoxFront.Proofs.Parse.Pass
import LoxFront.Proofs.Scan.Blank
import LoxFront.Proofs.Scan.Next

namespace LoxFront

open Cursor (Sound)

namespace Scan

variable {source : String} {ts : List Token}

/-- A source without errors is blank if and only if its tokens are the end marker
alone. -/
theorem gap_iff_of_tokens (h : tokens source = .ok ts) :
    Gap source.toList [] ↔ ∃ line, ts = [.atEnd line] := by
  rw [gap_iff, tokens_eq_ok_iff.1 h]
  refine exists_congr fun line => ?_
  rw [show [Item.token (.atEnd line)] = [Token.atEnd line].map Item.token from rfl]
  exact List.map_inj_right fun _ _ => Item.token.inj

/-- Nothing but the end marker is found in a blank source. -/
theorem tokens_of_gap (h : Gap source.toList []) :
    ∃ line, items source = [.token (.atEnd line)] ∧ tokens source = .ok [.atEnd line] := by
  obtain ⟨line, hitems⟩ := (gap_iff source).1 h
  exact ⟨line, hitems, tokens_eq_ok_iff.2 hitems⟩

/-- The tokens of a source that is not blank are sound. -/
theorem sound_of_not_gap (h : tokens source = .ok ts) (hgap : ¬Gap source.toList []) :
    ∃ body line, ts = body ++ [.atEnd line] ∧ Sound body (.atEnd line) := by
  obtain ⟨body, line, rfl, hbody⟩ := tokens_eq_ok h
  refine ⟨body, line, rfl, ?_, fun t ht => (hbody t ht).kind_ne_eof, rfl⟩
  rintro rfl
  exact hgap ((gap_iff_of_tokens h).2 ⟨line, rfl⟩)

/-- **The scan hands over what the parser needs.**  Whatever the source, the calls for
the next item give finitely many items and then nothing, however often it is asked for.
The last item is an end marker with an empty lexeme, and no other item is one.  The
tokens of the source, or its errors, are gathered from these items.  If there is nothing
but blanks and comments in the source, its tokens are the end marker alone, which has no
cursor and cannot be parsed; else the tokens, if there are no errors, have a cursor, and
they are parsed or rejected for errors in them. -/
theorem next_handsOver (source : String) :
    ∃ found line,
      (∀ n, Machine.fresh.call (bytes source.toList) n =
        some ((found ++ [.ok (.atEnd line)])[n]?)) ∧
      (∀ t, .ok t ∈ found → t.kind ≠ .eof) ∧
      tokens source = gather (found ++ [.ok (.atEnd line)]) ∧
      (Gap source.toList [] →
        tokens source = .ok [.atEnd line] ∧ Cursor.ofTokens [.atEnd line] = .error .onlyEnd ∧
          parse [.atEnd line] = .error (.fatal Fault.onlyEnd.diagnostic)) ∧
      (¬Gap source.toList [] → ∀ ts, tokens source = .ok ts →
        (∃ c, Cursor.ofTokens ts = .ok c) ∧ ∀ cause, parse ts ≠ .error (.fatal cause)) := by
  obtain ⟨found, line, hitems, hkinds⟩ := items_eq source
  have hgiven : (items source).map Item.result = found.map Item.result ++ [.ok (.atEnd line)] := by
    rw [hitems, List.map_append]
    rfl
  refine ⟨found.map Item.result, line, fun n => ?_, fun t ht => ?_, ?_, fun hgap => ?_,
    fun hgap ts hts => ?_⟩
  · rw [Machine.call_fresh, ← hgiven, List.getElem?_map]
  · obtain ⟨i, hi, hresult⟩ := List.mem_map.1 ht
    cases i with
    | token t' => exact Except.ok.inj hresult ▸ hkinds t' hi
    | trouble line cause => exact nomatch hresult
  · rw [← hgiven, gather_items]
  · obtain ⟨line', hitems', htokens⟩ := tokens_of_gap hgap
    obtain rfl : line = line' := by
      have hlast := congrArg List.getLast? (hitems.symm.trans hitems')
      rw [List.getLast?_concat] at hlast
      simpa [Token.atEnd] using hlast
    have hnone : Cursor.ofTokens [Token.atEnd line] = .error .onlyEnd := rfl
    exact ⟨htokens, hnone, parse_of_error hnone⟩
  · obtain ⟨body, line', rfl, hsound⟩ := sound_of_not_gap hts hgap
    have hc := Cursor.ofTokens_concat hsound
    refine ⟨⟨_, hc⟩, fun cause hcause => ?_⟩
    rcases parse_ends hc with ⟨p, hp⟩ | ⟨report, hp, -⟩ <;> exact nomatch hp.symm.trans hcause

end Scan
end LoxFront
