/-
# Two passes

A comparison that the steps of rules keep is kept by passes too (`Runs.alike`).  So
a first failure is the same in every list that begins with the tokens up to it
(`Runs.failsFirst`), and the same tokens give the same statements wherever in a
list they stand (`Runs.eq_of_tokens`).
-/

import LoxFront.Proofs.Rule.Shared

namespace LoxFront

variable {C : Comparison} {c d e e' : Cursor} {body body' : List Stmt} {trace trace' : List Event}

/-- **Passes from cursors that are compared are alike**, or the runs are apart. -/
theorem Runs.alike (hC : C.Lawful) (h : Runs c body trace e) (k : Runs d body' trace' e')
    (hcd : C.cursors c d) :
    (Like C.tokens body body' ∧ C.cursors e e' ∧ C.traces trace trace') ∨
      C.apart trace e trace' := by
  induction h generalizing d body' trace' with
  | done he =>
    cases k with
    | done => exact .inl ⟨.nil, hcd, hC.nil⟩
    | next hne => exact nomatch ((hC.isAtEnd hcd).trans he).symm.trans hne
  | @next c e body trace hne hlt hrest ih =>
    cases k with
    | done he => exact nomatch he.symm.trans ((hC.isAtEnd hcd).trans hne)
    | next _ _ k =>
      rcases (Rule.alike_recover hC (Rule.item_alike hC maxNesting)).run hcd with
        ⟨hv, hcursor, htrace⟩ | hapart
      · cases hv with
        | ok hv =>
          rcases ih k hcursor with ⟨hvs, hend, hu⟩ | hapart
          · exact .inl ⟨.cons hv hvs, hend, hC.append htrace hu⟩
          · exact .inr (hC.before htrace hapart)
      · exact .inr (hC.after hapart ⟨hrest.reaches, hrest.tells⟩)

/-- The same tokens give the same statements, wherever in a list they stand. -/
theorem Runs.eq_of_tokens (h : Runs c body trace e) (k : Runs d body' trace' e')
    (hrest : d.rest = c.rest) (hmarker : d.marker = c.marker) (hm : c.marker.kind = .eof)
    (hdepth : d.depth = c.depth) : body = body' := by
  have hcd : (Comparison.byTokens Eq).cursors c d :=
    ⟨by rw [hrest]; exact List.forall₂_refl _, hmarker.symm, hm, hdepth⟩
  rcases h.alike (Comparison.byTokens_lawful .eq) k hcd with ⟨hv, -⟩ | hapart
  · exact Likeness.eq hv
  · exact hapart.elim

/-- **A first failure is the first of every pass over a list that begins with the
tokens up to it.** -/
theorem Runs.failsFirst {r r' : List Token} {limit : Nat} {x : FailurePoint}
    (h : Runs c body trace e) (k : Runs d body' trace' e') (hcd : c.Shares r r' limit d)
    (hx : firstFailure? trace = some x) (hlt : x.position < limit) :
    firstFailure? trace' = some x := by
  have htelling : Rule.telling c none e trace := ⟨h.reaches, h.tells⟩
  have hle := position_le_of_telling htelling hx
  rcases h.alike Comparison.upTo_lawful k ⟨hcd, by omega⟩ with ⟨-, -, htrace⟩ | hapart
  · rw [← show trace = trace' from htrace]
    exact hx
  · exact hapart.2 x hx hlt

end LoxFront
