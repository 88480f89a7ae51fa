/-
# What the text of a value shows

A text shows the form of a value (`Json.form`), which is the value but for its words:
`null` and the numbers are told apart by their texts only.  Two values have the same text
if and only if they have the same form, with no blanks (`Json.compact_eq_iff`) or with one
element a line (`Json.pretty_eq_iff`).
-/

import LoxFront.Proofs.Json.Form

namespace LoxFront
namespace Json

mutual

/-- What a text shows of a value. -/
def form : Json → Form
  | null => .word ⟨"null".toList, plain_null⟩
  | natural n => .word ⟨(toString n).toList, plain_natural n⟩
  | number x => .word ⟨(layout.text x).toList, layout.plain_text x⟩
  | string s => .quoted s
  | array items => .group false (forms items)
  | object fields => .group true (fieldForms fields)

/-- What a text shows of the elements of an array. -/
def forms : List Json → List Form
  | [] => []
  | v :: rest => v.form :: forms rest

/-- What a text shows of the fields of an object. -/
def fieldForms : List (String × Json) → List Form
  | [] => []
  | (key, v) :: rest => .field key v.form :: fieldForms rest

end

/-! ### Brackets -/

/-- A separated list is its first element, and each of the others with the separator before it. -/
theorem intercalate_cons (sep t : List Char) (ts : List (List Char)) :
    sep.intercalate (t :: ts) = t ++ ts.flatMap (sep ++ ·) := by
  induction ts generalizing t with
  | nil => rw [List.intercalate_singleton, List.flatMap_nil, List.append_nil]
  | cons u us ih =>
    rw [List.intercalate_cons_cons, ih, List.flatMap_cons, List.append_assoc, List.append_assoc]

/-- The elements behind the first, each with what stands before it. -/
theorem behind_eq (spacing : Spacing) (level : Nat) (braces : Bool) (ts : List (List Char)) :
    behind spacing level braces ts =
      ts.flatMap (fun t => ',' :: (spacing.lead (level + 1) ++ t)) ++
        (spacing.lead level ++ [closing braces]) := by
  induction ts with
  | nil => rfl
  | cons t ts ih => simp only [behind, ih, List.flatMap_cons, List.cons_append, List.append_assoc]

/-- Elements in brackets, without blanks. -/
theorem toList_brackets (level : Nat) (braces : Bool) (l : List String) :
    (String.ofList [opening braces] ++ ",".intercalate l ++ String.ofList [closing braces]).toList =
      enclosed .compact level braces (l.map String.toList) := by
  rw [String.toList_append, String.toList_append, String.toList_ofList, String.toList_ofList,
    String.toList_intercalate]
  cases l with
  | nil => rfl
  | cons s l =>
    rw [List.map_cons, intercalate_cons, enclosed, behind_eq]
    simp [Spacing.compact]

/-- Elements in brackets, one a line. -/
theorem toList_bracketed (level : Nat) (braces : Bool) (l : List String) :
    (bracketed level (String.ofList [opening braces]) (String.ofList [closing braces]) l).toList =
      enclosed .pretty level braces (l.map String.toList) := by
  cases l with
  | nil =>
    rw [bracketed, List.isEmpty_nil, if_pos rfl, String.toList_append, String.toList_ofList,
      String.toList_ofList]
    rfl
  | cons s l =>
    rw [bracketed, List.isEmpty_cons, if_neg Bool.false_ne_true]
    simp only [String.toList_append, String.toList_ofList, String.toList_intercalate,
      List.map_cons, intercalate_cons, enclosed, behind_eq, List.map_map, List.flatMap_map]
    simp [Spacing.pretty]

/-! ### The text of a value is that of its form -/

mutual

/-- The compact text of a value is the text of its form without blanks; the level has no say in
it. -/
theorem toList_compact : ∀ (v : Json) (level : Nat),
    v.compact.toList = v.form.text .compact level
  | null, level => by rw [compact, form, Form.text]
  | natural n, level => by rw [compact, form, Form.text]
  | number x, level => by rw [compact, form, Form.text]
  | string s, level => by rw [compact, form, Form.text]
  | array items, level => by
    rw [compact, form, Form.text, ← map_toList_compactItems items]
    exact toList_brackets level false _
  | object fields, level => by
    rw [compact, form, Form.text, ← map_toList_compactFields fields]
    exact toList_brackets level true _

/-- The same of the elements of a list. -/
theorem map_toList_compactItems : ∀ (items : List Json) (level : Nat),
    (compactItems items).map String.toList = Form.texts .compact level (forms items)
  | [], level => by rw [compactItems, forms, Form.texts, List.map_nil]
  | v :: rest, level => by
    rw [compactItems, forms, Form.texts, List.map_cons, toList_compact v level,
      map_toList_compactItems rest level]

/-- The same of the fields of an object. -/
theorem map_toList_compactFields : ∀ (fields : List (String × Json)) (level : Nat),
    (compactFields fields).map String.toList = Form.texts .compact level (fieldForms fields)
  | [], level => by rw [compactFields, fieldForms, Form.texts, List.map_nil]
  | (key, v) :: rest, level => by
    rw [compactFields, fieldForms, Form.texts, Form.text, List.map_cons, String.toList_append,
      String.toList_append, toList_compact v level, map_toList_compactFields rest level,
      List.append_assoc]
    rfl

end

mutual

/-- The pretty text of a value is the text of its form with a line for each element. -/
theorem toList_prettyAt : ∀ (v : Json) (level : Nat),
    (v.prettyAt level).toList = v.form.text .pretty level
  | null, level => by rw [prettyAt, form, Form.text]
  | natural n, level => by rw [prettyAt, form, Form.text]
  | number x, level => by rw [prettyAt, form, Form.text]
  | string s, level => by rw [prettyAt, form, Form.text]
  | array items, level => by
    rw [prettyAt, form, Form.text, ← map_toList_prettyItems items]
    exact toList_bracketed level false _
  | object fields, level => by
    rw [prettyAt, form, Form.text, ← map_toList_prettyFields fields]
    exact toList_bracketed level true _

/-- The same of the elements of a list, one level deeper. -/
theorem map_toList_prettyItems : ∀ (items : List Json) (level : Nat),
    (prettyItems level items).map String.toList = Form.texts .pretty level (forms items)
  | [], level => by rw [prettyItems, forms, Form.texts, List.map_nil]
  | v :: rest, level => by
    rw [prettyItems, forms, Form.texts, List.map_cons, toList_prettyAt v level,
      map_toList_prettyItems rest level]

/-- The same of the fields of an object, one level deeper. -/
theorem map_toList_prettyFields : ∀ (fields : List (String × Json)) (level : Nat),
    (prettyFields level fields).map String.toList = Form.texts .pretty level (fieldForms fields)
  | [], level => by rw [prettyFields, fieldForms, Form.texts, List.map_nil]
  | (key, v) :: rest, level => by
    rw [prettyFields, fieldForms, Form.texts, Form.text, List.map_cons, String.toList_append,
      String.toList_append, toList_prettyAt v level, map_toList_prettyFields rest level,
      List.append_assoc]
    rfl

end

/-- Forms with the same text are the same. -/
theorem Form.text_inj {spacing : Spacing} {level : Nat} {f g : Form} :
    f.text spacing level = g.text spacing level ↔ f = g := by
  constructor
  · intro h
    have hends : f.text spacing level ++ [] = g.text spacing level ++ [] := by rw [h]
    exact (f.text_unique ends_nil ends_nil hends).1
  · rintro rfl
    rfl

variable {v w : Json}

/-- **Values have the same text without blanks if and only if they have the same form.** -/
theorem compact_eq_iff : v.compact = w.compact ↔ v.form = w.form := by
  rw [← String.toList_inj, v.toList_compact 0, w.toList_compact 0, Form.text_inj]

/-- **Values have the same text in lines if and only if they have the same form.** -/
theorem pretty_eq_iff : v.pretty = w.pretty ↔ v.form = w.form := by
  rw [← String.toList_inj, pretty, pretty, toList_prettyAt, toList_prettyAt, Form.text_inj]

end Json
end LoxFront
