import TextDiagram.Json.Reader
import TextDiagram.Proofs.JsonTokens

/-!
# Reading back a JSON value

The reader keeps the arrays and objects that are still open. Taking in the tokens of a value leaves
that stack as it was and leads behind the value, wherever in a text the value stands. So a rendered
value is read back, and two values never have the same text.
-/

namespace TextDiagram.Json

open Reading (step start)

/-- Behind an opening bracket a value is read as the first item. -/
theorem foldlM_itemOrClose (v : Json) (stack : List Frame) (rest : List Token) :
    (v.tokens ++ rest).foldlM step (.itemOrClose stack) =
      (v.tokens ++ rest).foldlM step (.value (.items [] :: stack)) := by
  cases v with
  | null | bool _ | number _ | string _ => rfl
  | array items => cases items <;> rfl
  | object fields =>
      cases fields with
      | nil => rfl
      | cons field fields =>
          obtain ⟨key, v⟩ := field
          simp only [tokens, List.cons_append, List.foldlM_cons]
          rfl

mutual

theorem foldlM_tokens (v : Json) (stack : List Frame) (rest : List Token) :
    (v.tokens ++ rest).foldlM step (.value stack) = rest.foldlM step (.after v stack) := by
  match v with
  | .null | .bool _ | .number _ | .string _ => rfl
  | .array [] | .object [] => rfl
  | .array (v :: vs) =>
      calc (tokens (.array (v :: vs)) ++ rest).foldlM step (.value stack)
        _ = (v.tokens ++ (itemTokens vs ++ .closeArray :: rest)).foldlM step
              (.itemOrClose stack) := by
            simp [tokens, step, start]
        _ = (itemTokens vs ++ .closeArray :: rest).foldlM step (.after v (.items [] :: stack)) := by
            rw [foldlM_itemOrClose, foldlM_tokens]
        _ = rest.foldlM step (.after (.array (v :: vs)) stack) := foldlM_itemTokens vs v [] stack rest
  | .object ((key, v) :: fields) =>
      calc (tokens (.object ((key, v) :: fields)) ++ rest).foldlM step (.value stack)
        _ = (v.tokens ++ (fieldTokens fields ++ .closeObject :: rest)).foldlM step
              (.value (.fields [] key :: stack)) := by
            simp [tokens, step, start]
        _ = (fieldTokens fields ++ .closeObject :: rest).foldlM step
              (.after v (.fields [] key :: stack)) := foldlM_tokens ..
        _ = rest.foldlM step (.after (.object ((key, v) :: fields)) stack) :=
            foldlM_fieldTokens fields key v [] stack rest

theorem foldlM_itemTokens (vs : List Json) (v : Json) (done : List Json) (stack : List Frame)
    (rest : List Token) :
    (itemTokens vs ++ .closeArray :: rest).foldlM step (.after v (.items done :: stack)) =
      rest.foldlM step (.after (.array (done.reverse ++ v :: vs)) stack) := by
  match vs with
  | [] => simp [itemTokens, step]
  | w :: vs =>
      calc (itemTokens (w :: vs) ++ .closeArray :: rest).foldlM step
            (.after v (.items done :: stack))
        _ = (w.tokens ++ (itemTokens vs ++ .closeArray :: rest)).foldlM step
              (.value (.items (v :: done) :: stack)) := by
            simp [itemTokens, step]
        _ = rest.foldlM step (.after (.array ((v :: done).reverse ++ w :: vs)) stack) := by
            rw [foldlM_tokens, foldlM_itemTokens]
        _ = rest.foldlM step (.after (.array (done.reverse ++ v :: w :: vs)) stack) := by
            simp

theorem foldlM_fieldTokens (fields : List (String × Json)) (key : String) (v : Json)
    (done : List (String × Json)) (stack : List Frame) (rest : List Token) :
    (fieldTokens fields ++ .closeObject :: rest).foldlM step (.after v (.fields done key :: stack)) =
      rest.foldlM step (.after (.object (done.reverse ++ (key, v) :: fields)) stack) := by
  match fields with
  | [] => simp [fieldTokens, step]
  | (key', w) :: fields =>
      calc (fieldTokens ((key', w) :: fields) ++ .closeObject :: rest).foldlM step
            (.after v (.fields done key :: stack))
        _ = (w.tokens ++ (fieldTokens fields ++ .closeObject :: rest)).foldlM step
              (.value (.fields ((key, v) :: done) key' :: stack)) := by
            simp [fieldTokens, step]
        _ = rest.foldlM step
              (.after (.object (((key, v) :: done).reverse ++ (key', w) :: fields)) stack) := by
            rw [foldlM_tokens, foldlM_fieldTokens]
        _ = rest.foldlM step
              (.after (.object (done.reverse ++ (key, v) :: (key', w) :: fields)) stack) := by
            simp

end

theorem ofTokens?_tokens (v : Json) : ofTokens? v.tokens = some v := by
  have hread := foldlM_tokens v [] []
  rw [List.append_nil] at hread
  rw [ofTokens?, hread]
  rfl

/-- A value is read back from its text, compact or pretty. -/
theorem ofText?_render (isPretty : Bool) {v : Json} (hv : v.Legible) :
    ofText? (v.render isPretty) = some v := by
  rw [ofText?, tokens?_render isPretty hv, Option.bind_some, ofTokens?_tokens]

end TextDiagram.Json
