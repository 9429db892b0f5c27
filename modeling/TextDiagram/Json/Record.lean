import TextDiagram.Json.Basic

/-!
# Records and choices as JSON

A record is an object with its fields, or a list of their values in the order of the fields. A
choice is the name of what is chosen, or an object with that name as its only field. In a few points
the rules depend on how the values were written.
-/

namespace TextDiagram.Json

mutual

/-- Whether all numbers of a value pass a test. -/
def numbersAll (test : String → Bool) : Json → Bool
  | .number literal => test literal
  | .array items => itemNumbersAll test items
  | .object fields => fieldNumbersAll test fields
  | .null | .bool _ | .string _ => true

def itemNumbersAll (test : String → Bool) : List Json → Bool
  | [] => true
  | v :: vs => numbersAll test v && itemNumbersAll test vs

def fieldNumbersAll (test : String → Bool) : List (String × Json) → Bool
  | [] => true
  | (_, v) :: fields => numbersAll test v && fieldNumbersAll test fields

end

/-- In what the reading of records and choices depends on how the values were written. -/
structure ReadingRules where
  /-- Whether a record may have the value in a field of its own. -/
  passes : Json → Bool
  /-- Whether the list of a record may go on behind its last field. -/
  allowsMore : Bool
  /-- What stands in the only field of a choice that is an object. -/
  isEmpty : Json → Bool

def isNull : Json → Bool
  | null => true
  | _ => false

/-- The rules for values that were written as JSON. -/
def ReadingRules.json : ReadingRules where
  passes _ := true
  allowsMore := false
  isEmpty := isNull

/-- A record as an object, given the names of its fields. Of a list the last fields may be left
out. -/
def record? (rules : ReadingRules) (names : List String) : Json → Option Json
  | object fields =>
    if fields.all fun (name, v) => names.contains name || rules.passes v then some (object fields)
    else none
  | array items =>
    if rules.allowsMore || items.length ≤ names.length then some (object (names.zip items))
    else none
  | _ => none

@[simp] theorem record?_json_object (names : List String) (fields : List (String × Json)) :
    record? .json names (object fields) = some (object fields) := by
  simp [record?, ReadingRules.json]

/-- A choice, given how its names are read. -/
def choice? {α : Type} (rules : ReadingRules) (ofName? : String → Option α) : Json → Option α
  | string name => ofName? name
  | object [(name, v)] => if rules.isEmpty v then ofName? name else none
  | _ => none

@[simp] theorem choice?_string {α : Type} (rules : ReadingRules) (ofName? : String → Option α)
    (name : String) : choice? rules ofName? (string name) = ofName? name :=
  rfl

end TextDiagram.Json
