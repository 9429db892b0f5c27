/-!
# JSON values

An object keeps its fields in order. A number is kept as it is written.
-/

namespace TextDiagram

inductive Json where
  | null
  | bool (b : Bool)
  | number (literal : String)
  | string (s : String)
  | array (items : List Json)
  | object (fields : List (String × Json))
  deriving Repr, BEq

namespace Json

def ofNat (n : Nat) : Json :=
  .number n.repr

/-- A value that may be missing is `null` when it is. -/
def ofOption {α : Type} (f : α → Json) : Option α → Json
  | some a => f a
  | none => .null

def ofList {α : Type} (f : α → Json) (as : List α) : Json :=
  .array (as.map f)

/-- The value of a field; of two fields with one name the last one counts. -/
def field? (j : Json) (key : String) : Option Json :=
  match j with
  | object fields => (fields.reverse.find? fun f => f.1 == key).map Prod.snd
  | _ => none

def string? : Json → Option String
  | string s => some s
  | _ => none

def bool? : Json → Option Bool
  | bool b => some b
  | _ => none

/-- A list of which every item can be read. -/
def list? {α : Type} (read : Json → Option α) : Json → Option (List α)
  | array items => items.mapM read
  | _ => none

/-- `null`, or a value that can be read. -/
def nullable? {α : Type} (read : Json → Option α) : Json → Option (Option α)
  | null => some none
  | j => (read j).map some

def required? {α : Type} (j : Json) (key : String) (read : Json → Option α) : Option α :=
  (j.field? key).bind read

/-- A field that may be absent but, if it is there, has to be readable. -/
def default? {α : Type} (j : Json) (key : String) (absent : α) (read : Json → Option α) :
    Option α :=
  match j.field? key with
  | some value => read value
  | none => some absent

end Json

end TextDiagram
