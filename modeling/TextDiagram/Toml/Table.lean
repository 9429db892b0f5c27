import TextDiagram.Toml.Statement

/-!
# Tables of a configuration file

The statements of a file are put together to one table. No key is given twice, and a table that has
been opened or given as a value is not opened or added to again from elsewhere.
-/

namespace TextDiagram.Toml

/-- How a table came about. -/
inductive Origin where
  /-- It holds a table that was opened. -/
  | implicit
  | opened
  /-- A key with points leads through it. -/
  | dotted
  deriving DecidableEq

inductive Item where
  | value (v : Json)
  | table (origin : Origin) (entries : List (String × Item))
  /-- A list of tables, the last one first. -/
  | tables (list : List (List (String × Item)))

abbrev Entries := List (String × Item)

/-- What a statement does to the item that is at its place, if it is allowed there. -/
abbrev Change := Option Item → Option Item

def changeEntry (name : String) (change : Change) : Entries → Option Entries
  | [] => (change none).map fun item => [(name, item)]
  | (k, item) :: entries =>
    if k = name then (change (some item)).map fun item => (k, item) :: entries
    else (changeEntry name change entries).map fun entries => (k, item) :: entries

/-- A change inside a table that the path of a header leads through. -/
def inside (change : Entries → Option Entries) : Change
  | none => (change []).map (Item.table .implicit)
  | some (.table origin entries) => (change entries).map (Item.table origin)
  | some (.tables (last :: earlier)) =>
    (change last).map fun last => .tables (last :: earlier)
  | some _ => none

/-- A change inside a table that a key with points ends in. The table has not been opened, and from
then on it cannot be. -/
def insideDotted (change : Entries → Option Entries) : Change
  | none => (change []).map (Item.table .dotted)
  | some (.table origin entries) =>
    if origin = .opened then none else (change entries).map (Item.table .dotted)
  | some _ => none

/-- A change inside a table that a key with points leads through. That may be the last one of a
list. -/
def insideByKey (change : Entries → Option Entries) : Change
  | some (.tables list) => inside change (some (.tables list))
  | item => insideDotted change item

def changeAt (change : Change) : List String → Entries → Option Entries
  | [], _ => none
  | [name], entries => changeEntry name change entries
  | name :: path, entries => changeEntry name (inside (changeAt change path)) entries

def openTable : Change
  | none => some (.table .opened [])
  | some (.table .implicit entries) => some (.table .opened entries)
  | some _ => none

def nextTable : Change
  | none => some (.tables [[]])
  | some (.tables list) => some (.tables ([] :: list))
  | some _ => none

def setValue (v : Json) : Change
  | none => some (.value v)
  | some _ => none

/-- Gives a value to a key. -/
def setAt (v : Json) : List String → Entries → Option Entries
  | [], _ => none
  | [name], entries => changeEntry name (setValue v) entries
  | [name, last], entries =>
    changeEntry name (insideDotted (changeEntry last (setValue v))) entries
  | name :: path, entries => changeEntry name (insideByKey (setAt v path)) entries

/-- A change of the entries of the table that is open. -/
def changeOpen (change : Entries → Option Entries) : List String → Entries → Option Entries
  | [], entries => change entries
  | name :: path, entries => changeEntry name (inside (changeOpen change path)) entries

/-! ### Tables as JSON -/

mutual

def Item.toJson : Item → Json
  | .value v => v
  | .table _ entries => .object (entriesToJson entries)
  | .tables list => .array (tablesToJson list).reverse

def entriesToJson : List (String × Item) → List (String × Json)
  | [] => []
  | (name, item) :: entries => (name, item.toJson) :: entriesToJson entries

def tablesToJson : List (List (String × Item)) → List Json
  | [] => []
  | entries :: list => .object (entriesToJson entries) :: tablesToJson list

end

mutual

def Value.toJson? : Value → Option Json
  | .scalar v => some v
  | .array items => (itemsToJson? items).map Json.array
  | .table fields => (fieldsToJson? [] fields).map fun entries => .object (entriesToJson entries)

def itemsToJson? : List Value → Option (List Json)
  | [] => some []
  | v :: vs => do
    let v ← v.toJson?
    let vs ← itemsToJson? vs
    return v :: vs

/-- Adds the fields of an inline table to the entries of those before them. -/
def fieldsToJson? (entries : Entries) : List (List String × Value) → Option Entries
  | [] => some entries
  | (path, v) :: fields => do
    let v ← v.toJson?
    let entries ← setAt v path entries
    fieldsToJson? entries fields

end

/-! ### Documents -/

/-- The table of a whole file so far, and the path of the table that is open in it. -/
structure Document where
  entries : Entries
  current : List String

def Document.add? (d : Document) : Statement → Option Document
  | .openTable path => (changeAt openTable path d.entries).map fun entries => ⟨entries, path⟩
  | .nextTable path => (changeAt nextTable path d.entries).map fun entries => ⟨entries, path⟩
  | .assign path value => do
    let v ← value.toJson?
    let entries ← changeOpen (setAt v path) d.current d.entries
    return { d with entries }

/-- The table that a text describes, if it is well formed. -/
def read? (s : String) : Option Json := do
  let statements ← statements? s.toList
  let document ← statements.foldlM Document.add? ⟨[], []⟩
  return .object (entriesToJson document.entries)

end TextDiagram.Toml
