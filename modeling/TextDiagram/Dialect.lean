/-!
# Dialects

The three notations in which a diagram can be written, in order of priority.
-/

namespace TextDiagram

inductive Dialect where
  | flow
  | sequence
  | classes
  deriving DecidableEq, Repr

namespace Dialect

/-- A dialect that comes earlier wins over a later one. -/
def all : List Dialect :=
  [flow, sequence, classes]

def name : Dialect → String
  | flow => "flow"
  | sequence => "sequence"
  | classes => "class"

/-- The word that opens a diagram of the dialect. -/
def header : Dialect → String
  | flow => "flowchart"
  | sequence => "sequenceDiagram"
  | classes => "classDiagram"

def ofName? (s : String) : Option Dialect :=
  all.find? fun d => d.name == s

/-- A dialect may be called by its name or by its header. -/
def ofWord? (s : String) : Option Dialect :=
  all.find? fun d => d.name == s || d.header == s

def priority (d : Dialect) : Nat :=
  all.idxOf d

@[simp] theorem ofName?_name (d : Dialect) : ofName? d.name = some d := by
  cases d <;> decide

@[simp] theorem ofWord?_name (d : Dialect) : ofWord? d.name = some d := by
  cases d <;> decide

@[simp] theorem ofWord?_header (d : Dialect) : ofWord? d.header = some d := by
  cases d <;> decide

theorem mem_all (d : Dialect) : d ∈ all := by
  cases d <;> decide

end Dialect

end TextDiagram
