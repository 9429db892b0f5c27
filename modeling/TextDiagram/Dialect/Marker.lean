import TextDiagram.Dialect
import TextDiagram.Text.Cut

/-!
# Detecting the dialect

Each dialect has markers. A text is of the first dialect, in order of priority, of which a marker
occurs anywhere in the text.
-/

namespace TextDiagram.Dialect

open Text

def markers : Dialect → List String
  | flow => ["flowchart", "graph TD", "graph TB", "graph BT", "graph LR", "graph RL"]
  | sequence => ["sequenceDiagram"]
  | classes => ["classDiagram"]

/-- The first marker of the dialect, in the order of its list, that occurs in the text. -/
def marker? (d : Dialect) (source : List Char) : Option String :=
  d.markers.find? fun m => occurs m.toList source

/-- The dialect of a text and the marker that gives it away. -/
def find? (source : List Char) : Option (Dialect × String) :=
  all.findSome? fun d => (d.marker? source).map fun m => (d, m)

def detect? (source : List Char) : Option Dialect :=
  (find? source).map Prod.fst

theorem marker?_isSome_iff {d : Dialect} {source : List Char} :
    (d.marker? source).isSome = true ↔ ∃ m ∈ d.markers, occurs m.toList source = true := by
  simp [marker?]

theorem detect?_eq_find?_marker? (source : List Char) :
    detect? source = all.find? fun d => (d.marker? source).isSome := by
  simp only [detect?, find?, all, List.findSome?, List.find?]
  cases h₁ : flow.marker? source <;> cases h₂ : sequence.marker? source <;>
    cases h₃ : classes.marker? source <;> simp

/-- The words that open a diagram of some dialect. -/
def headerWords : List String :=
  ["flowchart", "graph", "sequenceDiagram", "classDiagram", "classDiagram-v2"]

end TextDiagram.Dialect
