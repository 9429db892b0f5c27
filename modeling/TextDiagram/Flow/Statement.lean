import TextDiagram.Text.Line

/-!
# Statements of a flowchart

A line of a flowchart holds one or more statements with semicolons between them. A semicolon
inside brackets or double quotes belongs to its statement.
-/

namespace TextDiagram.Flow

open Text

/-- What is open where a line has been read up to: brackets, or double quotes. -/
structure Nesting where
  depth : Nat
  inQuotes : Bool
  deriving DecidableEq, Repr

namespace Nesting

def outside : Nesting := ⟨0, false⟩

/-- Inside quotes brackets count for nothing, and outside of brackets none can be closed. -/
def step (n : Nesting) (c : Char) : Nesting :=
  if n.inQuotes then if c = '"' then { n with inQuotes := false } else n
  else if c = '"' then { n with inQuotes := true }
  else if c ∈ ['[', '(', '\x7b'] then { n with depth := n.depth + 1 }
  else if c ∈ [']', ')', '\x7d'] then { n with depth := n.depth - 1 }
  else n

/-- Whether a statement ends in front of the character. -/
def separates (n : Nesting) (c : Char) : Bool :=
  c == ';' && n == outside

end Nesting

/-- The segments between the semicolons that separate statements. -/
def segments (n : Nesting) (segment : List Char) : List Char → List (List Char)
  | [] => [segment.reverse]
  | c :: s =>
    if n.separates c then segment.reverse :: segments .outside [] s
    else segments (n.step c) (c :: segment) s

def splitStatements (line : List Char) : List (List Char) :=
  ((segments .outside [] line).map trim).filter fun statement => !statement.isEmpty

def statements (source : List Char) : List (List Char) :=
  (meaningfulLines source).flatMap splitStatements

end TextDiagram.Flow
