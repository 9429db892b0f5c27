import TextDiagram.Text.Blank
import TextDiagram.Text.Cut

/-!
# Lines

A diagram is written in lines. The lines that count are trimmed, hold at least one character that
is not blank, and are not comments.
-/

namespace TextDiagram.Text

/-- A line that starts with this mark is a comment. -/
def commentMark : List Char := "%%".toList

def lines (s : List Char) : List (List Char) :=
  s.splitOn '\n'

def isComment (line : List Char) : Bool :=
  (strip? commentMark line).isSome

def meaningfulLines (s : List Char) : List (List Char) :=
  ((lines s).map trim).filter fun line => !line.isEmpty && !isComment line

end TextDiagram.Text
