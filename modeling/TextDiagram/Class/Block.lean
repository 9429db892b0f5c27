import TextDiagram.Text.Line

/-!
# Blocks of a class diagram

A line that starts with the word `class` and ends in an opening brace begins a block. The block
goes on to the first line that starts with a closing brace, or else to the end of the diagram, and
is one statement. Every other line is a statement of its own.
-/

namespace TextDiagram.Class

open Text

def opensBlock (line : List Char) : Bool :=
  line.getLast? == some '\x7b' && firstWord line == "class".toList

def closesBlock (line : List Char) : Bool :=
  line.head? == some '\x7d'

/-- Divides lines into blocks and single lines. The lines of a block that is still open are given
in reverse order. -/
def group (openBlock : List (List Char)) : List (List Char) → List (List (List Char))
  | [] => if openBlock.isEmpty then [] else [openBlock.reverse]
  | line :: lines =>
    if openBlock.isEmpty then
      if opensBlock line then group [line] lines else [line] :: group [] lines
    else if closesBlock line then (line :: openBlock).reverse :: group [] lines
    else group (line :: openBlock) lines

def joinLines (lines : List (List Char)) : List Char :=
  ['\n'].intercalate lines

def statements (source : List Char) : List (List Char) :=
  (group [] (meaningfulLines source)).map joinLines

end TextDiagram.Class
