import TextDiagram.Graph.Basic
import TextDiagram.Matcher

/-!
# Members of a class

A line of a class body is a stereotype, or else a member: a method if it holds an opening
parenthesis, an attribute if not. A sigil in front of a member sets its visibility.
-/

namespace TextDiagram.Class

open Text Matcher

inductive BodyItem where
  | field (member : Member)
  | method (member : Member)
  | stereotype (text : String)
  deriving DecidableEq, Repr

namespace BodyItem

def ofMember (m : Member) : BodyItem :=
  if '(' ∈ m.name.toList then method m else field m

/-- The visibility that the line starts with, and the text behind its sigil. -/
def splitSigil : List Char → Visibility × List Char
  | [] => (.pub, [])
  | c :: s =>
    match Visibility.ofSigil? c with
    | some v => (v, trim s)
    | none => (.pub, c :: s)

/-- A line that is nothing but a stereotype. -/
def stereotype? (line : List Char) : Option String :=
  ((Matcher.stereotype line).filter fun (_, rest) => (trim rest).isEmpty).map Prod.fst

/-- A line without a name is no item. -/
def member? (line : List Char) : Option BodyItem :=
  let (visibility, name) := splitSigil line
  if name.isEmpty then none else some (ofMember ⟨String.ofList name, visibility⟩)

def ofLine? (line : List Char) : Option BodyItem :=
  match stereotype? (trim line) with
  | some text => some (stereotype text)
  | none => member? (trim line)

end BodyItem

/-- The items of a body, one a line. -/
def bodyItems (body : List Char) : List BodyItem :=
  (lines body).filterMap BodyItem.ofLine?

end TextDiagram.Class
