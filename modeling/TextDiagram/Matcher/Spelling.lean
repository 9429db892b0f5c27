import TextDiagram.Matcher

/-!
# Spellings

An operator is looked up in a list of spellings. The list has longer spellings in front of the
shorter ones that they start with, so the longest spelling that fits is the one that is read.
-/

namespace TextDiagram

open Text

abbrev Spellings (β : Type) := List (String × β)

namespace Matcher

variable {β : Type}

def endsInName (spelling : String) : Bool :=
  spelling.toList.getLast?.any isNameChar

/-- One spelling of a list. With `wholeNames` a spelling that ends in a name character does not
fit in front of another name character. -/
def spelled? (wholeNames : Bool) (spelling : String) (s : List Char) : Option (List Char) :=
  (strip? spelling.toList s).filter fun rest =>
    !(wholeNames && endsInName spelling && startsInName rest)

def operator (table : Spellings β) (wholeNames : Bool) : Matcher β := fun s =>
  table.findSome? fun (spelling, value) =>
    (spelled? wholeNames spelling s).map fun rest => (value, rest)

end Matcher

end TextDiagram
