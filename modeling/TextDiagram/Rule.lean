import TextDiagram.Event
import TextDiagram.Matcher

/-!
# Rules

A dialect recognizes a statement by a list of named rules. The first rule that fits gives the
statement its meaning; a statement that no rule fits is skipped.
-/

namespace TextDiagram

structure Rule (α : Type) where
  name : String
  read? : List Char → Option α

namespace Rule

variable {α : Type}

/-- A rule for statements that start with one of the words. -/
def ofWords (name : String) (words : List String) (meaning : α) : Rule α where
  name
  read? s := (Matcher.anyWord? words s).map fun _ => meaning

/-- A rule that ignores what the matcher leaves. -/
def ofMatcher (name : String) (m : Matcher α) : Rule α where
  name
  read? s := (m s).map Prod.fst

/-- The name of the first rule that fits, and what it reads. -/
def recognize? (rules : List (Rule α)) (statement : List Char) : Option (String × α) :=
  rules.findSome? fun rule => (rule.read? statement).map fun a => (rule.name, a)

def meaning? (rules : List (Rule α)) (statement : List Char) : Option α :=
  (recognize? rules statement).map Prod.snd

def event (rules : List (Rule α)) (statement : List Char) : Event :=
  match recognize? rules statement with
  | some (name, _) => .statementRecognized name (String.ofList statement)
  | none => .statementSkipped (String.ofList statement)

end Rule

end TextDiagram
