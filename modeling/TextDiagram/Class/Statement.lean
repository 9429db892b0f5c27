import TextDiagram.Class.Block
import TextDiagram.Class.Body
import TextDiagram.Dialect.Marker
import TextDiagram.Matcher.Spelling
import TextDiagram.Rule

/-!
# Statements of a class diagram

A statement declares a class, relates two classes, adds one member to a class, or gives a
class a stereotype.
-/

namespace TextDiagram.Class

open Text Matcher

structure Declaration where
  id : String
  label : Option String
  stereotype : Option String
  body : List BodyItem
  deriving DecidableEq, Repr

structure Operator where
  kind : EdgeKind
  /-- The decorated end stands on the left; an edge has it at its target. -/
  swap : Bool
  deriving DecidableEq, Repr

structure Relation where
  left : String
  operator : Operator
  right : String
  label : Option String
  deriving DecidableEq, Repr

namespace Relation

def source (r : Relation) : String :=
  if r.operator.swap then r.right else r.left

def target (r : Relation) : String :=
  if r.operator.swap then r.left else r.right

end Relation

inductive Fragment where
  /-- A header or a directive. -/
  | directive
  | declaration (declaration : Declaration)
  | stereotyped (id text : String)
  | relation (relation : Relation)
  | member (id : String) (item : BodyItem)
  deriving DecidableEq, Repr

/-! ### Reading a statement -/

def operators : Spellings Operator :=
  [("<|--", ⟨.inheritance, true⟩), ("--|>", ⟨.inheritance, false⟩),
    ("<|..", ⟨.realization, true⟩), ("..|>", ⟨.realization, false⟩),
    ("*--", ⟨.composition, true⟩), ("--*", ⟨.composition, false⟩),
    ("o--", ⟨.aggregation, true⟩), ("--o", ⟨.aggregation, false⟩),
    ("<..", ⟨.dependency, true⟩), ("..>", ⟨.dependency, false⟩),
    ("<--", ⟨.dependency, true⟩), ("-->", ⟨.association, false⟩),
    ("--", ⟨.association, false⟩), ("..", ⟨.dotted, false⟩)]

/-- The parameters of a class, which have no meaning. -/
def parameters : Matcher (List Char) :=
  between "~" "~"

def gapStereotype : Matcher String := fun s =>
  stereotype (skipGap s)

/-- The text behind an opening brace, up to the first closing brace if there is one. -/
def body : Matcher (List Char) := fun s =>
  (strip? ['\x7b'] (skipGap s)).map fun s =>
    let inside := fun c : Char => c != '\x7d'
    (s.takeWhile inside, (s.dropWhile inside).drop 1)

def declaration : Matcher Declaration := fun s => do
  let s ← word? "class" s
  let s ← gap? s
  let (id, s) ← name s
  let (_, s) := optional parameters s
  let (label, s) := optional (between "[" "]") s
  let (stereotype, s) := optional gapStereotype s
  let (body, s) := optional body s
  return (⟨id, label.bind unquotedText?, stereotype, bodyItems (body.getD [])⟩, s)

def stereotyped : Matcher (String × String) := fun s => do
  let (text, s) ← stereotype s
  let (id, s) ← name (skipGap s)
  return ((id, text), s)

/-- The cardinality beside an operator, which has no meaning. -/
def cardinality : Matcher (List Char) := fun s =>
  quoted (skipGap s)

def relation : Matcher Relation := fun s => do
  let (left, s) ← name s
  let (_, s) := optional cardinality s
  let (operator, s) ← operator operators true (skipGap s)
  let (_, s) := optional cardinality s
  let (right, s) ← name (skipGap s)
  return (⟨left, operator, right, colonText s⟩, [])

def member : Matcher (String × BodyItem) := fun s => do
  let (id, s) ← name s
  let text ← afterColon? s
  let item ← BodyItem.ofLine? text
  return ((id, item), [])

def directiveWords : List String :=
  ["direction", "note", "namespace", "\x7d", "classDef", "style", "cssClass", "click", "link",
    "callback"]

def rules : List (Rule Fragment) :=
  [.ofWords "header" Dialect.headerWords .directive,
    .ofMatcher "class" fun s => (declaration s).map fun (d, rest) => (.declaration d, rest),
    .ofMatcher "annotation" fun s =>
      (stereotyped s).map fun ((id, text), rest) => (.stereotyped id text, rest),
    .ofMatcher "relation" fun s => (relation s).map fun (r, rest) => (.relation r, rest),
    .ofMatcher "member" fun s => (member s).map fun ((id, item), rest) => (.member id item, rest),
    .ofWords "directive" directiveWords .directive]

end TextDiagram.Class
