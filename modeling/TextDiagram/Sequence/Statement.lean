import TextDiagram.Dialect.Marker
import TextDiagram.Graph.Kind
import TextDiagram.Matcher.Spelling
import TextDiagram.Rule

/-!
# Statements of a sequence diagram

A line declares a role, sends a message from one role to another, or puts a note beside one role or
over two.
-/

namespace TextDiagram.Sequence

open Text Matcher

/-- How a role is declared. -/
inductive RoleKind where
  | participant
  | actor
  deriving DecidableEq, Repr

namespace RoleKind

def keyword : RoleKind → String
  | participant => "participant"
  | actor => "actor"

def nodeKind : RoleKind → NodeKind
  | participant => .participant
  | actor => .actor

end RoleKind

structure Declaration where
  role : RoleKind
  id : String
  /-- The name that is shown for the role. -/
  alias? : Option String
  deriving DecidableEq, Repr

structure MessageArrow where
  kind : EdgeKind
  /-- The arrow points from the right-hand role to the left-hand role. -/
  reversed : Bool
  deriving DecidableEq, Repr

structure Message where
  left : String
  arrow : MessageArrow
  right : String
  text : Option String
  deriving DecidableEq, Repr

namespace Message

def sender (m : Message) : String :=
  if m.arrow.reversed then m.right else m.left

def receiver (m : Message) : String :=
  if m.arrow.reversed then m.left else m.right

end Message

structure Note where
  role : String
  secondRole : Option String
  text : String
  deriving DecidableEq, Repr

namespace Note

def roles (n : Note) : List String :=
  n.role :: n.secondRole.toList

def kind (n : Note) : NodeKind :=
  if n.secondRole.isSome then .noteBetween else .noteOver

end Note

inductive Fragment where
  /-- A header or a directive. -/
  | directive
  | declaration (declaration : Declaration)
  | message (message : Message)
  | note (note : Note)
  deriving DecidableEq, Repr

/-! ### Reading a statement -/

/-- Two chevrons or a parenthesis make a message asynchronous, a cross makes it lost. -/
def messageArrows : Spellings MessageArrow :=
  [("-->>", ⟨.async, false⟩), ("==>>", ⟨.async, false⟩), ("<<--", ⟨.async, true⟩),
    ("->>", ⟨.async, false⟩), ("-->", ⟨.sync, false⟩), ("==>", ⟨.sync, false⟩),
    ("--x", ⟨.lost, false⟩), ("--X", ⟨.lost, false⟩), ("--)", ⟨.async, false⟩),
    ("x-x", ⟨.lost, false⟩), ("<<-", ⟨.async, true⟩), ("<--", ⟨.sync, true⟩),
    ("->", ⟨.sync, false⟩), ("-x", ⟨.lost, false⟩), ("-X", ⟨.lost, false⟩),
    ("-)", ⟨.async, false⟩), ("<-", ⟨.sync, true⟩)]

/-- The text after the word `as`. -/
def aliasClause : Matcher (List Char) := fun s => do
  let s ← gap? s
  let s ← word? "as" s
  let s ← gap? s
  return (s, [])

def declaration (role : RoleKind) : Matcher Declaration := fun s => do
  let s ← word? role.keyword s
  let s ← gap? s
  let (id, s) ← name s
  let (shown, s) := optional aliasClause s
  return (⟨role, id, shown.bind unquotedText?⟩, s)

/-- Where a note stands: over roles, or at one side of a role. -/
def notePlace? (s : List Char) : Option (List Char) :=
  match word? "over" s, beside? "left" s, beside? "right" s with
  | some rest, _, _ => some rest
  | none, some rest, _ => some rest
  | none, none, rest => rest
where
  beside? (side : String) (s : List Char) : Option (List Char) := do
    let s ← strip? side.toList s
    let s ← gap? s
    strip? "of".toList s

def secondRole : Matcher String := fun s => do
  let s ← strip? [','] (skipGap s)
  name (skipGap s)

def noteWords : List String :=
  ["Note", "note", "NOTE"]

def note : Matcher Note := fun s => do
  let s ← anyWord? noteWords s
  let s ← gap? s
  let s ← notePlace? s
  let s ← gap? s
  let (role, s) ← name s
  let (second, s) := optional secondRole s
  let text ← afterColon? s
  return (⟨role, second, restText text⟩, [])

/-- The mark behind an arrow that activates or deactivates the receiver. -/
def skipActivation : List Char → List Char
  | [] => []
  | c :: s => if c = '+' ∨ c = '-' then s else c :: s

def message : Matcher Message := fun s => do
  let (left, s) ← name s
  let (arrow, s) ← operator messageArrows false (skipGap s)
  let (right, s) ← name (skipGap (skipActivation s))
  return (⟨left, arrow, right, colonText s⟩, [])

def directiveWords : List String :=
  ["autonumber", "activate", "deactivate", "loop", "alt", "else", "opt", "par", "and", "critical",
    "break", "rect", "end", "title", "box", "create", "destroy", "link", "links"]

def declarationRule (role : RoleKind) : Rule Fragment :=
  .ofMatcher role.keyword fun s =>
    (declaration role s).map fun (d, rest) => (.declaration d, rest)

def rules : List (Rule Fragment) :=
  [.ofWords "header" Dialect.headerWords .directive,
    declarationRule .participant,
    declarationRule .actor,
    .ofMatcher "note" fun s => (note s).map fun (n, rest) => (.note n, rest),
    .ofMatcher "message" fun s => (message s).map fun (m, rest) => (.message m, rest),
    .ofWords "directive" directiveWords .directive]

/-- Each line is a statement of its own. -/
def statements (source : List Char) : List (List Char) :=
  meaningfulLines source

end TextDiagram.Sequence
