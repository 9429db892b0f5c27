import TextDiagram.Assembly.Step
import TextDiagram.Sequence.Statement

/-!
# Reading a sequence diagram

Participants come first, then actors, then the roles that only messages name, and then the notes.
Each note is a node of its own, with an id that no role has.
-/

namespace TextDiagram.Sequence

namespace Fragment

def declaration? : Fragment → Option Declaration
  | declaration d => some d
  | _ => none

def message? : Fragment → Option Message
  | message m => some m
  | _ => none

def note? : Fragment → Option Note
  | note n => some n
  | _ => none

end Fragment

def Declaration.node (d : Declaration) : Node where
  id := d.id
  label := d.alias?.getD d.id
  kind := d.role.nodeKind

/-- The declarations of participants, and then those of actors. -/
def declarations (fragments : List Fragment) : List Declaration :=
  let all := fragments.filterMap Fragment.declaration?
  all.filter (fun d => d.role == .participant) ++ all.filter (fun d => d.role == .actor)

def messages (fragments : List Fragment) : List Message :=
  fragments.filterMap Fragment.message?

def notes (fragments : List Fragment) : List Note :=
  fragments.filterMap Fragment.note?

/-- The roles that are declared or named by a message. -/
def roles (fragments : List Fragment) : List String :=
  (declarations fragments).map Declaration.id ++
    (messages fragments).flatMap fun m => [m.left, m.right]

def Message.steps (m : Message) : List Step :=
  [.synthesize m.left .implicitParticipant, .synthesize m.right .implicitParticipant,
    .connect { source := m.sender, target := m.receiver, kind := m.arrow.kind, label := m.text }]

/-! ### Ids of notes -/

def noteId (n : Nat) : String :=
  "note_" ++ n.repr

/-- The first number from `n` on whose id is not taken. One of any `taken.length + 1` numbers in
a row is such a number. -/
def freeNumber (taken : List String) (n : Nat) : Nat :=
  ((List.range' n (taken.length + 1)).find? fun k => noteId k ∉ taken).getD n

/-- The notes with the numbers of their ids, which ascend from `n` on. -/
def numberNotes (taken : List String) (n : Nat) : List Note → List (Nat × Note)
  | [] => []
  | note :: notes =>
    let k := freeNumber taken n
    (k, note) :: numberNotes taken (k + 1) notes

def Note.node (id : String) (n : Note) : Node where
  id
  label := n.text
  kind := n.kind
  participants := n.roles

def steps (fragments : List Fragment) : List Step :=
  (declarations fragments).map (fun d => .declare d.node) ++
    (messages fragments).flatMap Message.steps ++
    (numberNotes (roles fragments) 0 (notes fragments)).map fun (k, note) =>
      .declare (note.node (noteId k))

end TextDiagram.Sequence
