import Mathlib.Data.List.Basic
import TextDiagram.Proofs.Declarations
import TextDiagram.Proofs.NoteIds
import TextDiagram.Proofs.Parse

/-!
# The graph of a sequence diagram

The four kinds of statements are read one after the other, wherever they stand in the text. So the
graph depends only on the participants, the actors, the messages and the notes, each in the order of
the text, and every role of a message has its node before the graph is closed.
-/

namespace TextDiagram.Sequence

/-- What a text says, sorted by kind, each kind in the order of the text. -/
@[ext]
structure Contents where
  participants : List Declaration
  actors : List Declaration
  messages : List Message
  notes : List Note
  role_of_mem_participants : ∀ d ∈ participants, d.role = .participant
  role_of_mem_actors : ∀ d ∈ actors, d.role = .actor

def declared (role : RoleKind) (fs : List Fragment) : List Declaration :=
  (fs.filterMap Fragment.declaration?).filter fun d => d.role = role

theorem role_of_mem_declared {role : RoleKind} {fs : List Fragment} {d : Declaration}
    (hd : d ∈ declared role fs) : d.role = role := by
  simpa using (List.mem_filter.mp hd).2

def contentsOf (fs : List Fragment) : Contents where
  participants := declared .participant fs
  actors := declared .actor fs
  messages := messages fs
  notes := notes fs
  role_of_mem_participants _ := role_of_mem_declared
  role_of_mem_actors _ := role_of_mem_declared

def contents (source : List Char) : Contents :=
  contentsOf ((statements source).filterMap (Rule.meaning? rules))

namespace Contents

def declarations (c : Contents) : List Declaration :=
  c.participants ++ c.actors

/-- The roles of the messages as they are written, whatever way the arrows point. -/
def messageRoles (c : Contents) : List String :=
  c.messages.flatMap fun m => [m.left, m.right]

def roles (c : Contents) : List String :=
  c.declarations.map Declaration.id ++ c.messageRoles

/-- The node of a declared role. -/
def roleNode (c : Contents) (kind : NodeKind) (id : String) : Node where
  id
  label := shownLabel id ((c.declarations.filter fun d => d.id = id).filterMap Declaration.alias?)
  kind

/-- The participants, then the actors that are no participants, then the roles that only messages
name, each once. -/
def roleNodes (c : Contents) : List Node :=
  (c.participants.map Declaration.id).eraseDups.map (c.roleNode .participant) ++
    ((c.actors.map Declaration.id).removeAll (c.participants.map Declaration.id)).eraseDups.map
      (c.roleNode .actor) ++
    (c.messageRoles.removeAll (c.declarations.map Declaration.id)).eraseDups.map
      fun id => Node.unlabeled id .implicitParticipant

/-- The graph that the contents describe: one edge for each message, one node for each role, and
one for each note, with an id of its own. -/
structure Describes (c : Contents) (g : Graph) : Prop where
  edges : g.edges = c.messages.map fun m =>
    { source := if m.arrow.reversed then m.right else m.left
      target := if m.arrow.reversed then m.left else m.right
      kind := m.arrow.kind
      label := m.text }
  nodes : ∃ noteIds : List String, noteIds.length = c.notes.length ∧ noteIds.Nodup ∧
    (∀ id ∈ noteIds, id ∉ c.roles) ∧
    g.nodes = c.roleNodes ++ List.zipWith Note.node noteIds c.notes

def declareSteps (c : Contents) : List Step :=
  (c.declarations.map Declaration.node).map Step.declare

def messageSteps (c : Contents) : List Step :=
  c.messages.flatMap Message.steps

def noteNodes (c : Contents) : List Node :=
  (numberNotes c.roles 0 c.notes).map fun p => p.2.node (noteId p.1)

def steps (c : Contents) : List Step :=
  c.declareSteps ++ c.messageSteps ++ c.noteNodes.map Step.declare

end Contents

/-- The steps do not depend on how the four kinds are mixed in the text. -/
theorem steps_eq (fs : List Fragment) : steps fs = (contentsOf fs).steps := by
  have hkind : ∀ role : RoleKind, (fun d : Declaration => d.role == role) =
      fun d => decide (d.role = role) := by
    intro role
    funext d
    exact beq_eq_decide d.role role
  have hdeclarations : declarations fs = (contentsOf fs).declarations := by
    simp only [declarations, hkind]
    rfl
  have hroles : roles fs = (contentsOf fs).roles := by
    rw [roles, hdeclarations]
    rfl
  simp only [steps, hdeclarations, hroles, Contents.steps, Contents.declareSteps,
    Contents.noteNodes, List.map_map]
  rfl

def Message.edge (m : Message) : Edge where
  source := m.sender
  target := m.receiver
  kind := m.arrow.kind
  label := m.text

theorem foldl_onEdges_messages (messages : List Message) (edges : List Edge) :
    (messages.flatMap Message.steps).foldl (fun edges step => step.onEdges edges) edges =
      edges ++ messages.map Message.edge := by
  induction messages generalizing edges with
  | nil => simp
  | cons m messages ih =>
      have hedge : m.steps.foldl (fun edges step => step.onEdges edges) edges =
          edges ++ [m.edge] := rfl
      rw [List.flatMap_cons, List.foldl_append, hedge, ih, List.append_assoc]
      rfl

/-! ### Declared roles -/

theorem joined_node {ds : List Declaration} {id : String} (hids : ∀ d ∈ ds, d.id = id)
    {first : Declaration} (hfirst : first.id = id) :
    first.node.joined (ds.map Declaration.node) =
      { id, label := shownLabel id (ds.filterMap Declaration.alias?),
        kind := first.role.nodeKind } := by
  have hlabel : ∀ d ∈ ds, d.node.label = d.alias?.getD first.node.id := by
    intro d hd
    have hid : first.node.id = d.id := hfirst.trans (hids d hd).symm
    rw [hid]
    rfl
  have hid : first.node.id = id := hfirst
  have hnone : ds.flatMap (fun _ => ([] : List Member)) = [] := by simp
  rw [Node.joined_map hlabel fun _ => rfl, hid]
  simp only [Declaration.node, hnone]

theorem nodeKind_isImplicit (role : RoleKind) : role.nodeKind.isImplicit = false := by
  cases role <;> rfl

namespace Contents

variable (c : Contents)

/-- The participants are declared before the actors. -/
theorem nodeKind_first {id : String} {first : Declaration}
    (hfirst : (c.declarations.find? fun d => d.id = id) = some first) :
    first.role.nodeKind =
      if id ∈ c.participants.map Declaration.id then .participant else .actor := by
  rw [declarations, List.find?_append] at hfirst
  cases hp : c.participants.find? fun d => d.id = id with
  | some p =>
      rw [hp, Option.some_or, Option.some.injEq] at hfirst
      have hmem := List.mem_of_find?_eq_some hp
      have hid : id ∈ c.participants.map Declaration.id :=
        List.mem_map.mpr ⟨p, hmem, by simpa using List.find?_some hp⟩
      rw [if_pos hid, ← hfirst, c.role_of_mem_participants p hmem]
      rfl
  | none =>
      rw [hp, Option.none_or] at hfirst
      have hid : id ∉ c.participants.map Declaration.id := by
        intro hid
        obtain ⟨d, hd, hdid⟩ := List.mem_map.mp hid
        have := List.find?_eq_none.mp hp d hd
        simp [hdid] at this
      rw [if_neg hid, c.role_of_mem_actors first (List.mem_of_find?_eq_some hfirst)]
      rfl

theorem get?_run_declareSteps {id : String} (hid : id ∈ c.declarations.map Declaration.id) :
    (Assembly.empty.run c.declareSteps).nodes.get? id = some (c.roleNode
      (if id ∈ c.participants.map Declaration.id then .participant else .actor) id) := by
  have hnone : Assembly.empty.nodes.get? id = none := rfl
  have hids : ∀ d ∈ c.declarations.filter (fun d => d.id = id), d.id = id := by
    intro d hd
    simpa using (List.mem_filter.mp hd).2
  obtain ⟨first, hfirst, hdeclared⟩ := Step.foldl_onNode_declare_of_mem
    Declaration.node Declaration.id (fun _ => rfl) (fun d => nodeKind_isImplicit d.role) hid
  have hfirstId : first.id = id := by simpa using List.find?_some hfirst
  rw [Assembly.get?_run, hnone, declareSteps, hdeclared, joined_node hids hfirstId,
    c.nodeKind_first hfirst]
  rfl

theorem keys_run_declareSteps :
    (Assembly.empty.run c.declareSteps).nodes.keys =
      (c.declarations.map Declaration.id).eraseDups := by
  have hids : c.declareSteps.filterMap Step.nodeId? = c.declarations.map Declaration.id := by
    simp [declareSteps, List.filterMap_map, Function.comp_def, Step.nodeId?, Declaration.node]
  rw [Assembly.keys_run_empty, hids]

/-- An id that is declared with both keywords is a participant, wherever it comes first. -/
theorem values_run_declareSteps :
    (Assembly.empty.run c.declareSteps).nodes.values =
      (c.participants.map Declaration.id).eraseDups.map (c.roleNode .participant) ++
        ((c.actors.map Declaration.id).removeAll
          (c.participants.map Declaration.id)).eraseDups.map (c.roleNode .actor) := by
  have hget : ∀ id ∈ (Assembly.empty.run c.declareSteps).nodes.keys,
      (Assembly.empty.run c.declareSteps).nodes.get? id = some (c.roleNode
        (if id ∈ c.participants.map Declaration.id then .participant else .actor) id) := by
    intro id hid
    rw [c.keys_run_declareSteps, List.mem_eraseDups] at hid
    exact c.get?_run_declareSteps hid
  rw [OrderedMap.values_eq_map (Assembly.coherent_run_empty _).keys_nodup hget,
    c.keys_run_declareSteps, declarations, List.map_append, List.eraseDups_append, List.map_append]
  congr 1
  · apply List.map_congr_left
    intro id hid
    rw [if_pos (List.mem_eraseDups.mp hid)]
  · apply List.map_congr_left
    intro id hid
    have hactor := (List.mem_filter.mp (List.mem_eraseDups.mp hid)).2
    rw [if_neg (by simpa using hactor)]

/-! ### Messages and notes -/

theorem filterMap_nodeId?_messageSteps :
    c.messageSteps.filterMap Step.nodeId? = c.messageRoles := by
  rw [messageSteps, List.filterMap_flatMap]
  rfl

theorem isReference_messageSteps : ∀ step ∈ c.messageSteps,
    step.IsReference .implicitParticipant := by
  intro step hstep
  obtain ⟨m, _, hm⟩ := List.mem_flatMap.mp hstep
  simp only [Message.steps, List.mem_cons, List.not_mem_nil, or_false] at hm
  rcases hm with rfl | rfl | rfl
  · rfl
  · rfl
  · trivial

theorem keys_run_roleSteps :
    (Assembly.empty.run (c.declareSteps ++ c.messageSteps)).nodes.keys = c.roles.eraseDups := by
  have hids := c.keys_run_declareSteps
  rw [Assembly.run_append, Assembly.keys_run, hids, c.filterMap_nodeId?_messageSteps,
    removeAll_eraseDups, roles, List.eraseDups_append]

/-- Every role has its node before the notes come. -/
theorem values_run_roleSteps :
    (Assembly.empty.run (c.declareSteps ++ c.messageSteps)).nodes.values = c.roleNodes := by
  rw [Assembly.run_append, Assembly.values_run_references _ c.isReference_messageSteps,
    c.values_run_declareSteps, c.keys_run_declareSteps, c.filterMap_nodeId?_messageSteps,
    removeAll_eraseDups]
  rfl

theorem noteNodes_eq_zipWith :
    c.noteNodes = List.zipWith Note.node
      ((numberNotes c.roles 0 c.notes).map fun p => noteId p.1) c.notes := by
  have hnotes := map_snd_numberNotes c.roles 0 c.notes
  rw [noteNodes]
  generalize numberNotes c.roles 0 c.notes = numbered at hnotes ⊢
  rw [← hnotes, List.zipWith_map, List.zipWith_self]

theorem nodup_ids_noteNodes : (c.noteNodes.map Node.id).Nodup := by
  have hids : c.noteNodes.map Node.id =
      (numberNotes c.roles 0 c.notes).map fun p => noteId p.1 := by
    rw [noteNodes, List.map_map]
    rfl
  rw [hids]
  exact nodup_noteIds c.roles 0 c.notes

theorem notMem_keys_of_mem_noteNodes : ∀ n ∈ c.noteNodes,
    n.id ∉ (Assembly.empty.run (c.declareSteps ++ c.messageSteps)).nodes.keys := by
  intro n hn
  obtain ⟨p, hp, rfl⟩ := List.mem_map.mp hn
  rw [c.keys_run_roleSteps, List.mem_eraseDups]
  exact (mem_numberNotes hp).2

theorem values_run_steps :
    (Assembly.empty.run c.steps).nodes.values = c.roleNodes ++ c.noteNodes := by
  rw [steps, Assembly.run_append, Assembly.values_run_declare_fresh _ c.nodup_ids_noteNodes
    c.notMem_keys_of_mem_noteNodes, c.values_run_roleSteps]

theorem edges_run_steps : (Assembly.empty.run c.steps).edges = c.messages.map Message.edge := by
  have hnone : Assembly.empty.edges = [] := rfl
  rw [Assembly.edges_run Assembly.coherent_empty, steps, List.foldl_append, List.foldl_append,
    Step.foldl_onEdges_declare, declareSteps, Step.foldl_onEdges_declare, messageSteps,
    foldl_onEdges_messages, hnone, List.nil_append]

/-- The ends of the edges are roles of messages, and these have nodes. -/
theorem removeAll_endpoints :
    (Assembly.empty.run c.steps).endpoints.removeAll (Assembly.empty.run c.steps).nodes.keys =
      [] := by
  rw [List.removeAll, List.filter_eq_nil_iff]
  intro id hid
  have hrole : id ∈ c.messageRoles := by
    rw [Assembly.endpoints, c.edges_run_steps, List.flatMap_map] at hid
    obtain ⟨m, hm, hid⟩ := List.mem_flatMap.mp hid
    refine List.mem_flatMap.mpr ⟨m, hm, ?_⟩
    cases hreversed : m.arrow.reversed <;>
      simp [Message.edge, Message.sender, Message.receiver, hreversed] at hid ⊢ <;> tauto
  have hkey : id ∈ (Assembly.empty.run c.steps).nodes.keys := by
    rw [Assembly.keys_run_empty, List.mem_eraseDups, steps, List.filterMap_append,
      List.filterMap_append, c.filterMap_nodeId?_messageSteps]
    simp [hrole]
  simp [hkey]

theorem describes_run_steps : c.Describes (Assembly.empty.run c.steps).toGraph where
  edges := c.edges_run_steps
  nodes := by
    refine ⟨(numberNotes c.roles 0 c.notes).map fun p => noteId p.1, ?_, ?_, ?_, ?_⟩
    · rw [List.length_map, ← List.length_map Prod.snd, map_snd_numberNotes]
    · exact nodup_noteIds c.roles 0 c.notes
    · intro id hid
      obtain ⟨p, hp, rfl⟩ := List.mem_map.mp hid
      exact (mem_numberNotes hp).2
    · rw [← c.noteNodes_eq_zipWith]
      exact c.values_run_steps

end Contents

theorem scan_eq_run (source : List Char) :
    Dialect.sequence.scan source = Assembly.empty.run (contents source).steps := by
  rw [contents, ← steps_eq]
  rfl

/-- A text that is parsed as a sequence diagram has the graph that its contents describe. Closing
adds nothing to it, and texts with the same contents have the same graph. -/
theorem parse_describes_contents {p : Parser} {source : String}
    (h : p.dialectOf? source = some .sequence) :
    (contents source.toList).Describes (p.parse source) ∧
      p.parse source = (Dialect.sequence.scan source.toList).toGraph ∧
      ∀ (q : Parser) (other : String), q.dialectOf? other = some .sequence →
        contents other.toList = contents source.toList → q.parse other = p.parse source := by
  have hscan : ∀ text : List Char,
      Dialect.sequence.scan text = Assembly.empty.run (contents text).steps := by
    intro text
    rw [contents, ← steps_eq]
    rfl
  have hclosed : ∀ {q : Parser} {text : String}, q.dialectOf? text = some .sequence →
      q.parse text = (Assembly.empty.run (contents text.toList).steps).toGraph := by
    intro q text hq
    rw [Parser.parse_eq_graph hq, ← hscan]
    apply Dialect.graph_eq_toGraph
    rw [hscan]
    exact (contents text.toList).removeAll_endpoints
  refine ⟨?_, ?_, ?_⟩
  · rw [hclosed h]
    exact (contents source.toList).describes_run_steps
  · rw [hclosed h, hscan]
  · intro q other hq hcontents
    rw [hclosed hq, hclosed h, hcontents]

/-- The same statements in two orders. -/
theorem parse_describes_contents_reordered :
    (contents "sequenceDiagram\nactor A\nNote over A: x\nA <- B".toList).Describes
        (Parser.detecting.parse "sequenceDiagram\nactor A\nNote over A: x\nA <- B") ∧
      Parser.detecting.parse "sequenceDiagram\nA <- B\nNote over A: x\nactor A" =
        Parser.detecting.parse "sequenceDiagram\nactor A\nNote over A: x\nA <- B" := by
  have hfirst : Parser.detecting.dialectOf?
      "sequenceDiagram\nactor A\nNote over A: x\nA <- B" = some .sequence := by decide +kernel
  have hsecond : Parser.detecting.dialectOf?
      "sequenceDiagram\nA <- B\nNote over A: x\nactor A" = some .sequence := by decide +kernel
  obtain ⟨hdescribes, _, hsame⟩ := parse_describes_contents hfirst
  refine ⟨hdescribes, hsame _ _ hsecond ?_⟩
  ext1
  · decide +kernel
  · decide +kernel
  · decide +kernel
  · decide +kernel

end TextDiagram.Sequence
