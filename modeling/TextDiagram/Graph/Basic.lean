import TextDiagram.Graph.Kind

/-!
# Graphs

A graph is a list of nodes and a list of edges, both in the order in which they were found. Nodes
of a class diagram carry members and a stereotype, notes the ids of the roles that they belong to.
-/

namespace TextDiagram

/-- An attribute or a method of a class, without its sigil. -/
structure Member where
  name : String
  visibility : Visibility
  deriving DecidableEq, Repr

structure Node where
  id : String
  label : String
  kind : NodeKind
  attributes : List Member := []
  methods : List Member := []
  stereotype : Option String := none
  participants : List String := []
  deriving DecidableEq, Repr

namespace Node

/-- A node that is shown by its id. -/
def unlabeled (id : String) (kind : NodeKind) : Node :=
  { id, label := id, kind }

def setLabel (n : Node) (label : String) : Node :=
  { n with label }

def setStereotype (n : Node) (text : String) : Node :=
  { n with stereotype := some text }

def addAttribute (n : Node) (m : Member) : Node :=
  { n with attributes := n.attributes ++ [m] }

def addMethod (n : Node) (m : Member) : Node :=
  { n with methods := n.methods ++ [m] }

end Node

structure Edge where
  source : String
  target : String
  kind : EdgeKind
  label : Option String := none
  deriving DecidableEq, Repr

namespace Edge

/-- The two nodes that an edge joins, in its direction. -/
def ends (e : Edge) : String × String :=
  (e.source, e.target)

def setLabel (e : Edge) (label : String) : Edge :=
  { e with label := some label }

def connects (e : Edge) (source target : String) : Bool :=
  e.source == source && e.target == target

theorem connects_iff {e : Edge} {source target : String} :
    e.connects source target = true ↔ e.ends = (source, target) := by
  simp [connects, ends]

@[simp] theorem ends_setLabel (e : Edge) (label : String) : (e.setLabel label).ends = e.ends :=
  rfl

end Edge

structure Graph where
  nodes : List Node
  edges : List Edge
  deriving DecidableEq, Repr

namespace Graph

def empty : Graph := ⟨[], []⟩

def isEmpty (g : Graph) : Bool :=
  g.nodes.isEmpty && g.edges.isEmpty

theorem isEmpty_iff {g : Graph} : g.isEmpty = true ↔ g = empty := by
  obtain ⟨nodes, edges⟩ := g
  simp [isEmpty, empty]

/-- The first node with the given id. -/
def node? (g : Graph) (id : String) : Option Node :=
  g.nodes.find? fun n => n.id == id

def edgesBetween (g : Graph) (source target : String) : List Edge :=
  g.edges.filter fun e => e.connects source target

end Graph

end TextDiagram
