import TextDiagram.Graph.Basic

/-!
# Wire graphs

The simplified graph that is handed on to be laid out: ids, labels and ends, but no kinds. Each
node may be given a position.
-/

namespace TextDiagram.Wire

structure Position where
  x : Float
  y : Float
  z : Float
  deriving Repr

structure Node where
  id : String
  label : String
  position : Option Position := none
  deriving Repr

structure Edge where
  source : String
  target : String
  label : Option String := none
  deriving DecidableEq, Repr

structure Graph where
  nodes : List Node
  edges : List Edge
  deriving Repr

def Node.ofNode (n : TextDiagram.Node) : Node where
  id := n.id
  label := n.label

def Node.moveTo (n : Node) (position : Position) : Node :=
  { n with position := some position }

/-- An empty label counts as none. -/
def Edge.ofEdge (e : TextDiagram.Edge) : Edge where
  source := e.source
  target := e.target
  label := e.label.filter fun label => !label.isEmpty

namespace Graph

def empty : Graph := ⟨[], []⟩

def ofGraph (g : TextDiagram.Graph) : Graph :=
  ⟨g.nodes.map Node.ofNode, g.edges.map Edge.ofEdge⟩

def hasNode (g : Graph) (id : String) : Bool :=
  g.nodes.any fun n => n.id == id

/-- Moves the first node with the id, and answers whether there is one. -/
def placeFirst (id : String) (position : Position) : List Node → Bool × List Node
  | [] => (false, [])
  | n :: nodes =>
    if n.id = id then (true, n.moveTo position :: nodes)
    else
      let (placed, nodes) := placeFirst id position nodes
      (placed, n :: nodes)

def placeNode (g : Graph) (id : String) (position : Position) : Bool × Graph :=
  let (placed, nodes) := placeFirst id position g.nodes
  (placed, { g with nodes })

/-- The graph that is left when a node has been placed. -/
def place (g : Graph) (id : String) (position : Position) : Graph :=
  (g.placeNode id position).2

end Graph

end TextDiagram.Wire
