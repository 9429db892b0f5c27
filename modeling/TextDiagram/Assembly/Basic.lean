import TextDiagram.Assembly.Step
import TextDiagram.Event
import TextDiagram.OrderedMap

/-!
# Assembling a graph

An assembly keeps one node for each id and remembers, for each pair of nodes, the first edge that
joins them. It is closed by adding a node for each endpoint of an edge that has none.
-/

namespace TextDiagram

namespace Node

/-- What becomes of a node when its id is declared again. A node that stood for a reference gives
way to the declaration. Any other node keeps its kind and takes over the label, if it is not just
the id, the members and the stereotype. -/
def redeclare (n new : Node) : Node :=
  if n.kind.isImplicit && !new.kind.isImplicit then new
  else
    { n with
      label := if new.label = new.id then n.label else new.label
      attributes := n.attributes ++ new.attributes
      methods := n.methods ++ new.methods
      stereotype := new.stereotype.or n.stereotype }

end Node

structure Assembly where
  nodes : OrderedMap String Node
  edges : List Edge
  /-- The place of the first edge between two nodes. -/
  firstEdge : OrderedMap (String × String) Nat
  deriving DecidableEq, Repr

namespace Assembly

def empty : Assembly := ⟨.empty, [], .empty⟩

def isEmpty (a : Assembly) : Bool :=
  a.nodes.entries.isEmpty && a.edges.isEmpty

def declare (a : Assembly) (n : Node) : Assembly :=
  if a.nodes.contains n.id then { a with nodes := a.nodes.modify n.id fun old => old.redeclare n }
  else { a with nodes := a.nodes.insertNew n.id n }

/-- Adds a node without a label, and answers whether it did: an id that is known keeps its node. -/
def synthesize (a : Assembly) (id : String) (kind : NodeKind) : Bool × Assembly :=
  (!a.nodes.contains id, { a with nodes := a.nodes.insertNew id (.unlabeled id kind) })

def connect (a : Assembly) (e : Edge) : Assembly :=
  { a with
    edges := a.edges ++ [e]
    firstEdge := a.firstEdge.insertNew e.ends a.edges.length }

/-- Labels the first edge between two nodes, or else adds a labeled edge, and answers whether there
was an edge. -/
def label (a : Assembly) (source target text : String) (kind : EdgeKind) : Bool × Assembly :=
  match a.firstEdge.get? (source, target) with
  | some i => (true, { a with edges := a.edges.modify i fun e => e.setLabel text })
  | none => (false, a.connect { source, target, kind, label := some text })

def isClass (a : Assembly) (id : String) : Bool :=
  (a.nodes.get? id).any fun n => n.kind == .classifier

def stereotype (a : Assembly) (id text : String) : Assembly :=
  if a.isClass id then { a with nodes := a.nodes.modify id fun n => n.setStereotype text } else a

def apply (a : Assembly) : Step → Assembly
  | .declare node => a.declare node
  | .synthesize id kind => (a.synthesize id kind).2
  | .connect edge => a.connect edge
  | .label source target text kind => (a.label source target text kind).2
  | .stereotype id text => a.stereotype id text

/-- What the log says about a step. Of a node that was to be added and of a label it tells what was
answered. -/
def event? (a : Assembly) : Step → Option Event
  | .declare node => if a.nodes.contains node.id then some (.nodeAugmented node.id) else none
  | .synthesize id kind =>
    if (a.synthesize id kind).1 then some (.nodeSynthesized id kind) else none
  | .connect _ => none
  | .label source target text kind =>
    if (a.label source target text kind).1 then some (.labelMerged source target text) else none
  | .stereotype id text => if a.isClass id then none else some (.stereotypeDropped id text)

def run (a : Assembly) (steps : List Step) : Assembly :=
  steps.foldl apply a

def events (a : Assembly) : List Step → List Event
  | [] => []
  | step :: steps => (a.event? step).toList ++ (a.apply step).events steps

@[simp] theorem run_nil (a : Assembly) : a.run [] = a := rfl

@[simp] theorem run_cons (a : Assembly) (step : Step) (steps : List Step) :
    a.run (step :: steps) = (a.apply step).run steps := rfl

theorem run_append (a : Assembly) (xs ys : List Step) : a.run (xs ++ ys) = (a.run xs).run ys :=
  List.foldl_append

theorem events_append (a : Assembly) (xs ys : List Step) :
    a.events (xs ++ ys) = a.events xs ++ (a.run xs).events ys := by
  induction xs generalizing a with
  | nil => rfl
  | cons step xs ih => simp [events, ih]

/-- The endpoints of all edges, the source of an edge before its target. -/
def endpoints (a : Assembly) : List String :=
  a.edges.flatMap fun e => [e.source, e.target]

/-- The steps that give each endpoint a node. -/
def closing (a : Assembly) (kind : NodeKind) : List Step :=
  a.endpoints.map fun id => .synthesize id kind

def close (a : Assembly) (kind : NodeKind) : Assembly :=
  a.run (a.closing kind)

def toGraph (a : Assembly) : Graph :=
  ⟨a.nodes.values, a.edges⟩

end Assembly

end TextDiagram
