import TextDiagram.Assembly.Step
import TextDiagram.Dialect.Marker
import TextDiagram.Flow.Chain
import TextDiagram.Flow.Statement
import TextDiagram.Rule

/-!
# Reading a flowchart

The statements of a flowchart that count are its chains. All labeled nodes are declared first, then
the links without a label are connected, and at last each label is put on a link.
-/

namespace TextDiagram.Flow

inductive Fragment where
  /-- A header or a directive. -/
  | directive
  | chain (chain : Chain)
  deriving DecidableEq, Repr

def directiveWords : List String :=
  ["subgraph", "end", "direction", "style", "classDef", "class", "linkStyle", "click"]

def rules : List (Rule Fragment) :=
  [.ofWords "header" Dialect.headerWords .directive,
    .ofWords "directive" directiveWords .directive,
    .ofMatcher "chain" fun s => (chain s).map fun (c, rest) => (.chain c, rest)]

def Fragment.chain? : Fragment → Option Chain
  | directive => none
  | chain c => some c

def declareNode? (n : NodeRef) : Option Step :=
  n.label.map fun label => .declare { id := n.id, label, kind := .node }

def connectLink? (l : Link) : Option Step :=
  match l.arrow.label with
  | none => some (.connect { source := l.source, target := l.target, kind := l.arrow.style })
  | some _ => none

def labelLink? (l : Link) : Option Step :=
  l.arrow.label.map fun label => .label l.source l.target label l.arrow.style

def steps (fragments : List Fragment) : List Step :=
  let chains := fragments.filterMap Fragment.chain?
  let nodes := chains.flatMap Chain.nodes
  let links := chains.flatMap Chain.links
  nodes.filterMap declareNode? ++ links.filterMap connectLink? ++ links.filterMap labelLink?

end TextDiagram.Flow
