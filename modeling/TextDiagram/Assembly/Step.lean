import TextDiagram.Graph.Basic

/-!
# Steps of an assembly

A dialect does not build a graph. It says which steps build it.
-/

namespace TextDiagram

inductive Step where
  /-- Adds a node, or adds to the node that has its id. -/
  | declare (node : Node)
  /-- Adds a node without a label, unless its id is known. -/
  | synthesize (id : String) (kind : NodeKind)
  | connect (edge : Edge)
  /-- Labels the first edge between two nodes, or else adds a labeled edge of the given kind. -/
  | label (source target text : String) (kind : EdgeKind)
  /-- Gives a stereotype to a class that is known. -/
  | stereotype (id text : String)
  deriving DecidableEq, Repr

end TextDiagram
