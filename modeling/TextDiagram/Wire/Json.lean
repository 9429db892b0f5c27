import TextDiagram.Decimal.Scaled
import TextDiagram.Decimal.Shortest
import TextDiagram.Graph.Json
import TextDiagram.Wire.Basic

/-!
# Wire graphs as JSON

Coordinates are written as the shortest decimals. A position or a label that is missing is not
written.
-/

namespace TextDiagram.Wire

/-- A coordinate that is not finite has no decimal. -/
def coordinateToJson (x : Float) : Json :=
  if x.isFinite then .number (Decimal.text .positional (.ofFloat x)) else .null

def coordinateOfJson? : Json → Option Float
  | .number literal => Decimal.readFloat? (.ofText literal.toList)
  | _ => none

namespace Position

def toJson (p : Position) : Json :=
  .object [("x", coordinateToJson p.x), ("y", coordinateToJson p.y), ("z", coordinateToJson p.z)]

def ofJson? (j : Json) : Option Position := do
  let j ← j.record? .json ["x", "y", "z"]
  let x ← j.required? "x" coordinateOfJson?
  let y ← j.required? "y" coordinateOfJson?
  let z ← j.required? "z" coordinateOfJson?
  return { x, y, z }

end Position

namespace Node

def toJson (n : Node) : Json :=
  .object ([("id", .string n.id), ("label", .string n.label)] ++
    n.position.toList.map fun p => ("position", p.toJson))

def ofJson? (j : Json) : Option Node := do
  let j ← j.record? .json ["id", "label", "position"]
  let id ← j.required? "id" Json.string?
  let label ← j.required? "label" Json.string?
  let position ← j.default? "position" none (Json.nullable? Position.ofJson?)
  return { id, label, position }

end Node

namespace Edge

def toJson (e : Edge) : Json :=
  .object ([("from", .string e.source), ("to", .string e.target)] ++
    Json.textField "label" e.label)

def ofJson? (j : Json) : Option Edge := do
  let j ← j.record? .json ["from", "to", "label"]
  let source ← j.required? "from" Json.string?
  let target ← j.required? "to" Json.string?
  let label ← j.default? "label" none (Json.nullable? Json.string?)
  return { source, target, label }

end Edge

namespace Graph

def toJson (g : Graph) : Json :=
  .object [("nodes", .ofList Node.toJson g.nodes), ("edges", .ofList Edge.toJson g.edges)]

def ofJson? (j : Json) : Option Graph := do
  let j ← j.record? .json ["nodes", "edges"]
  let nodes ← j.required? "nodes" (Json.list? Node.ofJson?)
  let edges ← j.required? "edges" (Json.list? Edge.ofJson?)
  return ⟨nodes, edges⟩

end Graph

end TextDiagram.Wire
