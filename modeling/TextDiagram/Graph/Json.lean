import TextDiagram.Graph.Basic
import TextDiagram.Json.Layout
import TextDiagram.Json.Reader
import TextDiagram.Json.Record

/-!
# Graphs as JSON

A node is written without its empty lists and without a stereotype that it does not have, an edge
without a label that it does not have. What is not written is read as empty or missing. Unknown
fields are ignored.
-/

namespace TextDiagram

def NodeKind.ofJson? : Json → Option NodeKind :=
  Json.choice? .json ofName?

def EdgeKind.ofJson? : Json → Option EdgeKind :=
  Json.choice? .json ofName?

def Visibility.ofJson? : Json → Option Visibility :=
  Json.choice? .json ofName?

namespace Member

def toJson (m : Member) : Json :=
  .object [("name", .string m.name), ("visibility", .string m.visibility.name)]

def ofJson? (j : Json) : Option Member := do
  let j ← j.record? .json ["name", "visibility"]
  let name ← j.required? "name" Json.string?
  let visibility ← j.required? "visibility" Visibility.ofJson?
  return { name, visibility }

end Member

/-- A field that is written only for a list with items. -/
def Json.listField {α : Type} (key : String) (f : α → Json) (as : List α) : List (String × Json) :=
  if as.isEmpty then [] else [(key, .ofList f as)]

/-- A field that is written only for a text that is there. -/
def Json.textField (key : String) (s : Option String) : List (String × Json) :=
  s.toList.map fun s => (key, .string s)

namespace Node

def toJson (n : Node) : Json :=
  .object ([("id", .string n.id), ("label", .string n.label), ("type", .string n.kind.name)] ++
    Json.listField "attributes" Member.toJson n.attributes ++
    Json.listField "methods" Member.toJson n.methods ++
    Json.textField "stereotype" n.stereotype ++
    Json.listField "participants" Json.string n.participants)

def ofJson? (j : Json) : Option Node := do
  let j ← j.record? .json
    ["id", "label", "type", "attributes", "methods", "stereotype", "participants"]
  let id ← j.required? "id" Json.string?
  let label ← j.required? "label" Json.string?
  let kind ← j.required? "type" NodeKind.ofJson?
  let attributes ← j.default? "attributes" [] (Json.list? Member.ofJson?)
  let methods ← j.default? "methods" [] (Json.list? Member.ofJson?)
  let stereotype ← j.default? "stereotype" none (Json.nullable? Json.string?)
  let participants ← j.default? "participants" [] (Json.list? Json.string?)
  return { id, label, kind, attributes, methods, stereotype, participants }

end Node

namespace Edge

def toJson (e : Edge) : Json :=
  .object ([("source", .string e.source), ("target", .string e.target)] ++
    Json.textField "label" e.label ++ [("type", .string e.kind.name)])

def ofJson? (j : Json) : Option Edge := do
  let j ← j.record? .json ["source", "target", "label", "type"]
  let source ← j.required? "source" Json.string?
  let target ← j.required? "target" Json.string?
  let kind ← j.required? "type" EdgeKind.ofJson?
  let label ← j.default? "label" none (Json.nullable? Json.string?)
  return { source, target, kind, label }

end Edge

namespace Graph

def toJson (g : Graph) : Json :=
  .object [("nodes", .ofList Node.toJson g.nodes), ("edges", .ofList Edge.toJson g.edges)]

def ofJson? (j : Json) : Option Graph := do
  let j ← j.record? .json ["nodes", "edges"]
  let nodes ← j.required? "nodes" (Json.list? Node.ofJson?)
  let edges ← j.required? "edges" (Json.list? Edge.ofJson?)
  return ⟨nodes, edges⟩

end Graph

end TextDiagram
