import TextDiagram.Dialect

/-!
# Reasons for an empty graph

A text from which nothing can be read gives the empty graph. A reason says why.
-/

namespace TextDiagram

inductive EmptyReason where
  | unsupportedDialect
  | emptyExtraction (dialect : Dialect)
  deriving DecidableEq, Repr

namespace EmptyReason

def code : EmptyReason → String
  | unsupportedDialect => "diagrammar::unsupported_dialect"
  | emptyExtraction _ => "diagrammar::empty_extraction"

def message : EmptyReason → String
  | unsupportedDialect => "no supported diagram type found"
  | emptyExtraction d => d.name ++ " diagram contains no recognizable entities or relations"

def help : EmptyReason → String
  | unsupportedDialect => "start the diagram with `flowchart`, `sequenceDiagram` or `classDiagram`"
  | emptyExtraction .flow => "declare nodes like `A[Label]` or link them with `A --> B`"
  | emptyExtraction .sequence =>
    "declare roles with `participant` or send messages like `A->>B: hi`"
  | emptyExtraction .classes => "declare classes with `class Name` or relate them with `A <|-- B`"

end EmptyReason

end TextDiagram
