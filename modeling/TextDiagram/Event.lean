import TextDiagram.EmptyReason
import TextDiagram.Graph.Basic

/-!
# The log

Reading a diagram is reported as a list of events. Each event has a level, a message and named
fields, and is made from the values that it reports.
-/

namespace TextDiagram

inductive Level where
  | trace
  | debug
  | info
  | warn
  deriving DecidableEq, Repr

def Level.name : Level → String
  | trace => "trace"
  | debug => "debug"
  | info => "info"
  | warn => "warn"

inductive Event where
  | markerFound (dialect : Dialect) (marker : String)
  | dialectDetected (dialect : Dialect)
  | noMarkerFound
  /-- The dialect is forced when it was given and not detected. -/
  | parsingStarted (dialect : Dialect) (forced : Bool)
  | statementRecognized (rule statement : String)
  | statementSkipped (statement : String)
  | nodeAugmented (id : String)
  | nodeSynthesized (id : String) (kind : NodeKind)
  | labelMerged (source target label : String)
  | stereotypeDropped (id stereotype : String)
  | diagramParsed (dialect : Dialect) (nodes edges : Nat)
  | nothingExtracted (reason : EmptyReason)
  deriving DecidableEq, Repr

/-- The name that the log gives to a kind of node. -/
def NodeKind.title : NodeKind → String
  | node => "Node"
  | implicit => "Implicit"
  | actor => "Actor"
  | participant => "Participant"
  | implicitParticipant => "ImplicitParticipant"
  | classifier => "Class"
  | noteOver => "NoteOver"
  | noteBetween => "NoteBetween"

namespace Event

def level : Event → Level
  | dialectDetected _ | noMarkerFound | diagramParsed .. => .debug
  | parsingStarted .. => .info
  | nothingExtracted _ => .warn
  | _ => .trace

def message : Event → String
  | markerFound .. => "Dialect marker found"
  | dialectDetected _ => "Detected diagram dialect"
  | noMarkerFound => "No dialect marker found"
  | parsingStarted .. => "Parsing diagram"
  | statementRecognized .. => "Recognized fragment"
  | statementSkipped _ => "Skipping unrecognized fragment"
  | nodeAugmented _ => "Augmenting existing node"
  | nodeSynthesized .. => "Synthesizing implicit node"
  | labelMerged .. => "Merging label onto existing edge"
  | stereotypeDropped .. => "Dropping stereotype for unknown class"
  | diagramParsed .. => "Diagram parsed"
  | nothingExtracted _ => "Nothing extracted from diagram source"

def fields : Event → List (String × String)
  | markerFound dialect marker => [("dialect", dialect.name), ("marker", marker)]
  | dialectDetected dialect => [("dialect", dialect.name)]
  | noMarkerFound => []
  | parsingStarted dialect forced =>
    [("dialect", dialect.name), ("forced", if forced then "true" else "false")]
  | statementRecognized rule statement => [("rule", rule), ("statement", statement)]
  | statementSkipped statement => [("statement", statement)]
  | nodeAugmented id => [("id", id)]
  | nodeSynthesized id kind => [("id", id), ("kind", kind.title)]
  | labelMerged source target label => [("source", source), ("target", target), ("label", label)]
  | stereotypeDropped id stereotype => [("id", id), ("stereotype", stereotype)]
  | diagramParsed dialect nodes edges =>
    [("dialect", dialect.name), ("nodes", nodes.repr), ("edges", edges.repr)]
  | nothingExtracted reason => [("code", reason.code), ("err", reason.message)]

end Event

end TextDiagram
