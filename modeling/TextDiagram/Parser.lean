import TextDiagram.Assembly.Basic
import TextDiagram.Class.Reading
import TextDiagram.Flow.Reading
import TextDiagram.Sequence.Reading

/-!
# Parsing a diagram

A text is read in a given dialect, or else in the one that it is detected to be of. Its statements
are recognized, what they mean is turned into steps, and the steps are run and closed. A text from
which nothing comes gives the empty graph, with a reason.
-/

namespace TextDiagram

namespace Dialect

/-- The kind of the nodes that stand for endpoints that are never declared. -/
def implicitKind : Dialect → NodeKind
  | flow | classes => .implicit
  | sequence => .implicitParticipant

def statements : Dialect → List Char → List (List Char)
  | flow => Flow.statements
  | sequence => Sequence.statements
  | classes => Class.statements

/-- What the log says about the statements. -/
def statementEvents (d : Dialect) (source : List Char) : List Event :=
  match d with
  | flow => (Flow.statements source).map (Rule.event Flow.rules)
  | sequence => (Sequence.statements source).map (Rule.event Sequence.rules)
  | classes => (Class.statements source).map (Rule.event Class.rules)

def steps (d : Dialect) (source : List Char) : List Step :=
  match d with
  | flow => Flow.steps ((Flow.statements source).filterMap (Rule.meaning? Flow.rules))
  | sequence =>
    Sequence.steps ((Sequence.statements source).filterMap (Rule.meaning? Sequence.rules))
  | classes => Class.steps ((Class.statements source).filterMap (Rule.meaning? Class.rules))

/-- The assembly of a text before it is closed. -/
def scan (d : Dialect) (source : List Char) : Assembly :=
  Assembly.empty.run (d.steps source)

def graph? (d : Dialect) (source : List Char) : Except EmptyReason Graph :=
  let scanned := d.scan source
  if scanned.isEmpty then .error (.emptyExtraction d)
  else .ok (scanned.close d.implicitKind).toGraph

end Dialect

/-- A parser has no state; it may be bound to a dialect. -/
structure Parser where
  dialect? : Option Dialect
  deriving DecidableEq, Repr

namespace Parser

/-- A parser that detects the dialect of each text. -/
def detecting : Parser := ⟨none⟩

def forced (d : Dialect) : Parser := ⟨some d⟩

def dialectOf? (p : Parser) (source : String) : Option Dialect :=
  p.dialect?.or (Dialect.detect? source.toList)

def tryParse (p : Parser) (source : String) : Except EmptyReason Graph :=
  match p.dialectOf? source with
  | none => .error .unsupportedDialect
  | some d => d.graph? source.toList

/-- A text from which nothing can be read gives the empty graph. -/
def parse (p : Parser) (source : String) : Graph :=
  match p.tryParse source with
  | .ok g => g
  | .error _ => .empty

def reason? (p : Parser) (source : String) : Option EmptyReason :=
  match p.tryParse source with
  | .ok _ => none
  | .error reason => some reason

/-! ### The log of a parse -/

def detectionEvents (source : List Char) : List Event :=
  match Dialect.find? source with
  | some (d, marker) => [.markerFound d marker, .dialectDetected d]
  | none => [.noMarkerFound]

/-- The events up to the point where the steps have been run. -/
def scanEvents (d : Dialect) (source : List Char) : List Event :=
  d.statementEvents source ++ Assembly.empty.events (d.steps source)

def closingEvents (d : Dialect) (source : List Char) : List Event :=
  let scanned := d.scan source
  scanned.events (scanned.closing d.implicitKind)

def resultEvent (d : Dialect) (g : Graph) : Event :=
  .diagramParsed d g.nodes.length g.edges.length

def events (p : Parser) (source : String) : List Event :=
  let chars := source.toList
  let detection := if p.dialect?.isSome then [] else detectionEvents chars
  match p.dialectOf? source with
  | none => detection ++ [.nothingExtracted .unsupportedDialect]
  | some d =>
    detection ++ .parsingStarted d p.dialect?.isSome :: scanEvents d chars ++
      match d.graph? chars with
      | .error reason => [.nothingExtracted reason]
      | .ok g => closingEvents d chars ++ [resultEvent d g]

end Parser

end TextDiagram
