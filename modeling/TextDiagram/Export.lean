import TextDiagram.Config.Basic
import TextDiagram.Failure
import TextDiagram.Parser
import TextDiagram.Wire.Json

/-!
# From a source to an export

A configuration decides which sources are taken, how they are parsed, and what is written of their
graphs.
-/

namespace TextDiagram

/-- The text of a graph in the given format. -/
def Graph.exportText (g : Graph) (c : OutputConfig) : String :=
  match c.format with
  | .full => g.toJson.render c.pretty
  | .wire => (Wire.Graph.ofGraph g).toJson.render c.pretty

namespace Config

def parser (c : Config) : Parser := ⟨c.source.dialect?⟩

/-- The failure of a source that is larger than allowed. -/
def oversize? (c : Config) (source : String) : Option Failure :=
  c.source.limit?.bind fun limit =>
    if limit < source.utf8ByteSize then some (.sourceTooLarge source.utf8ByteSize limit) else none

def parse (c : Config) (source : String) : Except Failure Graph :=
  match c.oversize? source with
  | some failure => .error failure
  | none => .ok (c.parser.parse source)

end Config

end TextDiagram
