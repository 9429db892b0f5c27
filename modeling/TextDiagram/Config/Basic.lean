import TextDiagram.Dialect
import TextDiagram.Files.Path

/-!
# Configuration

A configuration bounds the size of sources, may force a dialect, lists the file extensions that are
accepted, and chooses the format of the export.
-/

namespace TextDiagram

inductive ExportFormat where
  /-- Nodes and edges with all that is known of them. -/
  | full
  /-- The wire graph. -/
  | wire
  deriving DecidableEq, Repr

namespace ExportFormat

def all : List ExportFormat :=
  [full, wire]

def name : ExportFormat → String
  | full => "full"
  | wire => "wire"

def ofName? (s : String) : Option ExportFormat :=
  all.find? fun f => f.name == s

@[simp] theorem ofName?_name (f : ExportFormat) : ofName? f.name = some f := by
  cases f <;> decide

end ExportFormat

structure SourceConfig where
  maxBytes : Option Nat := some (4 * 1024 * 1024)
  dialect? : Option Dialect := none
  extensions : List String := ["mmd", "mermaid", "txt"]
  deriving DecidableEq, Repr

namespace SourceConfig

/-- The size that a source may have; zero means that there is no limit. -/
def limit? (c : SourceConfig) : Option Nat :=
  c.maxBytes.filter fun n => 0 < n

/-- Without a list of extensions every path is accepted. -/
def accepts (c : SourceConfig) (path : String) : Bool :=
  c.extensions.isEmpty || (Files.extension? path).any fun ext =>
    c.extensions.any fun accepted => Files.equalUpToCase accepted.toList ext

end SourceConfig

structure OutputConfig where
  format : ExportFormat := .full
  pretty : Bool := true
  deriving DecidableEq, Repr

structure Config where
  source : SourceConfig := {}
  output : OutputConfig := {}
  deriving DecidableEq, Repr

namespace Config

def setFormat (c : Config) (format : ExportFormat) : Config :=
  { c with output := { c.output with format } }

/-- A format that is asked for goes before the configured one. -/
def override (c : Config) : Option ExportFormat → Config
  | some format => c.setFormat format
  | none => c

end Config

end TextDiagram
