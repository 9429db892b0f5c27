import TextDiagram.Config.Json
import TextDiagram.Files.Tree
import TextDiagram.Toml.Reading
import TextDiagram.Toml.Table

/-!
# The configuration of a run

A configuration that is asked for has to be there. Otherwise the first of the usual files that
exists is taken, and without any the defaults apply.
-/

namespace TextDiagram.Command

open Files

/-- The configuration that belongs to the working directory. -/
def projectPath : String :=
  "diagrammar/config.toml"

/-- The usual files, the most important first. The user's own one may have no place. -/
def usualPaths (userPath? : Option String) : List String :=
  projectPath :: userPath?.toList

def configOfText (text : String) : Except Failure Config :=
  match (Toml.read? text).bind (Config.ofJson? Toml.readingRules) with
  | some c => .ok c
  | none => .error (.config .malformed)

/-- Reads a configuration that has been chosen. -/
def configAt (view : View) (path : String) : Except Failure Config :=
  match view.read path with
  | .ok text => configOfText text
  | .error .notFound => .error (.config (.missingFile path))
  | .error e => .error (.file e)

/-- The file that decides, if any does. -/
def chosenPath? (view : View) (explicit? userPath? : Option String) : Option String :=
  explicit?.or ((usualPaths userPath?).find? view.isFile)

def loadConfig (view : View) (explicit? userPath? : Option String) : Except Failure Config :=
  match chosenPath? view explicit? userPath? with
  | some path => configAt view path
  | none => .ok {}

end TextDiagram.Command
