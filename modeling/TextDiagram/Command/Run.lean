import TextDiagram.Command.Arguments
import TextDiagram.Command.Configuration
import TextDiagram.Export

/-!
# A run

A run reads a source and exports its graph, to a file or to the terminal. A graph that came out
empty is exported as well, and the reason is told. Whatever fails, nothing is printed or written.
-/

namespace TextDiagram.Command

open Files

/-- The source at a path. Its name is looked at first. -/
def readSource (c : Config) (view : View) (path : String) : Except Failure String :=
  if c.source.accepts path then
    match view.read path with
    | .ok text => .ok text
    | .error cause => .error (.sourceRead path cause)
  else .error (.unsupportedExtension path)

/-- What is to be written, and the reason if it is an empty graph. -/
structure Export where
  text : String
  reason? : Option EmptyReason
  deriving DecidableEq, Repr

def exportSource (c : Config) (source : String) : Except Failure Export := do
  let g ← c.parse source
  return {
    text := g.exportText c.output
    reason? := if g.isEmpty then c.parser.reason? source else none }

/-- All of a run that comes before its effect. -/
def prepare (args : Arguments) (userPath? : Option String) (view : View) :
    Except Failure Export := do
  let loaded ← loadConfig view args.config? userPath?
  let c := loaded.override args.format?
  exportSource c (← readSource c view args.input)

/-- What a run leaves behind. -/
structure Outcome where
  result : Except Failure (Option EmptyReason)
  printed : String
  files : Tree

def failed (failure : Failure) (files : Tree) : Outcome :=
  ⟨.error failure, "", files⟩

/-- Writes an export where the arguments say. Only what is printed ends in a line feed. A file may
refuse the text, but the terminal is taken to accept whatever is printed. -/
def deliver (e : Export) (output? : Option String) (files : Tree) : Outcome :=
  match output? with
  | none => ⟨.ok e.reason?, e.text ++ "\n", files⟩
  | some path =>
    match files.write path e.text with
    | .ok written => ⟨.ok e.reason?, "", written⟩
    | .error cause => failed (.file cause) files

def run (args : Arguments) (userPath? : Option String) (files : Tree) : Outcome :=
  match prepare args userPath? files.view with
  | .error failure => failed failure files
  | .ok e => deliver e args.output? files

end TextDiagram.Command
