import TextDiagram.Command.LogLevel
import TextDiagram.Command.Run
import TextDiagram.Command.Usage
import TextDiagram.Report

/-!
# The command line program

Reads the files that a run may need, prepares the run, and carries out its effect. What is told
about the run goes to the error stream.
-/

namespace TextDiagram.Main

open Command Files

def fileError : IO.Error → FileError
  | .noFileOrDirectory .. => .notFound
  | .inappropriateType .. => .isADirectory
  | e => .other e.toString

/-- What comes of reading a file as text. -/
def readFile (path : String) : IO (Except FileError String) := do
  try
    match String.fromUTF8? (← IO.FS.readBinFile path) with
    | some text => return .ok text
    | none => return .error .notText
  catch e =>
    return .error (fileError e)

/-- Reads all files that a run may look at. -/
def look (paths : List String) : IO View := do
  let results ← paths.mapM fun path => return (path, ← readFile path)
  return ⟨fun path => (results.lookup path).getD (.error .notFound)⟩

/-- The user's own configuration, below an absolute directory for configurations. -/
def userPath? : IO (Option String) := do
  let given := (← IO.getEnv "XDG_CONFIG_HOME").filter fun dir => dir.startsWith "/"
  let usual := (← IO.getEnv "HOME").map fun home => home ++ "/.config"
  return (given.or usual).map fun dir => dir ++ "/diagrammar/config.toml"

def logLevel (name : String) : IO LogLevel := do
  match LogLevel.ofName? name with
  | some level => return level
  | none =>
    IO.eprintln ("Invalid log level: " ++ name ++ ". Using 'warn' instead.")
    return .warn

def tell (level least : LogLevel) (text : String) : IO Unit := do
  if level.tells least then IO.eprintln text

def fail (level : LogLevel) (failure : Failure) : IO UInt32 := do
  tell level .error (Report.ofFailure failure).render
  return 1

/-- Writes an export to a file, or prints it. -/
def deliver (e : Export) : Option String → IO (Except FileError Unit)
  | none => .ok <$> IO.println e.text
  | some path => do
    try
      .ok <$> IO.FS.writeFile path e.text
    catch e =>
      return .error (fileError e)

def run (args : Arguments) : IO UInt32 := do
  let level ← logLevel args.logLevel
  let user? ← userPath?
  let view ← look (args.config?.toList ++ usualPaths user? ++ [args.input])
  match prepare args user? view with
  | .error failure => fail level failure
  | .ok e =>
    match ← deliver e args.output? with
    | .error cause => fail level (.file cause)
    | .ok () =>
      if let some reason := e.reason? then
        tell level .warn (Report.ofEmptyReason reason).render
      return 0

end TextDiagram.Main

open TextDiagram TextDiagram.Command

def main (texts : List String) : IO UInt32 := do
  match Arguments.ofList texts with
  | .ok args => TextDiagram.Main.run args
  | .error e =>
    if e.exitCode = 0 then IO.println e.message else IO.eprintln e.message
    return e.exitCode.toUInt32
