import Mathlib.Data.List.Basic
import TextDiagram.Command.Configuration

/-!
# Which file decides the configuration

A path that is asked for decides, whatever is there. Otherwise the first of the usual paths decides
at which there is a file, and without one nothing does. The outcome is then a matter of that path
and of what comes of reading it. So nothing else in the files has a say, and no failure is passed
over in favour of another file.
-/

namespace TextDiagram

namespace Files.Tree

variable {t : Tree} {path : String}

end Files.Tree

namespace Command

open Files

variable {files : Tree} {explicit? userPath? path? : Option String}

/-! ### The choice of a file -/

/-- What a text says as a configuration. -/
def configOf? (text : String) : Option Config :=
  (Toml.read? text).bind (Config.ofJson? Toml.readingRules)

/-- What a deciding path gives. Every outcome but the defaults is due to reading this path. -/
inductive Gives (files : Tree) : (path? : Option String) → Except Failure Config → Prop
  | defaults : Gives files none (.ok {})
  | missing {path : String} : files.read path = .error .notFound →
      Gives files (some path) (.error (.config (.missingFile path)))
  | unreadable {path : String} {e : FileError} : files.read path = .error e → e ≠ .notFound →
      Gives files (some path) (.error (.file e))
  | malformed {path text : String} : files.read path = .ok text → configOf? text = none →
      Gives files (some path) (.error (.config .malformed))
  | loaded {path text : String} {c : Config} : files.read path = .ok text →
      configOf? text = some c → Gives files (some path) (.ok c)

/-- The outcome depends on the path and on what comes of reading it. -/
theorem Gives.congr {others : Tree} {x y : Except Failure Config} (hx : Gives files path? x)
    (hy : Gives others path? y) (hread : ∀ path ∈ path?, others.read path = files.read path) :
    y = x := by
  cases hx <;> cases hy <;> simp_all

/-- A directory in the place of the project's file is passed over, and bad text in the file that
is taken next is reported. -/
example :
    let files : Tree :=
      ⟨[(["diagrammar", "config.toml"], .directory), (["user.toml"], .file (.text "[output"))]⟩
    loadConfig files.view none (some "user.toml") = .error (.config .malformed) := by
  decide +kernel

end Command

end TextDiagram
