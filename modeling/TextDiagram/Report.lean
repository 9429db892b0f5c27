import TextDiagram.Failure

/-!
# Reports

How failures and reasons for empty graphs are shown to the user. A failure is an error, an empty
graph only a warning.
-/

namespace TextDiagram

structure Report where
  code : String
  isWarning : Bool
  message : String
  cause? : Option String
  help? : Option String
  deriving DecidableEq, Repr

namespace Report

def ofFailure (f : Failure) : Report where
  code := f.code
  isWarning := false
  message := f.message
  cause? := f.cause?.map FileError.message
  help? := f.help?

def ofEmptyReason (r : EmptyReason) : Report where
  code := r.code
  isWarning := true
  message := r.message
  cause? := none
  help? := some r.help

/-- The text without the spaces behind it. -/
def dropSpaces (text : List Char) : List Char :=
  (text.reverse.dropWhile fun c => c == ' ').reverse

/-- A part of a report, with a mark in front of its first line and a margin in front of any further
one. No line ends in spaces of its text. -/
def part (mark margin text : String) : List String :=
  match text.toList.splitOn '\n' with
  | [] => [mark]
  | first :: rest =>
    (mark ++ String.ofList (dropSpaces first)) ::
      rest.map fun line => margin ++ String.ofList (dropSpaces line)

/-- The code stands by itself. The message, its cause and the help follow. -/
def lines (r : Report) : List String :=
  [r.code, ""] ++ part (if r.isWarning then "  ! " else "  x ") "  | " r.message ++
    r.cause?.toList.flatMap (part "  `-> " "      ") ++
    r.help?.toList.flatMap (part "  help: " "        ")

def render (r : Report) : String :=
  String.join (r.lines.map fun line => line ++ "\n")

end Report

end TextDiagram
