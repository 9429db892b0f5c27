import TextDiagram.Config.Basic
import TextDiagram.Decimal.Basic
import TextDiagram.Json.Record

/-!
# Reading a configuration

Every section and every field may be left out. A known field with a value of another type is not
accepted. Configurations are written as JSON or in a file format of their own, so the rules for
records and choices are handed in.
-/

namespace TextDiagram

open Json (ReadingRules)

def Dialect.ofJson? (rules : ReadingRules) : Json → Option Dialect :=
  Json.choice? rules ofName?

def ExportFormat.ofJson? (rules : ReadingRules) : Json → Option ExportFormat :=
  Json.choice? rules ofName?

/-- A number of bytes is written with digits only and is below `2 ^ 64`. -/
def byteCount? : Json → Option Nat
  | .number literal =>
    let digits := literal.toList
    if digits.all Char.isDigit then (some (digitsValue digits)).filter fun n => n < Nat.pow 2 64
    else none
  | _ => none

def SourceConfig.ofJson? (rules : ReadingRules) (j : Json) : Option SourceConfig := do
  let absent : SourceConfig := {}
  let j ← j.record? rules ["max_source_bytes", "dialect", "extensions"]
  let maxBytes ← j.default? "max_source_bytes" absent.maxBytes (Json.nullable? byteCount?)
  let dialect? ← j.default? "dialect" absent.dialect? (Json.nullable? (Dialect.ofJson? rules))
  let extensions ← j.default? "extensions" absent.extensions (Json.list? Json.string?)
  return { maxBytes, dialect?, extensions }

def OutputConfig.ofJson? (rules : ReadingRules) (j : Json) : Option OutputConfig := do
  let absent : OutputConfig := {}
  let j ← j.record? rules ["format", "pretty"]
  let format ← j.default? "format" absent.format (ExportFormat.ofJson? rules)
  let pretty ← j.default? "pretty" absent.pretty Json.bool?
  return { format, pretty }

def Config.ofJson? (rules : ReadingRules) (j : Json) : Option Config := do
  let j ← j.record? rules ["parser", "output"]
  let source ← j.default? "parser" {} (SourceConfig.ofJson? rules)
  let output ← j.default? "output" {} (OutputConfig.ofJson? rules)
  return { source, output }

end TextDiagram
