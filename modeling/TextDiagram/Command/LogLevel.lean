/-!
# How much is told

The log level of a run says how much of it is told on the error stream.
-/

namespace TextDiagram.Command

inductive LogLevel where
  | off
  | error
  | warn
  | info
  | debug
  | trace
  deriving DecidableEq, Repr

namespace LogLevel

def all : List LogLevel :=
  [off, error, warn, info, debug, trace]

def name : LogLevel → String
  | off => "off"
  | error => "error"
  | warn => "warn"
  | info => "info"
  | debug => "debug"
  | trace => "trace"

/-- The case of the letters does not matter. -/
def ofName? (name : String) : Option LogLevel :=
  all.find? fun l => l.name.toList == name.toList.map Char.toLower

@[simp] theorem ofName?_name (l : LogLevel) : ofName? l.name = some l := by
  cases l <;> decide

def rank : LogLevel → Nat
  | off => 0
  | error => 1
  | warn => 2
  | info => 3
  | debug => 4
  | trace => 5

/-- What is told on one level is also told on every level above. -/
def tells (l least : LogLevel) : Bool :=
  least.rank ≤ l.rank

end LogLevel

end TextDiagram.Command
