import TextDiagram.Json.Layout

/-!
# Reading a JSON text

The tokens of a text are taken in one after the other. What is kept of them is the stack of the
arrays and objects that are still open, and what may come next.
-/

namespace TextDiagram.Json

/-- An array or object that is still open, with its contents in reverse order. -/
inductive Frame where
  | items (done : List Json)
  | fields (done : List (String × Json)) (key : String)
  deriving Repr

/-- What the tokens so far leave to come. -/
inductive Reading where
  | value (stack : List Frame)
  /-- Behind an opening bracket. -/
  | itemOrClose (stack : List Frame)
  /-- Behind an opening brace. -/
  | keyOrClose (stack : List Frame)
  | key (done : List (String × Json)) (stack : List Frame)
  | colon (done : List (String × Json)) (key : String) (stack : List Frame)
  /-- Behind a complete value. -/
  | after (v : Json) (stack : List Frame)
  deriving Repr

namespace Reading

def start (stack : List Frame) : Token → Option Reading
  | .null => some (after .null stack)
  | .bool b => some (after (.bool b) stack)
  | .number literal => some (after (.number literal) stack)
  | .string s => some (after (.string s) stack)
  | .openArray => some (itemOrClose stack)
  | .openObject => some (keyOrClose stack)
  | _ => none

def step : Reading → Token → Option Reading
  | value stack, token => start stack token
  | itemOrClose stack, .closeArray => some (after (.array []) stack)
  | itemOrClose stack, token => start (.items [] :: stack) token
  | keyOrClose stack, .closeObject => some (after (.object []) stack)
  | keyOrClose stack, .string k => some (colon [] k stack)
  | key done stack, .string k => some (colon done k stack)
  | colon done k stack, .colon => some (value (.fields done k :: stack))
  | after v (.items done :: stack), .comma => some (value (.items (v :: done) :: stack))
  | after v (.items done :: stack), .closeArray =>
    some (after (.array (v :: done).reverse) stack)
  | after v (.fields done k :: stack), .comma => some (key ((k, v) :: done) stack)
  | after v (.fields done k :: stack), .closeObject =>
    some (after (.object ((k, v) :: done).reverse) stack)
  | _, _ => none

def result? : Reading → Option Json
  | after v [] => some v
  | _ => none

end Reading

def ofTokens? (tokens : List Token) : Option Json :=
  (tokens.foldlM Reading.step (.value [])).bind Reading.result?

def ofText? (s : String) : Option Json :=
  (Token.tokens? s.toList).bind ofTokens?

end TextDiagram.Json
