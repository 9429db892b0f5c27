import TextDiagram.Json.Basic
import TextDiagram.Json.Token

/-!
# Layouts of a JSON value

The compact layout writes the tokens of a value with nothing between them. The pretty layout gives
every item of an array and every field of an object a line of its own, and puts a space behind the
colon of a field. An array or an object without contents takes no line of its own.
-/

namespace TextDiagram.Json

/-! ### Tokens of a value -/

mutual

def tokens : Json → List Token
  | .null => [.null]
  | .bool b => [.bool b]
  | .number literal => [.number literal]
  | .string s => [.string s]
  | .array [] => [.openArray, .closeArray]
  | .array (v :: vs) => .openArray :: tokens v ++ itemTokens vs ++ [.closeArray]
  | .object [] => [.openObject, .closeObject]
  | .object ((key, v) :: fields) =>
    .openObject :: .string key :: .colon :: tokens v ++ fieldTokens fields ++ [.closeObject]

/-- The items of an array after the first one. -/
def itemTokens : List Json → List Token
  | [] => []
  | v :: vs => .comma :: tokens v ++ itemTokens vs

/-- The fields of an object after the first one. -/
def fieldTokens : List (String × Json) → List Token
  | [] => []
  | (key, v) :: fields => .comma :: .string key :: .colon :: tokens v ++ fieldTokens fields

end

def compact (v : Json) : String :=
  String.ofList (v.tokens.flatMap Token.text)

/-! ### Pretty layout -/

/-- A part of a text: a token or the blanks between two tokens. -/
inductive Piece where
  | token (t : Token)
  | space
  | newline (depth : Nat)
  deriving DecidableEq, Repr

namespace Piece

/-- Each level is indented by two spaces. -/
def text : Piece → List Char
  | token t => t.text
  | space => [' ']
  | newline depth => '\n' :: List.replicate (2 * depth) ' '

@[simp] def token? : Piece → Option Token
  | token t => some t
  | space => none
  | newline _ => none

end Piece

mutual

def pieces (depth : Nat) : Json → List Piece
  | .null => [.token .null]
  | .bool b => [.token (.bool b)]
  | .number literal => [.token (.number literal)]
  | .string s => [.token (.string s)]
  | .array [] => [.token .openArray, .token .closeArray]
  | .array (v :: vs) =>
    .token .openArray :: .newline (depth + 1) :: pieces (depth + 1) v ++
      itemPieces (depth + 1) vs ++ [.newline depth, .token .closeArray]
  | .object [] => [.token .openObject, .token .closeObject]
  | .object ((key, v) :: fields) =>
    .token .openObject :: .newline (depth + 1) :: .token (.string key) :: .token .colon :: .space ::
      pieces (depth + 1) v ++ fieldPieces (depth + 1) fields ++
        [.newline depth, .token .closeObject]

def itemPieces (depth : Nat) : List Json → List Piece
  | [] => []
  | v :: vs => .token .comma :: .newline depth :: pieces depth v ++ itemPieces depth vs

def fieldPieces (depth : Nat) : List (String × Json) → List Piece
  | [] => []
  | (key, v) :: fields =>
    .token .comma :: .newline depth :: .token (.string key) :: .token .colon :: .space ::
      pieces depth v ++ fieldPieces depth fields

end

def pretty (v : Json) : String :=
  String.ofList ((v.pieces 0).flatMap Piece.text)

/-- The text of a value in the layout that is asked for. -/
def render (isPretty : Bool) (v : Json) : String :=
  if isPretty then v.pretty else v.compact

/-! ### Both layouts have the same tokens -/

mutual

theorem filterMap_pieces (depth : Nat) (v : Json) :
    (v.pieces depth).filterMap Piece.token? = v.tokens := by
  match v with
  | .null | .bool _ | .number _ | .string _ => rfl
  | .array [] | .object [] => rfl
  | .array (v :: vs) =>
      simp [pieces, tokens, List.filterMap_cons, filterMap_pieces (depth + 1) v,
        filterMap_itemPieces (depth + 1) vs]
  | .object ((key, v) :: fields) =>
      simp [pieces, tokens, List.filterMap_cons, filterMap_pieces (depth + 1) v,
        filterMap_fieldPieces (depth + 1) fields]

theorem filterMap_itemPieces (depth : Nat) (vs : List Json) :
    (itemPieces depth vs).filterMap Piece.token? = itemTokens vs := by
  match vs with
  | [] => rfl
  | v :: vs =>
      simp [itemPieces, itemTokens, List.filterMap_cons, filterMap_pieces depth v,
        filterMap_itemPieces depth vs]

theorem filterMap_fieldPieces (depth : Nat) (fields : List (String × Json)) :
    (fieldPieces depth fields).filterMap Piece.token? = fieldTokens fields := by
  match fields with
  | [] => rfl
  | (key, v) :: fields =>
      simp [fieldPieces, fieldTokens, List.filterMap_cons, filterMap_pieces depth v,
        filterMap_fieldPieces depth fields]

end

end TextDiagram.Json
