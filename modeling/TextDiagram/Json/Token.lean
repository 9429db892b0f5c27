import TextDiagram.Json.Quoted
import TextDiagram.Matcher

/-!
# JSON tokens

The smallest parts of a JSON text, how each is written, and how a text is divided into them.
-/

namespace TextDiagram.Json

inductive Token where
  | openArray
  | closeArray
  | openObject
  | closeObject
  | comma
  | colon
  | null
  | bool (b : Bool)
  | number (literal : String)
  | string (s : String)
  deriving DecidableEq, Repr

namespace Token

def text : Token → List Char
  | openArray => ['[']
  | closeArray => [']']
  | openObject => ['\x7b']
  | closeObject => ['\x7d']
  | comma => [',']
  | colon => [':']
  | null => "null".toList
  | bool true => "true".toList
  | bool false => "false".toList
  | number literal => literal.toList
  | string s => quote s.toList

/-! ### Numbers -/

def dropDigits (s : List Char) : List Char :=
  s.dropWhile Char.isDigit

/-- At least one digit, and all that follow it. -/
def digits? : List Char → Option (List Char)
  | [] => none
  | c :: s => if c.isDigit then some (dropDigits s) else none

/-- Only the number zero starts with the digit zero. -/
def whole? : List Char → Option (List Char)
  | '0' :: s => some s
  | s => digits? s

def fraction? : List Char → Option (List Char)
  | '.' :: s => digits? s
  | s => some s

def exponent? : List Char → Option (List Char)
  | [] => some []
  | c :: s =>
    if c = 'e' ∨ c = 'E' then
      match s with
      | '+' :: s => digits? s
      | '-' :: s => digits? s
      | s => digits? s
    else some (c :: s)

def isNumeral (s : List Char) : Bool :=
  let unsigned := match s with
    | '-' :: s => s
    | s => s
  (((whole? unsigned).bind fraction?).bind exponent?) == some []

/-! ### Dividing a text into tokens -/

def isSpace (c : Char) : Bool :=
  c ∈ [' ', '\t', '\n', '\r']

def punctuation? : Char → Option Token
  | '[' => some openArray
  | ']' => some closeArray
  | '\x7b' => some openObject
  | '\x7d' => some closeObject
  | ',' => some comma
  | ':' => some colon
  | _ => none

/-- The characters of numbers and of `null`, `true` and `false`. -/
def isLiteralChar (c : Char) : Bool :=
  c.isAlphanum || c ∈ ['+', '-', '.']

def literal? (s : List Char) : Option Token :=
  if s = "null".toList then some null
  else if s = "true".toList then some (bool true)
  else if s = "false".toList then some (bool false)
  else if isNumeral s then some (number (String.ofList s))
  else none

def first : Matcher Token
  | [] => none
  | c :: s =>
    match punctuation? c with
    | some token => some (token, s)
    | none =>
      if c = '"' then
        (readQuoted [] s).map fun (body, rest) => (string (String.ofList body), rest)
      else
        (literal? (c :: s.takeWhile isLiteralChar)).map fun token =>
          (token, s.dropWhile isLiteralChar)

theorem first_consumes : first.Consumes 1 := by
  intro s rest token h
  cases s with
  | nil => simp [first] at h
  | cons c s =>
      simp only [first] at h
      split at h
      · simp only [Option.some.injEq, Prod.mk.injEq] at h
        simp [← h.2]
      · split at h
        · obtain ⟨⟨body, t⟩, hbody, hpair⟩ := Option.map_eq_some_iff.mp h
          obtain ⟨rfl, rfl⟩ := Prod.mk.inj hpair
          have := readQuoted_length hbody
          simp only [List.length_cons]
          omega
        · obtain ⟨t, _, hpair⟩ := Option.map_eq_some_iff.mp h
          obtain ⟨rfl, rfl⟩ := Prod.mk.inj hpair
          have := (List.dropWhile_sublist isLiteralChar (l := s)).length_le
          simp only [List.length_cons]
          omega

/-- The tokens of a text behind the ones that are done, which are given in reverse order. -/
def tokensFrom (done : List Token) (s : List Char) : Option (List Token) :=
  match hs : s.dropWhile isSpace with
  | [] => some done.reverse
  | c :: t =>
    match h : first (c :: t) with
    | none => none
    | some (token, rest) =>
      have : rest.length < s.length := by
        have hfirst := first_consumes h
        have hdrop := (List.dropWhile_sublist isSpace (l := s)).length_le
        rw [hs] at hdrop
        omega
      tokensFrom (token :: done) rest
termination_by s.length

def tokens? (s : List Char) : Option (List Token) :=
  tokensFrom [] s

end Token

end TextDiagram.Json
