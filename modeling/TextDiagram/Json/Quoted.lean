/-!
# Quoted strings

A string is written between double quotes. Of its characters only the double quote, the backslash
and the control characters below U+0020 are escaped. Reading also knows the other escapes, and
puts the two halves of a surrogate pair together.
-/

namespace TextDiagram.Json

/-- The letters that stand for a character behind a backslash when a string is written. -/
def shortEscapes : List (Char × Char) :=
  [('"', '"'), ('\\', '\\'), ('b', '\x08'), ('t', '\t'), ('n', '\n'), ('f', '\x0c'), ('r', '\r')]

def escape (c : Char) : List Char :=
  match shortEscapes.find? fun e => e.2 == c with
  | some (letter, _) => ['\\', letter]
  | none =>
    if c.toNat < 0x20 then
      ['\\', 'u', '0', '0', Nat.digitChar (c.toNat / 16), Nat.digitChar (c.toNat % 16)]
    else [c]

def quote (s : List Char) : List Char :=
  '"' :: s.flatMap escape ++ ['"']

/-! ### Reading -/

def shortEscape? (letter : Char) : Option Char :=
  if letter = '/' then some '/' else (shortEscapes.find? fun e => e.1 == letter).map Prod.snd

def hexValue? (c : Char) : Option Nat :=
  if '0' ≤ c ∧ c ≤ '9' then some (c.toNat - '0'.toNat)
  else if 'a' ≤ c ∧ c ≤ 'f' then some (c.toNat - 'a'.toNat + 10)
  else if 'A' ≤ c ∧ c ≤ 'F' then some (c.toNat - 'A'.toNat + 10)
  else none

/-- The number with the given hexadecimal digits. -/
def hexNumber? (digits : List Char) : Option Nat :=
  digits.foldlM (fun n c => (hexValue? c).map fun d => 16 * n + d) 0

def isHighSurrogate (n : Nat) : Bool :=
  0xD800 ≤ n && n < 0xDC00

def isLowSurrogate (n : Nat) : Bool :=
  0xDC00 ≤ n && n < 0xE000

/-- The rest of a string behind its opening quote; `done` holds the characters read so far in
reverse order. -/
def readQuoted (done : List Char) : List Char → Option (List Char × List Char)
  | [] => none
  | '\\' :: 'u' :: a :: b :: c :: d :: s =>
    match hexNumber? [a, b, c, d] with
    | none => none
    | some n =>
      if isLowSurrogate n then none
      else if isHighSurrogate n then
        match s with
        | '\\' :: 'u' :: e :: f :: g :: h :: s =>
          match (hexNumber? [e, f, g, h]).filter isLowSurrogate with
          | none => none
          | some m => readQuoted (Char.ofNat (0x10000 + (n - 0xD800) * 0x400 + (m - 0xDC00)) :: done) s
        | _ => none
      else readQuoted (Char.ofNat n :: done) s
  | '\\' :: c :: s =>
    match shortEscape? c with
    | none => none
    | some d => readQuoted (d :: done) s
  | c :: s =>
    if c = '"' then some (done.reverse, s)
    else if c.toNat < 0x20 then none
    else readQuoted (c :: done) s

theorem readQuoted_length {done s body rest : List Char}
    (h : readQuoted done s = some (body, rest)) : rest.length < s.length := by
  fun_induction readQuoted done s <;> simp_all <;> omega

end TextDiagram.Json
