import TextDiagram.Decimal.Basic
import TextDiagram.Json.Basic
import TextDiagram.Json.Quoted
import TextDiagram.Matcher
import TextDiagram.Toml.Date

/-!
# Strings and numbers of a configuration file

Strings are basic, with escapes, or literal, and either kind may go over several lines. Numbers may
have underscores between their digits. A number is handed on in decimal, however great it is.
-/

namespace TextDiagram.Toml

open Text Matcher

/-- Control characters other than the tab are not allowed in strings and comments. -/
def isControl (c : Char) : Bool :=
  c.toNat < 0x20 && c != '\t' || c.toNat == 0x7F

/-! ### Line breaks -/

/-- The text behind the line break that it starts with. A carriage return breaks no line unless a
line feed follows. -/
def lineBreak? : List Char → Option (List Char)
  | '\n' :: s => some s
  | '\r' :: '\n' :: s => some s
  | _ => none

theorem lineBreak?_length {s rest : List Char} (h : lineBreak? s = some rest) :
    rest.length < s.length := by
  unfold lineBreak? at h
  split at h <;> cases h <;> simp only [List.length_cons] <;> omega

/-- Skips gaps and line breaks. -/
def skipBlankLines : List Char → List Char
  | [] => []
  | c :: s =>
    if isGap c || (lineBreak? (c :: s)).isSome then skipBlankLines s else c :: s

theorem skipBlankLines_length (s : List Char) : (skipBlankLines s).length ≤ s.length := by
  induction s with
  | nil => exact Nat.le_refl _
  | cons c s ih =>
      rw [skipBlankLines]
      split
      · exact Nat.le_succ_of_le ih
      · exact Nat.le_refl _

/-! ### Strings -/

def escapes : List (Char × Char) :=
  [('"', '"'), ('\\', '\\'), ('b', '\x08'), ('t', '\t'), ('n', '\n'), ('f', '\x0c'), ('r', '\r'),
    ('e', '\x1b')]

/-- How many hexadecimal digits follow the letter of an escape. -/
def escapeWidth? : Char → Option Nat
  | 'x' => some 2
  | 'u' => some 4
  | 'U' => some 8
  | _ => none

/-- The character with the given number, if there is one. -/
def scalar? (n : Nat) : Option Char :=
  if n.isValidChar then some (Char.ofNat n) else none

/-- The character of an escape, and the text behind it. -/
def escapeChar : Matcher Char
  | [] => none
  | c :: s =>
    match escapeWidth? c with
    | some width =>
      if s.length < width then none
      else ((Json.hexNumber? (s.take width)).bind scalar?).map fun d => (d, s.drop width)
    | none => (escapes.find? fun e => e.1 == c).map fun e => (e.2, s)

theorem escapeChar_consumes : escapeChar.Consumes 1 := by
  intro s rest d h
  cases s with
  | nil => cases h
  | cons c s =>
      simp only [escapeChar] at h
      split at h
      · rw [Option.ite_none_left_eq_some] at h
        obtain ⟨e, _, hpair⟩ := Option.map_eq_some_iff.mp h.2
        obtain ⟨rfl, rfl⟩ := Prod.mk.inj hpair
        simp
      · obtain ⟨e, _, hpair⟩ := Option.map_eq_some_iff.mp h
        obtain ⟨rfl, rfl⟩ := Prod.mk.inj hpair
        simp

/-- A backslash in front of a line break takes the break and all blanks behind it away. -/
def foldLines? (s : List Char) : Option (List Char) :=
  (lineBreak? (skipGap s)).map skipBlankLines

theorem foldLines?_length {s rest : List Char} (h : foldLines? s = some rest) :
    rest.length ≤ s.length := by
  obtain ⟨t, ht, rfl⟩ := Option.map_eq_some_iff.mp h
  have := skipGap_length s
  have := lineBreak?_length ht
  have := skipBlankLines_length t
  omega

/-- How a string is written. -/
structure StringForm where
  quote : Char
  /-- Backslashes start escapes. -/
  escaped : Bool
  /-- Three quotes stand on either side, and the text may hold line breaks. -/
  multiline : Bool

namespace StringForm

def mark (f : StringForm) : List Char :=
  List.replicate (if f.multiline then 3 else 1) f.quote

/-- The quotes that belong to the text, and what follows the string, if it ends here. In front of
its closing mark a text may end in two quotes. -/
def ending? (f : StringForm) (s : List Char) : Option (List Char × List Char) :=
  let quotes := s.takeWhile fun c => c == f.quote
  let extra := quotes.drop f.mark.length
  if quotes.length < f.mark.length then none
  else if f.multiline then some (extra, s.drop quotes.length)
  else some ([], s.drop 1)

theorem ending?_length {f : StringForm} {s extra rest : List Char}
    (h : f.ending? s = some (extra, rest)) : rest.length ≤ s.length := by
  simp only [ending?, Option.ite_none_left_eq_some] at h
  obtain ⟨-, h⟩ := h
  split at h <;>
    · obtain ⟨rfl, rfl⟩ := Prod.mk.inj (Option.some.inj h)
      simp

/-- The next character of the text, or none where a line is folded. The breaks of its lines stay as
they are. -/
def next (f : StringForm) : Matcher (Option Char)
  | [] => none
  | c :: s =>
    if f.escaped ∧ c = '\\' then
      match (if f.multiline then foldLines? s else none) with
      | some rest => some (none, rest)
      | none => (escapeChar s).map fun (d, rest) => (some d, rest)
    else if isControl c && !(f.multiline && (lineBreak? (c :: s)).isSome) then none
    else some (some c, s)

theorem next_consumes (f : StringForm) : f.next.Consumes 1 := by
  intro s rest d? h
  cases s with
  | nil => cases h
  | cons c s =>
      simp only [next] at h
      split at h
      · split at h
        · rename_i hfold
          obtain ⟨rfl, rfl⟩ := Prod.mk.inj (Option.some.inj h)
          have := foldLines?_length (Option.ite_none_right_eq_some.mp hfold).2
          simpa using this
        · obtain ⟨⟨d, t⟩, hd, hpair⟩ := Option.map_eq_some_iff.mp h
          obtain ⟨rfl, rfl⟩ := Prod.mk.inj hpair
          have hrest : t.length + 1 ≤ s.length := escapeChar_consumes hd
          simp only [List.length_cons]
          omega
      · rw [Option.ite_none_left_eq_some] at h
        obtain ⟨rfl, rfl⟩ := Prod.mk.inj (Option.some.inj h.2)
        simp

/-- The text behind the opening mark; `done` holds what is read of it in reverse order. -/
def body (f : StringForm) (done s : List Char) : Option (List Char × List Char) :=
  match f.ending? s with
  | some (extra, rest) => if extra.length ≤ 2 then some (done.reverse ++ extra, rest) else none
  | none =>
    match h : f.next s with
    | none => none
    | some (c?, rest) =>
      have : rest.length < s.length := f.next_consumes h
      f.body (c?.toList ++ done) rest
termination_by s.length

theorem body_length {f : StringForm} {done s text rest : List Char}
    (h : f.body done s = some (text, rest)) : rest.length ≤ s.length := by
  fun_induction body f done s with
  | case1 done s extra rest' hending hextra =>
      obtain ⟨rfl, rfl⟩ := Prod.mk.inj (Option.some.inj h)
      exact ending?_length hending
  | case2 => cases h
  | case3 => cases h
  | case4 done s hending c? rest' hnext hlt ih => exact Nat.le_trans (ih h) (Nat.le_of_lt hlt)

/-- A line break right behind the opening mark of a multiline string is dropped. -/
def read (f : StringForm) : Matcher String := fun s => do
  let s ← strip? f.mark s
  let s := if f.multiline then (lineBreak? s).getD s else s
  let (body, rest) ← f.body [] s
  return (String.ofList body, rest)

theorem mark_length_pos (f : StringForm) : 0 < f.mark.length := by
  rw [mark, List.length_replicate]
  split <;> decide

theorem read_consumes (f : StringForm) : f.read.Consumes 1 := by
  intro s rest text h
  obtain ⟨t, hmark, h⟩ := Option.bind_eq_some_iff.mp h
  obtain ⟨⟨body, u⟩, hbody, h⟩ := Option.bind_eq_some_iff.mp h
  simp only [Option.pure_def, Option.some.injEq, Prod.mk.injEq] at h
  have := strip?_length hmark
  have := f.mark_length_pos
  have := body_length hbody
  have hbreak : (if f.multiline then (lineBreak? t).getD t else t).length ≤ t.length := by
    cases hline : lineBreak? t with
    | none => simp
    | some v =>
        have := lineBreak?_length hline
        split
        · exact Nat.le_of_lt this
        · exact Nat.le_refl _
  rw [← h.2]
  omega

end StringForm

def singleLineString : Matcher String :=
  (StringForm.read ⟨'"', true, false⟩).orElse (StringForm.read ⟨'\'', false, false⟩)

def multilineString : Matcher String :=
  (StringForm.read ⟨'"', true, true⟩).orElse (StringForm.read ⟨'\'', false, true⟩)

theorem singleLineString_consumes : singleLineString.Consumes 1 :=
  orElse_consumes (StringForm.read_consumes _) (StringForm.read_consumes _)

theorem multilineString_consumes : multilineString.Consumes 1 :=
  orElse_consumes (StringForm.read_consumes _) (StringForm.read_consumes _)

/-! ### Numbers -/

/-- The digits without the underscores, each of which has to stand between two digits. -/
def plainDigits? (isDigit : Char → Bool) (s : List Char) : Option (List Char) :=
  let groups := s.splitOn '_'
  if groups.all fun g => !g.isEmpty && g.all isDigit then some groups.flatten else none

/-- A decimal number has no zeros in front. -/
def wholeDigits? (s : List Char) : Option (List Char) :=
  (plainDigits? Char.isDigit s).filter fun digits => digits.length == 1 || digits.head? != some '0'

def splitSign : List Char → List Char × List Char
  | '+' :: s => ([], s)
  | '-' :: s => (['-'], s)
  | s => ([], s)

def signedDigits? (s : List Char) : Option (List Char) :=
  let (sign, s) := splitSign s
  (wholeDigits? s).map fun digits => sign ++ digits

def plainInteger? (s : List Char) : Option Int :=
  let (sign, s) := splitSign s
  (wholeDigits? s).map fun digits =>
    if sign.isEmpty then digitsValue digits else -digitsValue digits

def digitValue (c : Char) : Nat :=
  (Json.hexValue? c).getD 16

/-- A number with a letter for its base has no sign. -/
def basedInteger? : List Char → Option Int
  | '0' :: letter :: s =>
    let base := match letter with
      | 'x' => 16
      | 'o' => 8
      | 'b' => 2
      | _ => 0
    (plainDigits? (fun c => digitValue c < base) s).map fun digits =>
      digits.foldl (fun n c => base * n + digitValue c) 0
  | _ => none

def integer? (s : List Char) : Option Int :=
  (plainInteger? s).or (basedInteger? s)

/-- The part behind the letter of an exponent. -/
def exponentDigits? (s : List Char) : Option (List Char) :=
  let (sign, s) := splitSign s
  (plainDigits? Char.isDigit s).map fun digits => 'e' :: sign ++ digits

/-- A number with a fraction or an exponent. -/
def float? (s : List Char) : Option (List Char) := do
  let isExponentMark := fun c : Char => c == 'e' || c == 'E'
  let mantissa := s.takeWhile fun c => !isExponentMark c
  let exponent ← match s.dropWhile fun c => !isExponentMark c with
    | [] => some []
    | _ :: digits => exponentDigits? digits
  let whole ← signedDigits? (mantissa.takeWhile fun c => c != '.')
  let fraction ← match mantissa.dropWhile fun c => c != '.' with
    | [] => some []
    | _ :: digits => (plainDigits? Char.isDigit digits).map fun digits => '.' :: digits
  if exponent.isEmpty && fraction.isEmpty then none else some (whole ++ fraction ++ exponent)

/-- The numbers that are not written with digits. -/
def special? (s : List Char) : Option (List Char) :=
  let (sign, s) := splitSign s
  if s = "inf".toList ∨ s = "nan".toList then some (sign ++ s) else none

def isWordChar (c : Char) : Bool :=
  c.isAlphanum || c ∈ ['_', '-', '+', '.', ':']

/-- A value that is a single word: a truth value, a number or a date. No field of a configuration
is a date, so a date reads as an object of a kind that no configuration has. -/
def wordValue? (s : List Char) : Option Json :=
  if s = "true".toList then some (.bool true)
  else if s = "false".toList then some (.bool false)
  else if isDate s then some (.object [("date", .string (String.ofList s))])
  else
    (((integer? s).map fun n => n.repr.toList).or ((float? s).or (special? s))).map fun literal =>
      .number (String.ofList literal)

/-- The word at the start of a text. The time of a day may stand behind a blank. -/
def splitWord (s : List Char) : List Char × List Char :=
  let word := s.takeWhile isWordChar
  match s.dropWhile isWordChar with
  | ' ' :: c :: rest =>
    if c.isDigit && isDate word then
      (word ++ ' ' :: (c :: rest).takeWhile isWordChar, (c :: rest).dropWhile isWordChar)
    else (word, ' ' :: c :: rest)
  | rest => (word, rest)

theorem splitWord_append (s : List Char) : (splitWord s).1 ++ (splitWord s).2 = s := by
  have hword := List.takeWhile_append_dropWhile (p := isWordChar) (l := s)
  unfold splitWord
  split
  · rename_i c rest hrest
    rw [hrest] at hword
    dsimp only
    split
    · rw [List.append_assoc, List.cons_append, List.takeWhile_append_dropWhile]
      exact hword
    · exact hword
  · exact hword

def word : Matcher Json := fun s =>
  let (word, rest) := splitWord s
  (wordValue? word).map fun v => (v, rest)

theorem wordValue?_nil : wordValue? [] = none := rfl

theorem word_consumes : word.Consumes 1 := by
  intro s rest v h
  rw [word] at h
  rcases hw : splitWord s with ⟨w, t⟩
  have happend : w ++ t = s := by rw [← splitWord_append s, hw]
  rw [hw] at h
  obtain ⟨value, hvalue, hpair⟩ := Option.map_eq_some_iff.mp h
  obtain ⟨rfl, rfl⟩ := Prod.mk.inj hpair
  have hword : w ≠ [] := by
    rintro rfl
    rw [wordValue?_nil] at hvalue
    cases hvalue
  have := List.length_pos_iff.mpr hword
  rw [← happend, List.length_append]
  omega

end TextDiagram.Toml
