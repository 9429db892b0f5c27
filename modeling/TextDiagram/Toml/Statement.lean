import TextDiagram.Toml.Scalar

/-!
# Statements of a configuration file

A line of a configuration file opens a table, opens the next table of a list, or gives a value to a
key. Comments start with a hash mark.
-/

namespace TextDiagram.Toml

open Text Matcher

inductive Value where
  | scalar (v : Json)
  | array (items : List Value)
  | table (fields : List (List String × Value))

inductive Statement where
  | openTable (path : List String)
  | nextTable (path : List String)
  | assign (path : List String) (value : Value)

/-! ### Keys -/

def isKeyChar (c : Char) : Bool :=
  c.isAlphanum || c == '_' || c == '-'

def bareKey : Matcher String := fun s =>
  let body := s.takeWhile isKeyChar
  if body.isEmpty then none else some (String.ofList body, s.dropWhile isKeyChar)

theorem bareKey_consumes : bareKey.Consumes 1 := by
  intro s rest text h
  simp only [bareKey, Option.ite_none_left_eq_some, Option.some.injEq, Prod.mk.injEq,
    List.isEmpty_iff] at h
  obtain ⟨hne, rfl, rfl⟩ := h
  exact dropWhile_length_lt hne

def keyPart : Matcher String :=
  singleLineString.orElse bareKey

theorem keyPart_consumes : keyPart.Consumes 1 :=
  orElse_consumes singleLineString_consumes bareKey_consumes

/-- At most the given number of parts of a key, with points between them and gaps around the
points. -/
def keyParts : Nat → Matcher (List String)
  | 0, _ => none
  | n + 1, s => do
    let (part, s) ← keyPart s
    match strip? ['.'] (skipGap s) with
    | none => some ([part], s)
    | some s =>
      let (parts, s) ← keyParts n (skipGap s)
      return (part :: parts, s)

theorem keyParts_consumes (n : Nat) : (keyParts n).Consumes 1 := by
  induction n with
  | zero =>
      intro s rest parts h
      cases h
  | succ n ih =>
      intro s rest parts h
      obtain ⟨⟨part, t⟩, hpart, h⟩ := Option.bind_eq_some_iff.mp h
      have hread := keyPart_consumes hpart
      cases hpoint : strip? ['.'] (skipGap t) with
      | none =>
          simp only [hpoint, Option.some.injEq, Prod.mk.injEq] at h
          exact h.2 ▸ hread
      | some u =>
          simp only [hpoint] at h
          obtain ⟨⟨others, v⟩, hothers, h⟩ := Option.bind_eq_some_iff.mp h
          simp only [Option.pure_def, Option.some.injEq, Prod.mk.injEq] at h
          have := ih hothers
          have := strip?_length hpoint
          have := skipGap_length t
          have := skipGap_length u
          rw [← h.2]
          omega

/-- How many parts a key may have, and how many arrays and tables may be around a value in its
statement. -/
def nestingLimit : Nat :=
  80

def key : Matcher (List String) :=
  keyParts nestingLimit

theorem key_consumes : key.Consumes 1 :=
  keyParts_consumes nestingLimit

/-! ### Blanks -/

/-- The line break, or the end of the text, at which a comment ends. No comment holds a control
character. -/
def commentEnd? : List Char → Option (List Char)
  | [] => some []
  | c :: s =>
    if (lineBreak? (c :: s)).isSome then some (c :: s)
    else if isControl c then none
    else commentEnd? s

theorem commentEnd?_length {s rest : List Char} (h : commentEnd? s = some rest) :
    rest.length ≤ s.length := by
  fun_induction commentEnd? s with
  | case1 => simp_all
  | case2 c s hbreak => simp_all
  | case3 => cases h
  | case4 c s hbreak hcontrol ih => exact Nat.le_succ_of_le (ih h)

/-- The text behind a comment that may start here. -/
def skipComment? (s : List Char) : Option (List Char) :=
  match strip? ['#'] s with
  | none => some s
  | some s => commentEnd? s

theorem skipComment?_length {s rest : List Char} (h : skipComment? s = some rest) :
    rest.length ≤ s.length := by
  unfold skipComment? at h
  split at h
  · obtain rfl := Option.some.inj h
    exact Nat.le_refl _
  · rename_i t hmark
    have := strip?_length hmark
    have := commentEnd?_length h
    omega

/-- Skips gaps, comments and line breaks. -/
def skipLines? (s : List Char) : Option (List Char) :=
  match hcomment : skipComment? (skipGap s) with
  | none => none
  | some t =>
    match hbreak : lineBreak? t with
    | none => some t
    | some rest =>
      have : rest.length < s.length := by
        have := skipGap_length s
        have := skipComment?_length hcomment
        have := lineBreak?_length hbreak
        omega
      skipLines? rest
termination_by s.length

theorem skipLines?_length {s rest : List Char} (h : skipLines? s = some rest) :
    rest.length ≤ s.length := by
  fun_induction skipLines? s with
  | case1 => cases h
  | case2 s t hcomment hbreak =>
      obtain rfl := Option.some.inj h
      have := skipGap_length s
      have := skipComment?_length hcomment
      omega
  | case3 s t hcomment rest' hbreak hlt ih =>
      have := ih h
      omega

/-! ### Values -/

def stringValue : Matcher Json := fun s =>
  (multilineString.orElse singleLineString s).map fun (text, rest) => (.string text, rest)

def scalar : Matcher Value := fun s =>
  (stringValue.orElse word s).map fun (v, rest) => (.scalar v, rest)

theorem scalar_consumes : scalar.Consumes 1 := by
  have hstring : stringValue.Consumes 1 :=
    map_consumes (orElse_consumes multilineString_consumes singleLineString_consumes) _
  exact map_consumes (orElse_consumes hstring word_consumes) _

section Listed

variable {α : Type}

/-- A part of a list and the mark behind it: a comma, after which the list goes on, or the closing
mark. -/
def listPart (closing : Char) (m : Matcher α) : Matcher (α × Bool) := fun s => do
  let (a, s) ← m s
  let s ← skipLines? s
  match strip? [','] s with
  | some s => some ((a, true), s)
  | none => (strip? [closing] s).map fun s => ((a, false), s)

theorem listPart_consumes {closing : Char} {m : Matcher α} (hm : m.Consumes 1) :
    (listPart closing m).Consumes 1 := by
  intro s rest part h
  obtain ⟨⟨a, t⟩, ha, h⟩ := Option.bind_eq_some_iff.mp h
  obtain ⟨u, hlines, h⟩ := Option.bind_eq_some_iff.mp h
  have := hm ha
  have := skipLines?_length hlines
  cases hcomma : strip? [','] u with
  | some v =>
      simp only [hcomma, Option.some.injEq, Prod.mk.injEq] at h
      have := strip?_length hcomma
      rw [← h.2]
      omega
  | none =>
      simp only [hcomma] at h
      obtain ⟨v, hclosing, hpair⟩ := Option.map_eq_some_iff.mp h
      obtain ⟨rfl, rfl⟩ := Prod.mk.inj hpair
      have := strip?_length hclosing
      omega

theorem listPart_behind_lines {closing : Char} {m : Advancing α} {s t rest : List Char} {a : α}
    {more : Bool} (hlines : skipLines? s = some t)
    (hpart : listPart closing m.1 t = some ((a, more), rest)) : rest.length < s.length := by
  have := skipLines?_length hlines
  have := listPart_consumes m.2 hpart
  omega

/-- The parts of a list up to its closing mark. A comma may stand behind the last one, and line
breaks and comments around each of them. -/
def listed (closing : Char) (m : Advancing α) (s : List Char) : Option (List α × List Char) :=
  match hlines : skipLines? s with
  | none => none
  | some t =>
    match strip? [closing] t with
    | some rest => some ([], rest)
    | none =>
      match hpart : listPart closing m.1 t with
      | none => none
      | some ((a, more), rest) =>
        have : rest.length < s.length := listPart_behind_lines hlines hpart
        if more then (listed closing m rest).map fun (others, rest) => (a :: others, rest)
        else some ([a], rest)
termination_by s.length

theorem listed_length {closing : Char} {m : Advancing α} {s rest : List Char} {as : List α}
    (h : listed closing m s = some (as, rest)) : rest.length ≤ s.length := by
  fun_induction listed closing m s generalizing as with
  | case1 => cases h
  | case2 s t hlines rest' hclosing =>
      obtain ⟨-, rfl⟩ := Prod.mk.inj (Option.some.inj h)
      have := skipLines?_length hlines
      have := strip?_length hclosing
      omega
  | case3 => cases h
  | case4 s t hlines hclosing a rest' hpart hlt ih =>
      obtain ⟨⟨others, u⟩, hothers, hpair⟩ := Option.map_eq_some_iff.mp h
      obtain ⟨-, rfl⟩ := Prod.mk.inj hpair
      have := ih hothers
      omega
  | case5 s t hlines hclosing a more rest' hpart hlt hlast =>
      obtain ⟨-, rfl⟩ := Prod.mk.inj (Option.some.inj h)
      exact Nat.le_of_lt hlt

/-- A list between its marks. -/
def enclosed (opening closing : Char) (m : Advancing α) : Advancing (List α) where
  val := fun s => (strip? [opening] s).bind (listed closing m)
  property := by
    intro s rest as h
    obtain ⟨t, hopening, hlisted⟩ := Option.bind_eq_some_iff.mp h
    have hread : s.length = 1 + t.length := strip?_length hopening
    have := listed_length hlisted
    omega

end Listed

/-- A field of an inline table. Line breaks may stand around its equals sign. -/
def field (value : Advancing Value) : Advancing (List String × Value) where
  val := fun s => do
    let (path, s) ← key s
    let s ← skipLines? s
    let s ← strip? ['='] s
    let s ← skipLines? s
    let (v, s) ← value.1 s
    return ((path, v), s)
  property := by
    intro s rest a h
    obtain ⟨⟨path, t⟩, hkey, h⟩ := Option.bind_eq_some_iff.mp h
    obtain ⟨u, hbefore, h⟩ := Option.bind_eq_some_iff.mp h
    obtain ⟨v, hequals, h⟩ := Option.bind_eq_some_iff.mp h
    obtain ⟨w, hbehind, h⟩ := Option.bind_eq_some_iff.mp h
    obtain ⟨⟨x, y⟩, hvalue, h⟩ := Option.bind_eq_some_iff.mp h
    simp only [Option.pure_def, Option.some.injEq, Prod.mk.injEq] at h
    have := key_consumes hkey
    have := skipLines?_length hbefore
    have := strip?_length hequals
    have := skipLines?_length hbehind
    have := value.2 hvalue
    rw [← h.2]
    omega

def array (value : Advancing Value) : Matcher Value := fun s =>
  ((enclosed '[' ']' value).1 s).map fun (items, rest) => (.array items, rest)

def inlineTable (value : Advancing Value) : Matcher Value := fun s =>
  ((enclosed '\x7b' '\x7d' (field value)).1 s).map fun (fields, rest) => (.table fields, rest)

/-- A value with at most the given number of arrays and tables inside one another. -/
def valueWithin : Nat → Advancing Value
  | 0 => ⟨scalar, scalar_consumes⟩
  | depth + 1 =>
    let inner := valueWithin depth
    ⟨(array inner).orElse ((inlineTable inner).orElse scalar),
      orElse_consumes (map_consumes (enclosed _ _ _).2 _)
        (orElse_consumes (map_consumes (enclosed _ _ _).2 _) scalar_consumes)⟩

def value : Matcher Value :=
  (valueWithin nestingLimit).1

/-! ### Lines -/

/-- A path between brackets. -/
def header (opening closing : String) : Matcher (List String) := fun s => do
  let s ← strip? opening.toList s
  let (path, s) ← key (skipGap s)
  let s ← strip? closing.toList (skipGap s)
  return (path, s)

theorem header_consumes (opening closing : String) : (header opening closing).Consumes 1 := by
  intro s rest path h
  obtain ⟨t, hopening, h⟩ := Option.bind_eq_some_iff.mp h
  obtain ⟨⟨path', u⟩, hkey, h⟩ := Option.bind_eq_some_iff.mp h
  obtain ⟨v, hclosing, h⟩ := Option.bind_eq_some_iff.mp h
  simp only [Option.pure_def, Option.some.injEq, Prod.mk.injEq] at h
  have := strip?_length hopening
  have := skipGap_length t
  have := key_consumes hkey
  have := skipGap_length u
  have := strip?_length hclosing
  rw [← h.2]
  omega

def assignment : Matcher Statement := fun s => do
  let (path, s) ← key s
  let s ← strip? ['='] (skipGap s)
  let (v, s) ← value (skipGap s)
  return (.assign path v, s)

theorem assignment_consumes : assignment.Consumes 1 := by
  intro s rest a h
  obtain ⟨⟨path, t⟩, hkey, h⟩ := Option.bind_eq_some_iff.mp h
  obtain ⟨u, hequals, h⟩ := Option.bind_eq_some_iff.mp h
  obtain ⟨⟨v, w⟩, hvalue, h⟩ := Option.bind_eq_some_iff.mp h
  simp only [Option.pure_def, Option.some.injEq, Prod.mk.injEq] at h
  have := key_consumes hkey
  have := skipGap_length t
  have := strip?_length hequals
  have := skipGap_length u
  have := (valueWithin nestingLimit).2 hvalue
  rw [← h.2]
  omega

def statement : Matcher Statement := fun s =>
  match header "[[" "]]" s, header "[" "]" s with
  | some (path, rest), _ => some (.nextTable path, rest)
  | none, some (path, rest) => some (.openTable path, rest)
  | none, none => assignment s

theorem statement_consumes : statement.Consumes 1 := by
  intro s rest a h
  unfold statement at h
  split at h
  · rename_i hheader
    obtain ⟨-, rfl⟩ := Prod.mk.inj (Option.some.inj h)
    exact header_consumes _ _ hheader
  · rename_i hheader
    obtain ⟨-, rfl⟩ := Prod.mk.inj (Option.some.inj h)
    exact header_consumes _ _ hheader
  · exact assignment_consumes h

/-- Behind a statement nothing but a comment may stand on its line. -/
def endOfLine? (s : List Char) : Option (List Char) := do
  let s ← skipComment? (skipGap s)
  if s.isEmpty then some s else lineBreak? s

theorem endOfLine?_length {s rest : List Char} (h : endOfLine? s = some rest) :
    rest.length ≤ s.length := by
  obtain ⟨t, hcomment, h⟩ := Option.bind_eq_some_iff.mp h
  have := skipGap_length s
  have := skipComment?_length hcomment
  split at h
  · obtain rfl := Option.some.inj h
    omega
  · have := lineBreak?_length h
    omega

def statementLine : Matcher Statement := fun s => do
  let (first, s) ← statement s
  let s ← endOfLine? s
  return (first, s)

theorem statementLine_consumes : statementLine.Consumes 1 := by
  intro s rest a h
  obtain ⟨⟨first, t⟩, hstatement, h⟩ := Option.bind_eq_some_iff.mp h
  obtain ⟨u, hend, h⟩ := Option.bind_eq_some_iff.mp h
  simp only [Option.pure_def, Option.some.injEq, Prod.mk.injEq] at h
  have := statement_consumes hstatement
  have := endOfLine?_length hend
  rw [← h.2]
  omega

def statementsFrom? (s : List Char) : Option (List Statement) :=
  match hlines : skipLines? s with
  | none => none
  | some t =>
    if t.isEmpty then some []
    else
      match hline : statementLine t with
      | none => none
      | some (first, rest) =>
        have : rest.length < s.length := by
          have := skipLines?_length hlines
          have := statementLine_consumes hline
          omega
        (statementsFrom? rest).map fun others => first :: others
termination_by s.length

/-- A byte order mark may stand in front of the text. -/
def statements? (s : List Char) : Option (List Statement) :=
  statementsFrom? ((strip? ['\ufeff'] s).getD s)

end TextDiagram.Toml
