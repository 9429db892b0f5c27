import TextDiagram.Text.Alphanumeric
import TextDiagram.Text.Line

/-!
# Matchers

A matcher reads a value off the front of a text and leaves the rest of the text, or does not fit
and leaves everything as it is. This module holds the matchers that all dialects share: gaps,
words, quoted texts and names.
-/

namespace TextDiagram

open Text

abbrev Matcher (α : Type) := List Char → Option (α × List Char)

namespace Matcher

variable {α : Type}

/-- Whenever the matcher fits, it reads at least `n` characters. -/
def Consumes (m : Matcher α) (n : Nat) : Prop :=
  ∀ ⦃s rest : List Char⦄ ⦃a : α⦄, m s = some (a, rest) → rest.length + n ≤ s.length

theorem Consumes.mono {m : Matcher α} {k n : Nat} (hm : m.Consumes n) (hkn : k ≤ n) :
    m.Consumes k := by
  intro s rest a h
  have := hm h
  omega

/-- Matchers that never fit without reading something, so that they can be repeated. -/
abbrev Advancing (α : Type) := { m : Matcher α // m.Consumes 1 }

/-- A matcher that does not fit reads nothing. -/
def optional (m : Matcher α) (s : List Char) : Option α × List Char :=
  match m s with
  | some (a, rest) => (some a, rest)
  | none => (none, s)

theorem optional_of_eq_none {m : Matcher α} {s : List Char} (h : m s = none) :
    optional m s = (none, s) := by
  rw [optional, h]

theorem optional_of_eq_some {m : Matcher α} {s rest : List Char} {a : α}
    (h : m s = some (a, rest)) : optional m s = (some a, rest) := by
  rw [optional, h]

theorem optional_length {m : Matcher α} {n : Nat} (hm : m.Consumes n) (s : List Char) :
    (optional m s).2.length ≤ s.length := by
  unfold optional
  split
  · rename_i a rest h
    exact Nat.le_trans (Nat.le_add_right _ n) (hm h)
  · exact Nat.le_refl _

theorem map_consumes {β : Type} {m : Matcher α} {n : Nat} (hm : m.Consumes n) (f : α → β) :
    Consumes (fun s => (m s).map fun (a, rest) => (f a, rest)) n := by
  intro s rest b h
  obtain ⟨⟨a, t⟩, ha, hpair⟩ := Option.map_eq_some_iff.mp h
  obtain ⟨rfl, rfl⟩ := Prod.mk.inj hpair
  exact hm ha

/-- The second matcher is asked when the first does not fit. -/
def orElse (m₁ m₂ : Matcher α) : Matcher α := fun s =>
  match m₁ s with
  | some result => some result
  | none => m₂ s

theorem orElse_eq_some_iff {m₁ m₂ : Matcher α} {s : List Char} {result : α × List Char} :
    m₁.orElse m₂ s = some result ↔ m₁ s = some result ∨ m₁ s = none ∧ m₂ s = some result := by
  unfold orElse
  cases m₁ s <;> simp

theorem orElse_consumes {m₁ m₂ : Matcher α} {n : Nat} (h₁ : m₁.Consumes n) (h₂ : m₂.Consumes n) :
    (m₁.orElse m₂).Consumes n := by
  intro s rest a h
  rcases orElse_eq_some_iff.mp h with h | ⟨_, h⟩
  · exact h₁ h
  · exact h₂ h

/-! ### Gaps -/

/-- Only spaces and tabs stand between the parts of a statement. -/
def isGap (c : Char) : Bool :=
  c == ' ' || c == '\t'

def skipGap (s : List Char) : List Char :=
  s.dropWhile isGap

/-- At least one space or tab. -/
def gap? : List Char → Option (List Char)
  | [] => none
  | c :: s => if isGap c then some (skipGap s) else none

theorem skipGap_length (s : List Char) : (skipGap s).length ≤ s.length :=
  (List.dropWhile_sublist _).length_le

/-! ### Words -/

/-- The characters of a name that is written without quotes. -/
def isNameChar (c : Char) : Bool :=
  isAlphanumeric c || c == '_'

def startsInName : List Char → Bool
  | [] => false
  | c :: _ => isNameChar c

/-- The given word, when no longer name starts with it. -/
def word? (w : String) (s : List Char) : Option (List Char) :=
  (strip? w.toList s).filter fun rest => !startsInName rest

/-- The first of the given words that fits. -/
def anyWord? (ws : List String) (s : List Char) : Option (List Char) :=
  ws.findSome? fun w => word? w s

/-! ### Enclosed texts -/

/-- The text between an opening mark and the nearest closing mark. -/
def between (opening closing : String) : Matcher (List Char) := fun s => do
  let s ← strip? opening.toList s
  cut? closing.toList s

theorem between_length {opening closing : String} {s body rest : List Char}
    (h : between opening closing s = some (body, rest)) :
    s.length = opening.toList.length + body.length + closing.toList.length + rest.length := by
  obtain ⟨t, ht, hcut⟩ := Option.bind_eq_some_iff.mp h
  have hopen := strip?_length ht
  have hclose := cut?_length hcut
  omega

theorem between_consumes (opening closing : String) :
    (between opening closing).Consumes (opening.toList.length + closing.toList.length) := by
  intro s rest body h
  have := between_length h
  omega

/-- The text between two equal quotes on one line. -/
def quotedBy (quote : Char) : Matcher (List Char)
  | [] => none
  | c :: s =>
    if c = quote then
      let inside := fun d : Char => d != quote && d != '\n'
      (strip? [quote] (s.dropWhile inside)).map fun rest => (s.takeWhile inside, rest)
    else none

theorem quotedBy_length {quote : Char} {s body rest : List Char}
    (h : quotedBy quote s = some (body, rest)) : s.length = body.length + 2 + rest.length := by
  cases s with
  | nil => simp [quotedBy] at h
  | cons c s =>
      simp only [quotedBy, Option.ite_none_right_eq_some] at h
      obtain ⟨rest', hrest, hpair⟩ := Option.map_eq_some_iff.mp h.2
      obtain ⟨rfl, rfl⟩ := Prod.mk.inj hpair
      have hdrop := strip?_length hrest
      have hsplit := congrArg List.length (List.takeWhile_append_dropWhile
        (p := fun d : Char => d != quote && d != '\n') (l := s))
      simp only [List.length_append, List.length_cons, List.length_nil] at hdrop hsplit ⊢
      omega

theorem quotedBy_consumes (quote : Char) : (quotedBy quote).Consumes 2 := by
  intro s rest body h
  have := quotedBy_length h
  omega

/-- Text in double quotes, or else in single quotes. -/
def quoted : Matcher (List Char) :=
  (quotedBy '"').orElse (quotedBy '\'')

theorem quoted_consumes : quoted.Consumes 2 :=
  orElse_consumes (quotedBy_consumes '"') (quotedBy_consumes '\'')

/-! ### Names -/

/-- A run of name characters, as long as possible. -/
def bareName : Matcher (List Char) := fun s =>
  let body := s.takeWhile isNameChar
  if body.isEmpty then none else some (body, s.dropWhile isNameChar)

/-- What stands behind a run that is not empty is shorter. -/
theorem dropWhile_length_lt {p : Char → Bool} {s : List Char} (h : s.takeWhile p ≠ []) :
    (s.dropWhile p).length < s.length := by
  have hsplit := congrArg List.length (List.takeWhile_append_dropWhile (p := p) (l := s))
  have := List.length_pos_iff.mpr h
  rw [List.length_append] at hsplit
  omega

theorem bareName_consumes : bareName.Consumes 1 := by
  intro s rest body h
  simp only [bareName, Option.ite_none_left_eq_some, Option.some.injEq, Prod.mk.injEq,
    List.isEmpty_iff] at h
  obtain ⟨hne, rfl, rfl⟩ := h
  exact dropWhile_length_lt hne

/-- The trimmed text of a quotation that holds more than blanks. -/
def quotedName : Matcher (List Char) := fun s => do
  let (body, rest) ← quoted s
  if (trim body).isEmpty then none else some (trim body, rest)

theorem quotedName_consumes : quotedName.Consumes 2 := by
  intro s rest body h
  obtain ⟨⟨text, rest'⟩, hq, h⟩ := Option.bind_eq_some_iff.mp h
  simp only [Option.ite_none_left_eq_some, Option.some.injEq, Prod.mk.injEq] at h
  obtain ⟨_, _, rfl⟩ := h
  exact quoted_consumes hq

/-- A name, in quotes or bare. -/
def name : Matcher String := fun s =>
  (quotedName.orElse bareName s).map fun (body, rest) => (String.ofList body, rest)

theorem name_consumes : name.Consumes 1 :=
  map_consumes (orElse_consumes (quotedName_consumes.mono (by decide)) bareName_consumes) _

/-! ### Texts at the end of a statement -/

def restText (s : List Char) : String :=
  String.ofList (trim s)

/-- What follows a colon, gaps before the colon allowed. -/
def afterColon? (s : List Char) : Option (List Char) :=
  strip? [':'] (skipGap s)

/-- The text after a colon; a blank text counts as none. -/
def colonText (s : List Char) : Option String :=
  ((afterColon? s).map restText).filter fun text => !text.isEmpty

/-- A text without the pair of equal quotes that surrounds it, trimmed inside and outside. -/
def unquote (s : List Char) : List Char :=
  let text := trim s
  let inside? := fun quote : Char => do
    let body ← strip? [quote] text
    let last ← body.getLast?
    if last = quote then some (trim body.dropLast) else none
  (inside? '"' <|> inside? '\'').getD text

/-- The unquoted text, unless nothing is left of it. -/
def unquotedText? (s : List Char) : Option String :=
  if (unquote s).isEmpty then none else some (String.ofList (unquote s))

/-- A text in double angle brackets, trimmed. -/
def stereotype : Matcher String := fun s =>
  (between "<<" ">>" s).map fun (body, rest) => (restText body, rest)

end Matcher

end TextDiagram
