import TextDiagram.Graph.Kind
import TextDiagram.Matcher

/-!
# Arrows of a flowchart

A plain arrow is a line of dashes, of equals signs or of dots between dashes, with optional heads.
Its label stands in pipes behind it. Otherwise the label stands inside the arrow, between an
opening and a closing part.
-/

namespace TextDiagram.Flow

open Text Matcher

structure Arrow where
  style : EdgeKind
  label : Option String
  deriving DecidableEq, Repr

/-! ### Plain arrows -/

/-- At least one `c`, and then as many as there are. -/
def run? (c : Char) (s : List Char) : Option (List Char) :=
  (strip? [c] s).map fun rest => rest.dropWhile fun d => d == c

/-- A dash, dots, and dashes. -/
def dottedBody? (s : List Char) : Option (List Char) := do
  let s ← strip? ['-'] s
  let s ← run? '.' s
  run? '-' s

/-- Two or more `c`. -/
def evenBody? (c : Char) (s : List Char) : Option (List Char) := do
  let s ← strip? [c] s
  run? c s

def arrowBody : Matcher EdgeKind := fun s =>
  match dottedBody? s, evenBody? '-' s, evenBody? '=' s with
  | some rest, _, _ => some (.dashed, rest)
  | none, some rest, _ => some (.solid, rest)
  | none, none, some rest => some (.thick, rest)
  | none, none, none => none

/-- The head at the start of an arrow, which counts only in front of a dash or an equals sign. -/
def skipHead : List Char → List Char
  | c :: d :: s => if c ∈ ['<', 'o', 'x'] ∧ d ∈ ['-', '='] then d :: s else c :: d :: s
  | s => s

/-- The head at the end of an arrow. An `o` or `x` at which a name starts is no head. -/
def skipPoint : List Char → List Char
  | [] => []
  | c :: s => if c = '>' ∨ c ∈ ['o', 'x'] ∧ startsInName s = false then s else c :: s

def plainArrow : Matcher EdgeKind := fun s =>
  (arrowBody (skipHead s)).map fun (style, rest) => (style, skipPoint rest)

/-- The label between pipes that may follow a plain arrow. -/
def pipeLabel : Matcher String := fun s =>
  (between "|" "|" (skipGap s)).map fun (body, rest) => (restText body, rest)

def pipedArrow : Matcher Arrow := fun s => do
  let (style, s) ← plainArrow s
  let (label, s) := optional pipeLabel s
  return (⟨style, label⟩, s)

/-! ### Arrows around a label -/

/-- How an arrow with a label inside is written. -/
structure InlineForm where
  opening : String
  /-- Where two closings start at the same place, the first of the list is meant. -/
  closings : List String
  style : EdgeKind

def inlineForms : List InlineForm :=
  [⟨"--", ["-->", "---"], .solid⟩, ⟨"-.", [".->", ".-"], .dashed⟩, ⟨"==", ["==>", "==="], .thick⟩]

def isArrowChar (c : Char) : Bool :=
  c ∈ ['-', '.', '=', '>']

def startsInArrow : List Char → Bool
  | [] => false
  | c :: _ => isArrowChar c

/-- An opening that goes on as an arrow opens no label, and a label holds more than blanks. The
closing part may be longer than its spelling. -/
def InlineForm.arrow (form : InlineForm) : Matcher Arrow := fun s => do
  let s ← (strip? form.opening.toList s).filter fun rest => !startsInArrow rest
  let (body, rest) ← cutAny? (form.closings.map String.toList) s
  if (trim body).isEmpty then none
  else some (⟨form.style, some (restText body)⟩, rest.dropWhile isArrowChar)

def inlineArrow : Matcher Arrow := fun s =>
  inlineForms.findSome? fun form => form.arrow s

/-- The label inside an arrow is tried before the plain arrow. -/
def arrow : Matcher Arrow :=
  inlineArrow.orElse pipedArrow

/-! ### Every arrow is two characters or longer -/

theorem dropWhile_length (p : Char → Bool) (s : List Char) :
    (s.dropWhile p).length ≤ s.length :=
  (List.dropWhile_sublist p).length_le

theorem run?_length {c : Char} {s rest : List Char} (h : run? c s = some rest) :
    rest.length + 1 ≤ s.length := by
  obtain ⟨t, ht, rfl⟩ := Option.map_eq_some_iff.mp h
  have hstrip := strip?_length ht
  have hdrop := dropWhile_length (fun d => d == c) t
  simp only [List.length_cons, List.length_nil] at hstrip
  omega

theorem evenBody?_length {c : Char} {s rest : List Char} (h : evenBody? c s = some rest) :
    rest.length + 2 ≤ s.length := by
  obtain ⟨t, ht, hrun⟩ := Option.bind_eq_some_iff.mp h
  have hstrip := strip?_length ht
  have := run?_length hrun
  simp only [List.length_cons, List.length_nil] at hstrip
  omega

theorem dottedBody?_length {s rest : List Char} (h : dottedBody? s = some rest) :
    rest.length + 3 ≤ s.length := by
  obtain ⟨t, ht, h⟩ := Option.bind_eq_some_iff.mp h
  obtain ⟨u, hu, hrun⟩ := Option.bind_eq_some_iff.mp h
  have hstrip := strip?_length ht
  have := run?_length hu
  have := run?_length hrun
  simp only [List.length_cons, List.length_nil] at hstrip
  omega

theorem arrowBody_consumes : arrowBody.Consumes 2 := by
  intro s rest style h
  unfold arrowBody at h
  split at h
  · rename_i hbody
    have := dottedBody?_length hbody
    simp only [Option.some.injEq, Prod.mk.injEq] at h
    rw [← h.2]
    omega
  · rename_i hbody
    simp only [Option.some.injEq, Prod.mk.injEq] at h
    rw [← h.2]
    exact evenBody?_length hbody
  · rename_i hbody
    simp only [Option.some.injEq, Prod.mk.injEq] at h
    rw [← h.2]
    exact evenBody?_length hbody
  · simp at h

theorem skipHead_length (s : List Char) : (skipHead s).length ≤ s.length := by
  unfold skipHead
  split
  · split <;> simp
  · exact Nat.le_refl _

theorem skipPoint_length (s : List Char) : (skipPoint s).length ≤ s.length := by
  unfold skipPoint
  split
  · exact Nat.le_refl _
  · split <;> simp

theorem plainArrow_consumes : plainArrow.Consumes 2 := by
  intro s rest style h
  obtain ⟨⟨k, t⟩, hbody, hpair⟩ := Option.map_eq_some_iff.mp h
  obtain ⟨rfl, rfl⟩ := Prod.mk.inj hpair
  have := arrowBody_consumes hbody
  have := skipHead_length s
  have := skipPoint_length t
  omega

theorem pipeLabel_consumes : pipeLabel.Consumes 2 := by
  intro s rest label h
  obtain ⟨⟨body, t⟩, hbody, hpair⟩ := Option.map_eq_some_iff.mp h
  obtain ⟨rfl, rfl⟩ := Prod.mk.inj hpair
  have : t.length + 2 ≤ (skipGap s).length := between_consumes "|" "|" hbody
  have := skipGap_length s
  omega

theorem pipedArrow_consumes : pipedArrow.Consumes 2 := by
  intro s rest a h
  obtain ⟨⟨style, t⟩, hplain, h⟩ := Option.bind_eq_some_iff.mp h
  simp only [Option.pure_def, Option.some.injEq, Prod.mk.injEq] at h
  have := plainArrow_consumes hplain
  have := optional_length pipeLabel_consumes t
  rw [← h.2]
  omega

theorem inlineArrow_consumes : inlineArrow.Consumes 2 := by
  intro s rest a h
  obtain ⟨form, hform, h⟩ := List.exists_of_findSome?_eq_some h
  obtain ⟨t, ht, h⟩ := Option.bind_eq_some_iff.mp h
  obtain ⟨⟨body, u⟩, hcut, h⟩ := Option.bind_eq_some_iff.mp h
  obtain ⟨hopen, _⟩ := Option.filter_eq_some_iff.mp ht
  obtain ⟨mark, _, heq⟩ := exists_mark_of_cutAny? hcut
  simp only [Option.ite_none_left_eq_some, Option.some.injEq, Prod.mk.injEq] at h
  have hstrip := strip?_length hopen
  have hlen : form.opening.toList.length = 2 := by
    simp only [inlineForms, List.mem_cons, List.not_mem_nil, or_false] at hform
    rcases hform with rfl | rfl | rfl <;> rfl
  have := dropWhile_length isArrowChar u
  rw [← h.2.2]
  simp only [heq, List.length_append] at hstrip
  omega

theorem arrow_consumes : arrow.Consumes 2 :=
  orElse_consumes inlineArrow_consumes pipedArrow_consumes

end TextDiagram.Flow
