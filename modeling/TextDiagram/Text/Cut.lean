/-!
# Finding a mark in a text

`strip?` takes a mark off the front of a text, `cutAny?` divides a text at the first occurrence of
one of several marks, and `occurs` decides whether a mark occurs at all.
-/

namespace TextDiagram.Text

/-- The text that follows `mark` at the front of a text. -/
def strip? : List Char → List Char → Option (List Char)
  | [], s => some s
  | _ :: _, [] => none
  | c :: mark, d :: s => if c = d then strip? mark s else none

@[simp] theorem strip?_nil (s : List Char) : strip? [] s = some s := by
  cases s <;> rfl

theorem strip?_eq_some_iff {mark s rest : List Char} :
    strip? mark s = some rest ↔ s = mark ++ rest := by
  fun_induction strip? mark s with
  | case1 s => simp [eq_comm]
  | case2 c mark => simp
  | case3 mark c s ih => simp [ih]
  | case4 c mark d s hne => simp [Ne.symm hne]

@[simp] theorem strip?_append (mark rest : List Char) : strip? mark (mark ++ rest) = some rest :=
  strip?_eq_some_iff.mpr rfl

theorem strip?_length {mark s rest : List Char} (h : strip? mark s = some rest) :
    s.length = mark.length + rest.length := by
  simp [strip?_eq_some_iff.mp h]

/-- The text that follows the first of the marks that stands at the front of a text. -/
def stripAny? (marks : List (List Char)) (s : List Char) : Option (List Char) :=
  marks.findSome? fun mark => strip? mark s

/-- The text before the first place where one of the marks stands, and the text after that mark.
Of two marks at the same place the one that comes first in the list counts. -/
def cutAny? (marks : List (List Char)) : List Char → Option (List Char × List Char)
  | [] => (stripAny? marks []).map fun after => ([], after)
  | c :: s =>
    match stripAny? marks (c :: s) with
    | some after => some ([], after)
    | none => (cutAny? marks s).map fun (before, after) => (c :: before, after)

theorem exists_mark_of_cutAny? {marks : List (List Char)} {s before after : List Char}
    (h : cutAny? marks s = some (before, after)) : ∃ m ∈ marks, s = before ++ m ++ after := by
  induction s generalizing before with
  | nil =>
      obtain ⟨rest, hrest, hpair⟩ := Option.map_eq_some_iff.mp h
      obtain ⟨rfl, rfl⟩ := Prod.mk.inj hpair
      obtain ⟨m, hmem, hstrip⟩ := List.exists_of_findSome?_eq_some hrest
      exact ⟨m, hmem, by simpa using strip?_eq_some_iff.mp hstrip⟩
  | cons c s ih =>
      cases hs : stripAny? marks (c :: s) with
      | some rest =>
          simp only [cutAny?, hs, Option.some.injEq, Prod.mk.injEq] at h
          obtain ⟨rfl, rfl⟩ := h
          obtain ⟨m, hmem, hstrip⟩ := List.exists_of_findSome?_eq_some hs
          exact ⟨m, hmem, by simpa using strip?_eq_some_iff.mp hstrip⟩
      | none =>
          simp only [cutAny?, hs] at h
          obtain ⟨⟨b, a⟩, hba, hpair⟩ := Option.map_eq_some_iff.mp h
          obtain ⟨rfl, rfl⟩ := Prod.mk.inj hpair
          obtain ⟨m, hmem, heq⟩ := ih hba
          exact ⟨m, hmem, by simp [heq]⟩

/-- The text before the first occurrence of `mark`, and the text after that occurrence. -/
def cut? (mark s : List Char) : Option (List Char × List Char) :=
  cutAny? [mark] s

theorem eq_append_of_cut? {mark s before after : List Char}
    (h : cut? mark s = some (before, after)) : s = before ++ mark ++ after := by
  obtain ⟨m, hmem, heq⟩ := exists_mark_of_cutAny? h
  rwa [List.mem_singleton.mp hmem] at heq

theorem cut?_length {mark s before after : List Char} (h : cut? mark s = some (before, after)) :
    s.length = before.length + mark.length + after.length := by
  simp [eq_append_of_cut? h, Nat.add_assoc]

def occurs (mark : List Char) : List Char → Bool
  | [] => (strip? mark []).isSome
  | c :: s => (strip? mark (c :: s)).isSome || occurs mark s

theorem occurs_iff {mark s : List Char} :
    occurs mark s = true ↔ ∃ before after, s = before ++ mark ++ after := by
  induction s with
  | nil => cases mark <;> simp [occurs, strip?]
  | cons c s ih =>
      simp only [occurs, Bool.or_eq_true, ih, Option.isSome_iff_exists]
      constructor
      · rintro (⟨rest, hrest⟩ | ⟨before, after, rfl⟩)
        · exact ⟨[], rest, by simpa using strip?_eq_some_iff.mp hrest⟩
        · exact ⟨c :: before, after, by simp⟩
      · rintro ⟨before, after, h⟩
        cases before with
        | nil => exact Or.inl ⟨after, strip?_eq_some_iff.mpr (by simpa using h)⟩
        | cons d before =>
            obtain ⟨rfl, rfl⟩ := List.cons.inj h
            exact Or.inr ⟨before, after, rfl⟩

end TextDiagram.Text
