import TextDiagram.Parser
import TextDiagram.Proofs.Lines

/-!
# Markers in lines

A marker starts and ends with a letter and holds no line break. So a text has a marker exactly if
one of its lines has it, and blanks around a line make no difference. Texts with the same markers are
of the same dialect.
-/

namespace TextDiagram

open Text

namespace Dialect

variable {d : Dialect} {m : String}

/-- Line breaks and colons part a text without cutting a marker. -/
theorem notMem_marker (hm : m ∈ d.markers) : ∀ c ∈ ['\n', ':'], c ∉ m.toList := by
  revert m
  cases d <;> decide

theorem marker_ne_nil (hm : m ∈ d.markers) : m.toList ≠ [] := by
  revert m
  cases d <;> decide

/-- Characters with which no marker starts or ends. -/
def isOutside (c : Char) : Bool :=
  isBlank c || c ∈ ['\x7b', '\x7d']

theorem marker_ends (hm : m ∈ d.markers) :
    (m.toList.head?.any fun c => !isOutside c) ∧ m.toList.getLast?.any fun c => !isOutside c := by
  revert m
  cases d <;> decide

theorem head?_marker_ne (hm : m ∈ d.markers) {c : Char} (hc : isOutside c = true) :
    m.toList.head? ≠ some c := by
  intro hhead
  have h := (marker_ends hm).1
  rw [hhead, Option.any_some, hc] at h
  exact Bool.false_ne_true h

theorem getLast?_marker_ne (hm : m ∈ d.markers) {c : Char} (hc : isOutside c = true) :
    m.toList.getLast? ≠ some c := by
  intro hlast
  have h := (marker_ends hm).2
  rw [hlast, Option.any_some, hc] at h
  exact Bool.false_ne_true h

theorem occurs_lines (hm : m ∈ d.markers) (xs : List (List Char)) :
    occurs m.toList (['\n'].intercalate xs) = xs.any (occurs m.toList) :=
  occurs_intercalate (notMem_marker hm '\n' (by decide)) (marker_ne_nil hm) xs

theorem occurs_append_outside (hm : m ∈ d.markers) {v : List Char}
    (hv : ∀ c ∈ v, isOutside c = true) (s : List Char) :
    occurs m.toList (s ++ v) = occurs m.toList s :=
  occurs_append_of_getLast? (marker_ne_nil hm) (fun c hc => getLast?_marker_ne hm (hv c hc)) s

theorem occurs_outside_append (hm : m ∈ d.markers) {u : List Char}
    (hu : ∀ c ∈ u, isOutside c = true) (s : List Char) :
    occurs m.toList (u ++ s) = occurs m.toList s :=
  occurs_append_of_head? (marker_ne_nil hm) (fun c hc => head?_marker_ne hm (hu c hc)) s

theorem occurs_of_outside (hm : m ∈ d.markers) {u : List Char}
    (hu : ∀ c ∈ u, isOutside c = true) : occurs m.toList u = false := by
  have h := occurs_outside_append hm hu []
  rwa [List.append_nil, occurs_nil (marker_ne_nil hm)] at h

theorem detect?_congr {s t : List Char}
    (h : ∀ d, ∀ m ∈ markers d, occurs m.toList s = occurs m.toList t) :
    detect? s = detect? t := by
  have hmarker : ∀ d : Dialect, (d.marker? s).isSome = (d.marker? t).isSome := by
    intro d
    rw [Bool.eq_iff_iff, marker?_isSome_iff, marker?_isSome_iff]
    refine exists_congr fun m => and_congr_right fun hm => ?_
    rw [h d m hm]
  rw [detect?_eq_find?_marker?, detect?_eq_find?_marker?]
  exact congrArg (all.find? ·) (funext hmarker)

end Dialect

/-- Only the markers of a text count for its dialect, and only if the parser is not bound to one. -/
theorem Parser.dialectOf?_congr {p : Parser} {s t : String}
    (h : p.dialect? = none → ∀ d, ∀ m ∈ Dialect.markers d,
      occurs m.toList s.toList = occurs m.toList t.toList) :
    p.dialectOf? s = p.dialectOf? t := by
  rw [Parser.dialectOf?, Parser.dialectOf?]
  cases hp : p.dialect? with
  | some d => rfl
  | none => rw [Option.none_or, Option.none_or, Dialect.detect?_congr (h hp)]

end TextDiagram
