import TextDiagram.Proofs.Markers

/-!
# Detecting dialects in parts of a text

A text is of the first dialect of which a marker stands anywhere in it. Whatever is put around a
text leaves its markers in it, so a dialect can only give way to one that comes earlier. Markers do
not go over a line break, so lines without a marker may stand between any two lines.
-/

namespace TextDiagram

open Text

theorem eq_false_of_find?_eq_some {α : Type} [DecidableEq α] {p : α → Bool} {l : List α} {a b : α}
    (h : l.find? p = some a) (hb : l.idxOf b < l.idxOf a) : p b = false := by
  obtain ⟨ha, before, after, rfl, hbefore⟩ := List.find?_eq_some_iff_append.mp h
  have hnone : ∀ c ∈ before, p c = false := by simpa using hbefore
  by_cases hmem : b ∈ before
  · exact hnone b hmem
  · have hnotMem : a ∉ before := fun hmem => Bool.false_ne_true ((hnone a hmem).symm.trans ha)
    rw [List.idxOf_append_of_notMem hmem, List.idxOf_append_of_notMem hnotMem,
      List.idxOf_cons_self] at hb
    exact absurd hb (Nat.not_lt.mpr (Nat.le_add_right _ _))

theorem find?_eq_some_iff_idxOf {α : Type} [DecidableEq α] {p : α → Bool} {l : List α} {a : α} :
    l.find? p = some a ↔
      a ∈ l ∧ p a = true ∧ ∀ b ∈ l, l.idxOf b < l.idxOf a → p b = false := by
  constructor
  · intro h
    exact ⟨List.mem_of_find?_eq_some h, List.find?_some h, fun b _ => eq_false_of_find?_eq_some h⟩
  · rintro ⟨hmem, ha, hfirst⟩
    cases hfind : l.find? p with
    | none => exact absurd ha (List.find?_eq_none.mp hfind a hmem)
    | some c =>
        have hc := List.find?_some hfind
        have hcmem := List.mem_of_find?_eq_some hfind
        rcases lt_trichotomy (l.idxOf c) (l.idxOf a) with hlt | heq | hlt
        · exact absurd hc (by simp [hfirst c hcmem hlt])
        · exact congrArg some ((List.idxOf_inj hcmem).mp heq)
        · exact absurd ha (by simp [eq_false_of_find?_eq_some hfind hlt])

namespace Dialect

variable {d : Dialect} {m : String} {s : List Char}

/-- A marker of the dialect stands somewhere in the text. -/
def MarkedIn (d : Dialect) (s : List Char) : Prop :=
  ∃ m ∈ d.markers, m.toList <:+: s

theorem MarkedIn.append (h : d.MarkedIn s) (p q : List Char) : d.MarkedIn (p ++ s ++ q) := by
  obtain ⟨m, hm, hmark⟩ := h
  exact ⟨m, hm, hmark.trans ⟨p, q, rfl⟩⟩

theorem marker?_isSome_iff_markedIn : (d.marker? s).isSome = true ↔ d.MarkedIn s := by
  simp only [marker?_isSome_iff, occurs_iff_isInfix, MarkedIn]

theorem detect?_eq_none_iff_markedIn : detect? s = none ↔ ∀ d : Dialect, ¬ d.MarkedIn s := by
  rw [detect?_eq_find?_marker?, List.find?_eq_none]
  simp only [mem_all, true_imp_iff, marker?_isSome_iff_markedIn]

theorem detect?_eq_some_iff :
    detect? s = some d ↔
      d.MarkedIn s ∧ ∀ d' : Dialect, d'.priority < d.priority → ¬ d'.MarkedIn s := by
  rw [detect?_eq_find?_marker?, find?_eq_some_iff_idxOf, marker?_isSome_iff_markedIn,
    and_iff_right d.mem_all]
  simp only [mem_all, true_imp_iff, ← Bool.not_eq_true, marker?_isSome_iff_markedIn, priority]

/-- What is put around a text can only bring in a dialect that comes earlier. -/
theorem exists_detect?_append (h : detect? s = some d) (p q : List Char) :
    ∃ d' : Dialect, detect? (p ++ s ++ q) = some d' ∧ d'.priority ≤ d.priority := by
  have hmarked : d.MarkedIn (p ++ s ++ q) := (detect?_eq_some_iff.mp h).1.append p q
  cases hdetect : detect? (p ++ s ++ q) with
  | none => exact absurd hmarked (detect?_eq_none_iff_markedIn.mp hdetect d)
  | some d' =>
      refine ⟨d', rfl, ?_⟩
      by_contra hlt
      exact (detect?_eq_some_iff.mp hdetect).2 d (Nat.lt_of_not_le hlt) hmarked

/-! ### Lines put in -/

/-- Where two texts are put together there is a line break, or one of them is empty. -/
def meetAtBreak (s t : List Char) : Bool :=
  s.getLast?.all (· == '\n') || t.head?.all (· == '\n')

theorem occurs_append_of_meetAtBreak (hm : m ∈ d.markers) {s t : List Char}
    (h : meetAtBreak s t = true) :
    occurs m.toList (s ++ t) = (occurs m.toList s || occurs m.toList t) := by
  have hne := marker_ne_nil hm
  have hbreak := occurs_append_cons (notMem_marker hm '\n' (by decide)) hne
  rcases Bool.or_eq_true_iff.mp h with hs | ht
  · rcases List.eq_nil_or_concat s with rfl | ⟨s, c, rfl⟩
    · rw [occurs_nil hne, List.nil_append, Bool.false_or]
    · obtain rfl : c = '\n' := by simpa using hs
      rw [List.concat_eq_append, List.append_assoc, List.singleton_append, hbreak, hbreak,
        occurs_nil hne, Bool.or_false]
  · cases t with
    | nil => rw [occurs_nil hne, List.append_nil, Bool.or_false]
    | cons c t =>
        obtain rfl : c = '\n' := by simpa using ht
        have hline := hbreak [] t
        rw [List.nil_append, occurs_nil hne, Bool.false_or] at hline
        rw [hbreak, hline]

theorem meetAtBreak_append {s t u : List Char} (hst : meetAtBreak s t = true)
    (hsu : meetAtBreak s u = true) : meetAtBreak s (t ++ u) = true := by
  cases t with
  | nil => exact hsu
  | cons c t => exact hst

theorem detect?_insert {s t u : List Char} (hsu : meetAtBreak s u = true)
    (hst : meetAtBreak s t = true) (htu : meetAtBreak t u = true)
    (ht : ∀ d : Dialect, ¬ d.MarkedIn t) : detect? (s ++ t ++ u) = detect? (s ++ u) := by
  apply detect?_congr
  intro d m hm
  have hnone : occurs m.toList t = false := by
    rw [← Bool.not_eq_true, occurs_iff_isInfix]
    exact fun hmark => ht d ⟨m, hm, hmark⟩
  rw [List.append_assoc, occurs_append_of_meetAtBreak hm (meetAtBreak_append hst hsu),
    occurs_append_of_meetAtBreak hm htu, occurs_append_of_meetAtBreak hm hsu, hnone, Bool.false_or]

/-- A text is of no dialect exactly if no marker stands anywhere in it, and else of the first one of
which a marker does. In a longer text its markers still count: the longer text is of the same
dialect or of one that comes earlier. Whole lines without a marker make no difference wherever they
are put at a line break, before it or behind it, or at the start or the end of a text. -/
theorem detect?_blind_to_position :
    (∀ s, detect? s = none ↔ ∀ d : Dialect, ¬ d.MarkedIn s) ∧
      (∀ s (d : Dialect), detect? s = some d ↔
        d.MarkedIn s ∧ ∀ d' : Dialect, d'.priority < d.priority → ¬ d'.MarkedIn s) ∧
      (∀ p s q (d : Dialect), detect? s = some d →
        ∃ d' : Dialect, detect? (p ++ s ++ q) = some d' ∧ d'.priority ≤ d.priority) ∧
      ∀ s t u, meetAtBreak s u = true → meetAtBreak s t = true → meetAtBreak t u = true →
        (∀ d : Dialect, ¬ d.MarkedIn t) → detect? (s ++ t ++ u) = detect? (s ++ u) := by
  refine ⟨fun s => detect?_eq_none_iff_markedIn, fun s d => detect?_eq_some_iff, ?_, ?_⟩
  · intro p s q d h
    exact exists_detect?_append h p q
  · intro s t u hsu hst htu ht
    exact detect?_insert hsu hst htu ht

/-- A marker may arise where two texts meet, but not where a line break stands in it. -/
theorem detect?_blind_to_position_seam :
    detect? "TD classDiagram".toList = some classes ∧
      (∃ d' : Dialect, detect? ("graph ".toList ++ "TD classDiagram".toList ++ []) = some d' ∧
        d'.priority ≤ classes.priority) ∧
      (∀ d : Dialect, ¬ d.MarkedIn "graph\nTD\n".toList) ∧
      detect? ("classDiagram\n".toList ++ "graph\nTD\n".toList ++ "class A".toList) =
        detect? ("classDiagram\n".toList ++ "class A".toList) := by
  have hdetect : detect? "TD classDiagram".toList = some classes := by decide +kernel
  have hnone : ∀ d : Dialect, ¬ d.MarkedIn "graph\nTD\n".toList :=
    (detect?_blind_to_position.1 _).mp (by decide +kernel)
  exact ⟨hdetect, detect?_blind_to_position.2.2.1 _ _ _ _ hdetect, hnone,
    detect?_blind_to_position.2.2.2 _ _ _ rfl rfl rfl hnone⟩

end Dialect

end TextDiagram
