import Mathlib.Data.List.Basic
import TextDiagram.Proofs.Text
import TextDiagram.Text.Line

/-!
# Lines of a text

The lines of a text stand apart from each other. What counts of a text is what counts of each line,
and a mark that holds no line break occurs in a text exactly if it occurs in one of the lines.
-/

namespace TextDiagram.Text

/-! ### Trimmed lines -/

theorem trimStart_trimStart (s : List Char) : trimStart (trimStart s) = trimStart s := by
  cases hs : trimStart s with
  | nil => rfl
  | cons c t =>
      have hne : s.dropWhile isBlank ≠ [] := by
        intro hnil
        rw [show trimStart s = [] from hnil] at hs
        exact List.cons_ne_nil c t hs.symm
      have hhead : (s.dropWhile isBlank).head hne = c := by
        simp only [show s.dropWhile isBlank = c :: t from hs, List.head_cons]
      have hc : isBlank c = false := hhead ▸ List.head_dropWhile_not isBlank hne
      exact List.dropWhile_cons_of_neg (by simp [hc])

theorem trimEnd_trimEnd (s : List Char) : trimEnd (trimEnd s) = trimEnd s := by
  have h := trimStart_trimStart s.reverse
  rw [trimEnd, trimEnd, List.reverse_reverse]
  exact congrArg List.reverse h

theorem trimEnd_prefix (s : List Char) : trimEnd s <+: s := by
  have hsuffix := List.dropWhile_suffix (l := s.reverse) isBlank
  rw [← List.reverse_prefix, List.reverse_reverse] at hsuffix
  exact hsuffix

theorem trim_trim (s : List Char) : trim (trim s) = trim s := by
  refine trim_eq_self_iff.mpr ⟨?_, trimEnd_trimEnd (trimStart s)⟩
  cases ht : trim s with
  | nil => rfl
  | cons c t =>
      obtain ⟨u, hu⟩ := trimEnd_prefix (trimStart s)
      have hstart : trimStart s = c :: (t ++ u) := by rw [← hu, ← trim, ht, List.cons_append]
      have hc : ¬ isBlank c = true := by
        intro hblank
        have hsame := trimStart_trimStart s
        rw [hstart, trimStart_cons hblank] at hsame
        have := (trimStart_sublist (t ++ u)).length_le
        rw [hsame, List.length_cons] at this
        omega
      exact List.dropWhile_cons_of_neg hc

theorem trimStart_eq_self {s : List Char} (hs : ∀ c ∈ s, isBlank c = false) : trimStart s = s := by
  cases s with
  | nil => rfl
  | cons c s => exact List.dropWhile_cons_of_neg (by simp [hs c List.mem_cons_self])

theorem trim_eq_self {s : List Char} (hs : ∀ c ∈ s, isBlank c = false) : trim s = s := by
  have hreverse := trimStart_eq_self fun c hc => hs c (List.mem_reverse.mp hc)
  refine trim_eq_self_iff.mpr ⟨trimStart_eq_self hs, ?_⟩
  exact (congrArg List.reverse hreverse).trans (List.reverse_reverse s)

/-- A text between two that are trimmed does not count. -/
theorem trim_append {s t : List Char} (hs : trim s = s) (hsne : s ≠ []) (ht : trim t = t)
    (htne : t ≠ []) (m : List Char) : trim (s ++ (m ++ t)) = s ++ (m ++ t) := by
  refine trim_eq_self_iff.mpr ⟨trimStart_append (trim_eq_self_iff.mp hs).1 hsne (m ++ t), ?_⟩
  rw [← List.append_assoc]
  exact trimEnd_append (trim_eq_self_iff.mp ht).2 htne (s ++ m)

theorem trim_append_blank {v : List Char} (hv : ∀ c ∈ v, isBlank c = true) (s : List Char) :
    trim (s ++ v) = trim s := by
  induction v generalizing s with
  | nil => rw [List.append_nil]
  | cons c v ih =>
      rw [List.append_cons, ih fun d hd => hv d (List.mem_cons_of_mem c hd)]
      exact trim_concat (hv c List.mem_cons_self) s

theorem trim_blank_append {u : List Char} (hu : ∀ c ∈ u, isBlank c = true) (s : List Char) :
    trim (u ++ s) = trim s := by
  induction u with
  | nil => rfl
  | cons c u ih =>
      rw [List.cons_append, trim_cons (hu c List.mem_cons_self)]
      exact ih fun d hd => hu d (List.mem_cons_of_mem c hd)

/-! ### Joined texts -/

section Intercalate

variable {sep : Char}

theorem intercalate_cons_of_ne_nil {L : List (List Char)} (hL : L ≠ []) (s : List Char) :
    [sep].intercalate (s :: L) = s ++ sep :: [sep].intercalate L := by
  obtain ⟨t, L, rfl⟩ := List.exists_cons_of_ne_nil hL
  rw [List.intercalate_cons_cons, List.append_assoc]
  rfl

theorem eq_or_mem_of_mem_intercalate {c : Char} {L : List (List Char)}
    (hc : c ∈ [sep].intercalate L) : c = sep ∨ ∃ s ∈ L, c ∈ s := by
  induction L with
  | nil => cases hc
  | cons s L ih =>
      by_cases hL : L = []
      · subst hL
        exact .inr ⟨s, List.mem_cons_self, by simpa using hc⟩
      · rw [intercalate_cons_of_ne_nil hL] at hc
        rcases List.mem_append.mp hc with hc | hc
        · exact .inr ⟨s, List.mem_cons_self, hc⟩
        · rcases List.mem_cons.mp hc with hc | hc
          · exact .inl hc
          · refine (ih hc).imp_right ?_
            rintro ⟨t, ht, hct⟩
            exact ⟨t, List.mem_cons_of_mem s ht, hct⟩

/-- What is read from each of the parts is read from the whole. -/
theorem intercalate_eq_flatMap {α : Type} {f : List Char → List α} (hnil : f [] = [])
    (happend : ∀ s t, f (s ++ sep :: t) = f s ++ f t) (L : List (List Char)) :
    f ([sep].intercalate L) = L.flatMap f := by
  induction L with
  | nil => exact hnil
  | cons s L ih =>
      by_cases hL : L = []
      · simp [hL]
      · rw [intercalate_cons_of_ne_nil hL, happend, ih, List.flatMap_cons]

end Intercalate

/-! ### Lines that count -/

theorem lines_append_cons (s t : List Char) : lines (s ++ '\n' :: t) = lines s ++ lines t :=
  List.splitOnP_append_cons s t (beq_self_eq_true '\n')

theorem lines_of_notMem {l : List Char} (hl : '\n' ∉ l) : lines l = [l] :=
  List.splitOn_eq_singleton hl

theorem notMem_of_mem_lines {s l : List Char} (hl : l ∈ lines s) : '\n' ∉ l := by
  induction h : s.length using Nat.strongRecOn generalizing s with
  | ind n ih =>
      by_cases hs : '\n' ∈ s
      · obtain ⟨a, b, rfl⟩ := List.append_of_mem hs
        rw [lines_append_cons, List.mem_append] at hl
        simp only [List.length_append, List.length_cons] at h
        rcases hl with hl | hl
        · exact ih a.length (by omega) hl rfl
        · exact ih b.length (by omega) hl rfl
      · rw [lines_of_notMem hs, List.mem_singleton] at hl
        exact hl ▸ hs

theorem meaningfulLines_append_cons (s t : List Char) :
    meaningfulLines (s ++ '\n' :: t) = meaningfulLines s ++ meaningfulLines t := by
  rw [meaningfulLines, lines_append_cons, List.map_append, List.filter_append]
  rfl

theorem meaningfulLines_intercalate (xs : List (List Char)) :
    meaningfulLines (['\n'].intercalate xs) = xs.flatMap meaningfulLines :=
  intercalate_eq_flatMap rfl meaningfulLines_append_cons xs

theorem meaningfulLines_of_notMem {l : List Char} (hl : '\n' ∉ l) :
    meaningfulLines l = [trim l].filter fun line => !line.isEmpty && !isComment line := by
  rw [meaningfulLines, lines_of_notMem hl, List.map_singleton]

theorem mem_meaningfulLines {s l : List Char} (hl : l ∈ meaningfulLines s) :
    trim l = l ∧ l ≠ [] ∧ isComment l = false ∧ '\n' ∉ l := by
  obtain ⟨hmem, hcounts⟩ := List.mem_filter.mp hl
  obtain ⟨k, hk, rfl⟩ := List.mem_map.mp hmem
  simp only [Bool.and_eq_true, Bool.not_eq_true', List.isEmpty_eq_false_iff] at hcounts
  refine ⟨trim_trim k, hcounts.1, hcounts.2, ?_⟩
  exact fun hbreak => notMem_of_mem_lines hk ((trim_sublist k).subset hbreak)

theorem meaningfulLines_eq_singleton {l : List Char} (hline : '\n' ∉ l) (hne : trim l ≠ [])
    (hcomment : isComment (trim l) = false) : meaningfulLines l = [trim l] := by
  rw [meaningfulLines_of_notMem hline]
  simp [hne, hcomment]

theorem meaningfulLines_of_trim {l : List Char} (hline : '\n' ∉ l) (htrim : trim l = l)
    (hne : l ≠ []) (hcomment : isComment l = false) : meaningfulLines l = [l] := by
  have h := meaningfulLines_eq_singleton hline (by rwa [htrim]) (by rwa [htrim])
  rwa [htrim] at h

theorem meaningfulLines_eq_nil {l : List Char} (hline : '\n' ∉ l)
    (h : trim l = [] ∨ isComment (trim l) = true) : meaningfulLines l = [] := by
  rw [meaningfulLines_of_notMem hline]
  rcases h with h | h <;> simp [h]

/-! ### Marks in lines -/

theorem occurs_nil {mark : List Char} (hmark : mark ≠ []) : occurs mark [] = false := by
  cases mark with
  | nil => exact absurd rfl hmark
  | cons c mark => rfl

/-- A mark lies on one side of a character that it does not hold. -/
theorem occurs_append_cons {mark : List Char} {c : Char} (hc : c ∉ mark) (hmark : mark ≠ [])
    (s t : List Char) : occurs mark (s ++ c :: t) = (occurs mark s || occurs mark t) := by
  induction s with
  | nil =>
      rw [occurs_nil hmark, List.nil_append, occurs, strip?_cons_of_notMem hc hmark]
      rfl
  | cons d s ih =>
      have hstrip := strip?_append_cons hc (d :: s) t
      rw [List.cons_append] at hstrip
      rw [List.cons_append, occurs, hstrip, ih, occurs, Option.isSome_map, Bool.or_assoc]

theorem occurs_intercalate {mark : List Char} (hline : '\n' ∉ mark) (hmark : mark ≠ [])
    (xs : List (List Char)) : occurs mark (['\n'].intercalate xs) = xs.any (occurs mark) := by
  induction xs with
  | nil => exact occurs_nil hmark
  | cons l xs ih =>
      by_cases hxs : xs = []
      · simp [hxs]
      · rw [intercalate_cons_of_ne_nil hxs, occurs_append_cons hline hmark, ih, List.any_cons]

theorem occurs_concat {mark : List Char} {c : Char} (hc : mark.getLast? ≠ some c)
    (hmark : mark ≠ []) (s : List Char) : occurs mark (s ++ [c]) = occurs mark s := by
  rw [Bool.eq_iff_iff, occurs_iff, occurs_iff]
  constructor
  · rintro ⟨before, after, h⟩
    rcases List.eq_nil_or_concat after with rfl | ⟨after, d, rfl⟩
    · have hlast := congrArg List.getLast? h
      rw [List.append_nil, List.getLast?_concat, List.getLast?_append_of_ne_nil _ hmark] at hlast
      exact absurd hlast.symm hc
    · rw [List.concat_eq_append, ← List.append_assoc] at h
      exact ⟨before, after, (List.append_inj' h rfl).1⟩
  · rintro ⟨before, after, rfl⟩
    exact ⟨before, after ++ [c], by simp⟩

theorem occurs_append_of_getLast? {mark v : List Char} (hmark : mark ≠ [])
    (hv : ∀ c ∈ v, mark.getLast? ≠ some c) (s : List Char) :
    occurs mark (s ++ v) = occurs mark s := by
  induction v generalizing s with
  | nil => rw [List.append_nil]
  | cons c v ih =>
      rw [List.append_cons, ih fun d hd => hv d (List.mem_cons_of_mem c hd)]
      exact occurs_concat (hv c List.mem_cons_self) hmark s

end TextDiagram.Text
