import Mathlib.Data.List.TakeWhile
import TextDiagram.Text.Blank
import TextDiagram.Text.Cut

/-!
# Trimming and searching texts

Trimming takes blank characters off a text and nothing else. A search for marks goes past every
character that none of the marks holds, so what it finds depends on the two sides of such a
character apart from each other.
-/

namespace TextDiagram.Text

/-- What all characters of a text have is decided on the text, and not on all characters there
are. -/
instance (priority := high) decidableForallMem (s : List Char) (p : Char → Prop)
    [DecidablePred p] : Decidable (∀ c ∈ s, p c) :=
  List.decidableBAll p s

/-! ### Trimming -/

theorem trimStart_cons {c : Char} (hc : isBlank c = true) (s : List Char) :
    trimStart (c :: s) = trimStart s :=
  List.dropWhile_cons_of_pos hc

theorem trimEnd_concat {c : Char} (hc : isBlank c = true) (s : List Char) :
    trimEnd (s ++ [c]) = trimEnd s := by
  rw [trimEnd, List.reverse_append, List.reverse_singleton, List.singleton_append,
    List.dropWhile_cons_of_pos hc]
  rfl

theorem trimStart_eq_nil_iff {s : List Char} : trimStart s = [] ↔ ∀ c ∈ s, isBlank c = true :=
  List.dropWhile_eq_nil_iff

theorem trim_cons {c : Char} (hc : isBlank c = true) (s : List Char) : trim (c :: s) = trim s := by
  rw [trim, trimStart_cons hc, trim]

theorem trim_concat {c : Char} (hc : isBlank c = true) (s : List Char) :
    trim (s ++ [c]) = trim s := by
  by_cases hs : ∀ d ∈ s, isBlank d = true
  · have hall : ∀ d ∈ s ++ [c], isBlank d = true := by
      intro d hd
      rcases List.mem_append.mp hd with hd | hd
      · exact hs d hd
      · exact List.mem_singleton.mp hd ▸ hc
    rw [trim, trim, trimStart_eq_nil_iff.mpr hs, trimStart_eq_nil_iff.mpr hall]
  · have hne : trimStart s ≠ [] := mt trimStart_eq_nil_iff.mp hs
    have happend : trimStart (s ++ [c]) = trimStart s ++ [c] := by
      rw [trimStart, List.dropWhile_append, if_neg (by simpa [trimStart] using hne)]
      rfl
    rw [trim, happend, trimEnd_concat hc, trim]

theorem trim_eq_nil_iff {s : List Char} : trim s = [] ↔ ∀ c ∈ s, isBlank c = true := by
  constructor
  · intro h
    rw [trim, trimEnd, List.reverse_eq_nil_iff, List.dropWhile_eq_nil_iff] at h
    by_contra hs
    have hne : trimStart s ≠ [] := mt trimStart_eq_nil_iff.mp hs
    have hblank : isBlank ((trimStart s).head hne) = true := h _ (by simp)
    have hnot : isBlank ((trimStart s).head hne) = false := List.head_dropWhile_not isBlank hne
    rw [hnot] at hblank
    exact Bool.false_ne_true hblank
  · intro h
    rw [trim, trimStart_eq_nil_iff.mpr h]
    rfl

theorem mem_dropWhile {p : Char → Bool} {c : Char} {s : List Char} (hmem : c ∈ s)
    (hc : p c = false) : c ∈ s.dropWhile p := by
  rw [← List.takeWhile_append_dropWhile (p := p) (l := s), List.mem_append] at hmem
  refine hmem.resolve_left fun htake => ?_
  rw [List.mem_takeWhile_imp htake] at hc
  exact Bool.false_ne_true hc.symm

theorem trimStart_sublist (s : List Char) : (trimStart s).Sublist s :=
  List.dropWhile_sublist isBlank

theorem trimEnd_sublist (s : List Char) : (trimEnd s).Sublist s :=
  List.reverse_sublist.mp (by simpa [trimEnd] using List.dropWhile_sublist isBlank)

theorem trim_sublist (s : List Char) : (trim s).Sublist s :=
  (trimEnd_sublist (trimStart s)).trans (trimStart_sublist s)

theorem trim_eq_self_iff {s : List Char} : trim s = s ↔ trimStart s = s ∧ trimEnd s = s := by
  constructor
  · intro h
    have hstart : trimStart s = s := by
      have hsub := trimEnd_sublist (trimStart s)
      rw [show trimEnd (trimStart s) = s from h] at hsub
      exact (trimStart_sublist s).eq_of_length_le hsub.length_le
    exact ⟨hstart, by rwa [trim, hstart] at h⟩
  · rintro ⟨hstart, hend⟩
    rw [trim, hstart, hend]

theorem trimStart_append {s : List Char} (hs : trimStart s = s) (hne : s ≠ []) (t : List Char) :
    trimStart (s ++ t) = s ++ t := by
  have hdrop : s.dropWhile isBlank = s := hs
  rw [trimStart, List.dropWhile_append, hdrop, if_neg (by simpa using hne)]

theorem trimEnd_append {t : List Char} (ht : trimEnd t = t) (hne : t ≠ []) (s : List Char) :
    trimEnd (s ++ t) = s ++ t := by
  have hreverse : trimStart t.reverse = t.reverse := List.reverse_eq_iff.mp ht
  have hdrop := trimStart_append hreverse (by simpa using hne) s.reverse
  rw [trimEnd, List.reverse_append]
  exact (congrArg List.reverse hdrop).trans (by simp)

/-- Trimming takes off blank characters only. -/
theorem mem_trim {c : Char} {s : List Char} (hmem : c ∈ s) (hc : isBlank c = false) :
    c ∈ trim s := by
  have hstart : c ∈ trimStart s := mem_dropWhile hmem hc
  exact List.mem_reverse.mpr (mem_dropWhile (List.mem_reverse.mpr hstart) hc)

theorem exists_eq_append_trim (s : List Char) :
    ∃ u v, s = u ++ trim s ++ v ∧ (∀ c ∈ u, isBlank c = true) ∧ ∀ c ∈ v, isBlank c = true := by
  refine ⟨s.takeWhile isBlank, ((trimStart s).reverse.takeWhile isBlank).reverse, ?_, ?_, ?_⟩
  · have hend : trim s ++ ((trimStart s).reverse.takeWhile isBlank).reverse = trimStart s := by
      rw [trim, trimEnd, ← List.reverse_append, List.takeWhile_append_dropWhile,
        List.reverse_reverse]
    rw [List.append_assoc, hend]
    exact List.takeWhile_append_dropWhile.symm
  · exact fun c hc => List.mem_takeWhile_imp hc
  · exact fun c hc => List.mem_takeWhile_imp (List.mem_reverse.mp hc)

theorem trim_isInfix (s : List Char) : trim s <:+: s := by
  obtain ⟨u, v, hs, _⟩ := exists_eq_append_trim s
  exact ⟨u, v, hs.symm⟩

/-! ### Searching -/

section FindSome

variable {α β : Type} {f g : α → Option β} {l : List α}

theorem findSome?_congr (h : ∀ a ∈ l, f a = g a) : l.findSome? f = l.findSome? g := by
  induction l with
  | nil => rfl
  | cons a l ih =>
      have hrest := ih fun b hb => h b (List.mem_cons_of_mem a hb)
      rw [List.findSome?_cons, List.findSome?_cons, h a List.mem_cons_self, hrest]

theorem findSome?_eq_of_mem {a : α} (ha : a ∈ l) (hothers : ∀ b ∈ l, b = a ∨ f b = none) :
    l.findSome? f = f a := by
  cases hl : l.findSome? f with
  | none => exact (List.findSome?_eq_none_iff.mp hl a ha).symm
  | some c =>
      obtain ⟨b, hb, hc⟩ := List.exists_of_findSome?_eq_some hl
      rcases hothers b hb with rfl | hnone
      · exact hc.symm
      · simp [hnone] at hc

/-- Where every member of a list is related to all later ones, the first hit is related to all
others. -/
theorem exists_first_of_findSome? {R : α → α → Prop} (hl : l.Pairwise R) {b : β}
    (h : l.findSome? f = some b) :
    ∃ a ∈ l, f a = some b ∧ ∀ other ∈ l, f other = none ∨ other = a ∨ R a other := by
  obtain ⟨earlier, a, later, rfl, ha, hearlier⟩ := List.findSome?_eq_some_iff.mp h
  refine ⟨a, by simp, ha, fun other hother => ?_⟩
  rcases List.mem_append.mp hother with hother | hother
  · exact .inl (hearlier other hother)
  · rcases List.mem_cons.mp hother with rfl | hother
    · exact .inr (.inl rfl)
    · exact .inr (.inr (List.rel_of_pairwise_cons (List.pairwise_append.mp hl).2.1 hother))

end FindSome

theorem occurs_iff_isInfix {mark s : List Char} : occurs mark s = true ↔ mark <:+: s := by
  rw [occurs_iff]
  exact exists_congr fun u => exists_congr fun v => eq_comm

theorem strip?_cons_of_head?_ne {mark : List Char} {c : Char} (hc : mark.head? ≠ some c)
    (hmark : mark ≠ []) (s : List Char) : strip? mark (c :: s) = none := by
  cases mark with
  | nil => exact absurd rfl hmark
  | cons d mark =>
      have hdc : d ≠ c := by
        rintro rfl
        exact hc rfl
      rw [strip?, if_neg hdc]

theorem strip?_cons_of_notMem {mark : List Char} {c : Char} (hc : c ∉ mark) (hmark : mark ≠ [])
    (s : List Char) : strip? mark (c :: s) = none :=
  strip?_cons_of_head?_ne (fun hhead => hc (List.mem_of_head? hhead)) hmark s

/-- A mark that stands in front of a character that it does not hold ends before it. -/
theorem strip?_append_cons {mark : List Char} {c : Char} (hc : c ∉ mark) (s t : List Char) :
    strip? mark (s ++ c :: t) = (strip? mark s).map (· ++ c :: t) := by
  fun_induction strip? mark s with
  | case1 s => simp
  | case2 d mark => exact strip?_cons_of_notMem hc (List.cons_ne_nil d mark) t
  | case3 mark d s ih => simpa [strip?] using ih (mt (List.mem_cons_of_mem d) hc)
  | case4 d mark e s hne => simp [strip?, hne]

theorem stripAny?_append_cons {marks : List (List Char)} {c : Char} (hc : ∀ m ∈ marks, c ∉ m)
    (s t : List Char) :
    stripAny? marks (s ++ c :: t) = (stripAny? marks s).map (· ++ c :: t) := by
  rw [stripAny?, stripAny?, List.map_findSome?]
  exact findSome?_congr fun m hm => strip?_append_cons (hc m hm) s t

theorem stripAny?_cons_of_notMem {marks : List (List Char)} {c : Char}
    (hc : ∀ m ∈ marks, c ∉ m ∧ m ≠ []) (s : List Char) : stripAny? marks (c :: s) = none := by
  rw [stripAny?, List.findSome?_eq_none_iff]
  intro m hm
  exact strip?_cons_of_notMem (hc m hm).1 (hc m hm).2 s

theorem cutAny?_cons_of_notMem {marks : List (List Char)} {c : Char}
    (hc : ∀ m ∈ marks, c ∉ m ∧ m ≠ []) (s : List Char) :
    cutAny? marks (c :: s) = (cutAny? marks s).map fun (before, after) => (c :: before, after) := by
  rw [cutAny?, stripAny?_cons_of_notMem hc]

/-- A search that finds nothing goes on behind a character that no mark holds. -/
theorem cutAny?_append_cons {marks : List (List Char)} {c : Char}
    (hc : ∀ m ∈ marks, c ∉ m ∧ m ≠ []) {s : List Char} (hs : cutAny? marks s = none)
    (t : List Char) :
    cutAny? marks (s ++ c :: t) =
      (cutAny? marks t).map fun (before, after) => (s ++ c :: before, after) := by
  induction s with
  | nil => exact cutAny?_cons_of_notMem hc t
  | cons d s ih =>
      have hstrip := stripAny?_append_cons (fun m hm => (hc m hm).1) (d :: s) t
      cases hds : stripAny? marks (d :: s) with
      | some rest => simp [cutAny?, hds] at hs
      | none =>
          simp only [cutAny?, hds, Option.map_eq_none_iff] at hs
          rw [hds, Option.map_none, List.cons_append] at hstrip
          rw [List.cons_append, cutAny?, hstrip, ih hs, Option.map_map]
          rfl

/-- A part of a text that holds no character of a mark is cut off whole if a mark comes next. -/
theorem exists_cutAny?_append {marks : List (List Char)} {u s : List Char}
    (hu : ∀ c ∈ u, ∀ m ∈ marks, c ∉ m ∧ m ≠ []) (hs : (stripAny? marks s).isSome) :
    ∃ rest, cutAny? marks (u ++ s) = some (u, rest) := by
  induction u with
  | nil =>
      obtain ⟨rest, hrest⟩ := Option.isSome_iff_exists.mp hs
      refine ⟨rest, ?_⟩
      cases s <;> simp [cutAny?, hrest]
  | cons c u ih =>
      obtain ⟨rest, hrest⟩ := ih fun d hd => hu d (List.mem_cons_of_mem c hd)
      refine ⟨rest, ?_⟩
      rw [List.cons_append, cutAny?_cons_of_notMem (hu c List.mem_cons_self), hrest]
      rfl

theorem cutAny?_eq_none_iff {marks : List (List Char)} {s : List Char} :
    cutAny? marks s = none ↔ ∀ m ∈ marks, occurs m s = false := by
  induction s with
  | nil => simp [cutAny?, stripAny?, occurs, List.findSome?_eq_none_iff]
  | cons c s ih =>
      cases hs : stripAny? marks (c :: s) with
      | some rest =>
          obtain ⟨m, hm, hstrip⟩ := List.exists_of_findSome?_eq_some hs
          have hoccurs : occurs m (c :: s) = true := by simp [occurs, hstrip]
          simp only [cutAny?, hs, reduceCtorEq, false_iff]
          intro h
          rw [h m hm] at hoccurs
          exact Bool.false_ne_true hoccurs
      | none =>
          rw [stripAny?, List.findSome?_eq_none_iff] at hs
          simp only [cutAny?, stripAny?, List.findSome?_eq_none_iff.mpr hs, Option.map_eq_none_iff,
            ih]
          constructor
          · intro h m hm
            simp [occurs, hs m hm, h m hm]
          · intro h m hm
            simpa [occurs, hs m hm] using h m hm

/-- A mark does not start in a part of a text that does not hold its first character. -/
theorem occurs_append_of_head? {mark u : List Char} (hmark : mark ≠ [])
    (hu : ∀ c ∈ u, mark.head? ≠ some c) (s : List Char) :
    occurs mark (u ++ s) = occurs mark s := by
  induction u with
  | nil => rfl
  | cons c u ih =>
      rw [List.cons_append, occurs, strip?_cons_of_head?_ne (hu c List.mem_cons_self) hmark]
      exact ih fun d hd => hu d (List.mem_cons_of_mem c hd)

theorem occurs_append_of_disjoint {mark u : List Char} (hmark : mark ≠ [])
    (hu : ∀ c ∈ u, c ∉ mark) (s : List Char) : occurs mark (u ++ s) = occurs mark s :=
  occurs_append_of_head? hmark (fun c hc hhead => hu c hc (List.mem_of_head? hhead)) s

theorem cut?_eq_none_iff {mark s : List Char} : cut? mark s = none ↔ occurs mark s = false := by
  rw [cut?, cutAny?_eq_none_iff, List.forall_mem_singleton]

theorem cut?_append_of_head? {mark s : List Char} (hmark : mark ≠ [])
    (hs : ∀ c ∈ s, mark.head? ≠ some c) (t : List Char) :
    cut? mark (s ++ (mark ++ t)) = some (s, t) := by
  induction s with
  | nil =>
      obtain ⟨c, cs, rfl⟩ := List.exists_cons_of_ne_nil hmark
      have hstrip := strip?_append (c :: cs) t
      rw [List.cons_append] at hstrip
      simp [cut?, cutAny?, stripAny?, hstrip]
  | cons c s ih =>
      have hrest := ih fun d hd => hs d (List.mem_cons_of_mem c hd)
      have hstrip := strip?_cons_of_head?_ne (hs c List.mem_cons_self) hmark (s ++ (mark ++ t))
      simp only [cut?] at hrest ⊢
      simp [cutAny?, stripAny?, hstrip, hrest]

theorem exists_cons_of_head?_any {p : Char → Bool} {s : List Char} (h : s.head?.any p) :
    ∃ c t, s = c :: t ∧ p c = true := by
  cases s with
  | nil => exact absurd h Bool.false_ne_true
  | cons c t => exact ⟨c, t, rfl, h⟩

theorem cut?_singleton_append {c : Char} {s : List Char} (hs : c ∉ s) (t : List Char) :
    cut? [c] (s ++ c :: t) = some (s, t) := by
  refine cut?_append_of_head? (List.cons_ne_nil c []) ?_ t
  rintro d hd ⟨⟩
  exact hs hd

/-- A mark that goes on behind the first part differs from the text there. -/
theorem strip?_append_eq_none {mark u s : List Char} (hfront : ¬ mark <+: u)
    (hs : ∀ c ∈ (mark.drop u.length).head?, s.head? ≠ some c) : strip? mark (u ++ s) = none := by
  by_contra hsome
  obtain ⟨rest, hrest⟩ := Option.ne_none_iff_exists'.mp hsome
  rcases List.append_eq_append_iff.mp (strip?_eq_some_iff.mp hrest) with
    ⟨v, rfl, rfl⟩ | ⟨v, rfl, rfl⟩
  · cases v with
    | nil => exact hfront (by simp)
    | cons c v => exact hs c (by simp) rfl
  · exact hfront (List.prefix_append mark v)

end TextDiagram.Text
