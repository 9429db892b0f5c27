import TextDiagram.Matcher
import TextDiagram.Proofs.Text

/-!
# Names in front of a text

A name that needs no quotes is read off the front of a text up to where the name stops. A word is
read there only if it is the whole name, so a name that is none of the words is not mistaken for one.
-/

namespace TextDiagram.Matcher

open Text

/-! ### Where a name stops -/

theorem ne_of_isNameChar {c d : Char} (hc : isNameChar c = true) (hd : isNameChar d = false) :
    c ≠ d := by
  rintro rfl
  rw [hc] at hd
  exact Bool.true_eq_false.mp hd

/-- No blank is part of a name. -/
theorem covers_eq_false_of_blank {n : Nat} (h : blankRanges.covers n = true) :
    alphanumericRanges.covers n = false ∧ n ≠ '_'.toNat := by
  have hblanks : ∀ r ∈ blankRanges, ∀ n ∈ List.range' r.1 (r.2 - r.1 + 1),
      alphanumericRanges.covers n = false ∧ n ≠ '_'.toNat := by decide +kernel
  obtain ⟨r, hr, hlo, hhi⟩ := CodeRanges.exists_of_covers h
  exact hblanks r hr n (List.mem_range'_1.mpr ⟨hlo, by omega⟩)

theorem isBlank_eq_false_of_isNameChar {c : Char} (hc : isNameChar c = true) :
    isBlank c = false := by
  by_contra hblank
  obtain ⟨halnum, hline⟩ := covers_eq_false_of_blank (eq_true_of_ne_false hblank)
  rcases Bool.or_eq_true_iff.mp hc with h | h
  · exact Bool.false_ne_true (halnum.symm.trans h)
  · exact hline (congrArg Char.toNat (by simpa using h))

theorem takeWhile_isNameChar {t : List Char} (ht : startsInName t = false) :
    t.takeWhile isNameChar = [] := by
  cases t with
  | nil => rfl
  | cons c t => exact List.takeWhile_cons_of_neg (by simpa [startsInName] using ht)

theorem dropWhile_isNameChar {t : List Char} (ht : startsInName t = false) :
    t.dropWhile isNameChar = t := by
  cases t with
  | nil => rfl
  | cons c t => exact List.dropWhile_cons_of_neg (by simpa [startsInName] using ht)

theorem skipGap_cons {c : Char} (hc : isGap c = false) (t : List Char) :
    skipGap (' ' :: c :: t) = c :: t := by
  simp [skipGap, (by decide : isGap ' ' = true), hc]

/-- A name may start here, bare or in quotes. -/
def opensName : List Char → Bool
  | [] => false
  | c :: _ => isNameChar c || c ∈ ['"', '\'']

theorem opensName_of_startsInName {t : List Char} (ht : startsInName t = true) :
    opensName t = true := by
  cases t with
  | nil => exact absurd ht Bool.false_ne_true
  | cons c t => exact Bool.or_eq_true_iff.mpr (.inl ht)

theorem ne_of_opensName {c d : Char} {t : List Char} (hc : opensName (c :: t) = true)
    (hd : opensName [d] = false) : c ≠ d := by
  rintro rfl
  exact Bool.false_ne_true (hd.symm.trans hc)

/-- A gap ends where a name starts. -/
theorem skipGap_of_opensName {t : List Char} (ht : opensName t = true) : skipGap t = t := by
  cases t with
  | nil => rfl
  | cons c t =>
      have hspace : c ≠ ' ' := ne_of_opensName ht (by decide)
      have htab : c ≠ '\t' := ne_of_opensName ht (by decide)
      exact List.dropWhile_cons_of_neg (by simp [isGap, hspace, htab])

theorem skipGap_space (t : List Char) : skipGap (' ' :: t) = skipGap t :=
  List.dropWhile_cons_of_pos rfl

/-- What follows a part of a statement is nothing, or is set off by a space. -/
def SetOff (t : List Char) : Prop :=
  ∀ c ∈ t.head?, c = ' '

theorem setOff_nil : SetOff [] := by
  simp [SetOff]

theorem setOff_cons (t : List Char) : SetOff (' ' :: t) := by
  simp [SetOff]

theorem setOff_iff {t : List Char} : SetOff t ↔ t = [] ∨ ∃ u, t = ' ' :: u := by
  cases t <;> simp [SetOff]

theorem SetOff.startsInName_eq {t : List Char} (ht : SetOff t) : startsInName t = false := by
  rcases setOff_iff.mp ht with rfl | ⟨u, rfl⟩
  · rfl
  · exact (by decide : isNameChar ' ' = false)

/-! ### Names -/

/-- A name that needs no quotes. -/
structure Bare (id : String) : Prop where
  ne_nil : id.toList ≠ []
  isNameChar : ∀ c ∈ id.toList, isNameChar c = true

instance (id : String) : Decidable (Bare id) :=
  decidable_of_iff (id.toList ≠ [] ∧ ∀ c ∈ id.toList, isNameChar c = true)
    ⟨fun h => ⟨h.1, h.2⟩, fun h => ⟨h.ne_nil, h.isNameChar⟩⟩

theorem quotedBy_eq_none {quote c : Char} (hc : c ≠ quote) (s : List Char) :
    quotedBy quote (c :: s) = none := by
  rw [quotedBy, if_neg hc]

namespace Bare

variable {id : String} {t : List Char}

theorem notMem (hid : Bare id) {c : Char} (hc : Matcher.isNameChar c = false) : c ∉ id.toList :=
  fun hmem => Bool.false_ne_true (hc.symm.trans (hid.isNameChar c hmem))

theorem takeWhile_append (hid : Bare id) (ht : startsInName t = false) :
    (id.toList ++ t).takeWhile Matcher.isNameChar = id.toList := by
  rw [List.takeWhile_append_of_pos hid.isNameChar, takeWhile_isNameChar ht, List.append_nil]

theorem startsInName_append (hid : Bare id) (t : List Char) :
    startsInName (id.toList ++ t) = true := by
  obtain ⟨c, cs, hcs⟩ := List.exists_cons_of_ne_nil hid.ne_nil
  rw [hcs]
  exact hid.isNameChar c (by simp [hcs])

theorem name_append (hid : Bare id) (ht : startsInName t = false) :
    name (id.toList ++ t) = some (id, t) := by
  obtain ⟨c, cs, hcs⟩ := List.exists_cons_of_ne_nil hid.ne_nil
  have hc : Matcher.isNameChar c = true := hid.isNameChar c (by simp [hcs])
  have hdouble : c ≠ '"' := ne_of_isNameChar hc (by decide)
  have hsingle : c ≠ '\'' := ne_of_isNameChar hc (by decide)
  have hquoted : quotedName (id.toList ++ t) = none := by
    rw [hcs, List.cons_append]
    simp [quotedName, quoted, orElse, quotedBy_eq_none hdouble, quotedBy_eq_none hsingle]
  have hbare : bareName (id.toList ++ t) = some (id.toList, t) := by
    have hdrop : (id.toList ++ t).dropWhile Matcher.isNameChar = t := by
      rw [List.dropWhile_append_of_pos hid.isNameChar, dropWhile_isNameChar ht]
    simp [bareName, hid.takeWhile_append ht, hdrop, hid.ne_nil]
  simp [name, orElse, hquoted, hbare]

/-- A name is the first word of a text if a blank follows it. -/
theorem firstWord_append (hid : Bare id) {c : Char} (hc : isBlank c = true) (t : List Char) :
    firstWord (id.toList ++ c :: t) = id.toList := by
  have hname : ∀ d ∈ id.toList, isBlank d = false := fun d hd =>
    isBlank_eq_false_of_isNameChar (hid.isNameChar d hd)
  have hstart : trimStart (id.toList ++ c :: t) = id.toList ++ c :: t := by
    obtain ⟨d, s, hs⟩ := List.exists_cons_of_ne_nil hid.ne_nil
    rw [hs, List.cons_append]
    exact List.dropWhile_cons_of_neg (by simp [hname d (by simp [hs])])
  rw [firstWord, hstart, List.takeWhile_append_of_pos (fun d hd => by simp [hname d hd]),
    List.takeWhile_cons_of_neg (by simp [hc]), List.append_nil]

end Bare

/-! ### Words -/

/-- A text that starts with a word starts with the same name characters as the word. -/
theorem takeWhile_eq_of_word? {w : String} {s rest : List Char} (h : word? w s = some rest) :
    s.takeWhile isNameChar = w.toList.takeWhile isNameChar := by
  obtain ⟨hstrip, hrest⟩ := Option.filter_eq_some_iff.mp h
  have hrest : startsInName rest = false := by simpa using hrest
  rw [strip?_eq_some_iff.mp hstrip, List.takeWhile_append, takeWhile_isNameChar hrest,
    List.append_nil]
  split
  · rename_i hlength
    exact ((List.takeWhile_prefix isNameChar).eq_of_length hlength).symm
  · rfl

theorem word?_eq_none_of_mem {ws : List String} {s : List Char} (h : anyWord? ws s = none)
    {w : String} (hw : w ∈ ws) : word? w s = none :=
  List.findSome?_eq_none_iff.mp h w hw

theorem anyWord?_eq_none_of_subset {vs ws : List String} {s : List Char}
    (h : anyWord? ws s = none) (hsubset : vs ⊆ ws) : anyWord? vs s = none :=
  List.findSome?_eq_none_iff.mpr fun _ hw => word?_eq_none_of_mem h (hsubset hw)

/-- Words that go on behind a name, such as a version, do so behind a word of the list. -/
theorem Bare.anyWord?_append {id : String} (hid : Bare id) {ws : List String}
    (hws : ∀ w ∈ ws, String.ofList (w.toList.takeWhile Matcher.isNameChar) ∈ ws) (hnew : id ∉ ws)
    {t : List Char} (ht : startsInName t = false) : anyWord? ws (id.toList ++ t) = none := by
  rw [anyWord?, List.findSome?_eq_none_iff]
  intro w hw
  by_contra hsome
  obtain ⟨rest, hrest⟩ := Option.ne_none_iff_exists'.mp hsome
  have hsame := takeWhile_eq_of_word? hrest
  rw [hid.takeWhile_append ht] at hsame
  have hmem := hws w hw
  rw [← hsame, String.ofList_toList] at hmem
  exact hnew hmem

end TextDiagram.Matcher
