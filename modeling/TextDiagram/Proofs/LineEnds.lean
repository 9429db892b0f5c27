import TextDiagram.Proofs.NameForms

/-!
# Matchers and the end of a line

Names, words, gaps and operators stand on one line. A matcher for them reads the same whether a text
ends or a line break follows, and what stands behind the line break is left as it is. A colon is no
different as long as no quotation ends behind it.
-/

namespace TextDiagram.Matcher

open Text

variable {α β : Type}

/-- The matcher does not see what is appended to a text. -/
def StopsBefore (t : List Char) (m : Matcher α) : Prop :=
  ∀ s, m (s ++ t) = (m s).map fun (a, rest) => (a, rest ++ t)

/-- The matcher does not see what stands behind a line break. -/
def StopsAtBreak (m : Matcher α) : Prop :=
  ∀ s u, m (s ++ '\n' :: u) = (m s).map fun (a, rest) => (a, rest ++ '\n' :: u)

section AppendCons

variable {p : Char → Bool} {c : Char}

theorem takeWhile_append_cons (hp : p c = false) (s u : List Char) :
    (s ++ c :: u).takeWhile p = s.takeWhile p := by
  induction s with
  | nil => exact List.takeWhile_cons_of_neg (by simp [hp])
  | cons d s ih =>
      rw [List.cons_append, List.takeWhile_cons, List.takeWhile_cons, ih]

theorem dropWhile_append_cons (hp : p c = false) (s u : List Char) :
    (s ++ c :: u).dropWhile p = s.dropWhile p ++ c :: u := by
  induction s with
  | nil => exact List.dropWhile_cons_of_neg (by simp [hp])
  | cons d s ih =>
      rw [List.cons_append, List.dropWhile_cons, List.dropWhile_cons, ih]
      split <;> rfl

theorem skipGap_append_cons (hc : isGap c = false) (s u : List Char) :
    skipGap (s ++ c :: u) = skipGap s ++ c :: u :=
  dropWhile_append_cons hc s u

end AppendCons

/-! ### Gaps and words -/

theorem skipGap_append_break (s u : List Char) :
    skipGap (s ++ '\n' :: u) = skipGap s ++ '\n' :: u :=
  skipGap_append_cons (by decide) s u

theorem gap?_append_break (s u : List Char) :
    gap? (s ++ '\n' :: u) = (gap? s).map (· ++ '\n' :: u) := by
  cases s with
  | nil => rfl
  | cons c s =>
      rw [List.cons_append, gap?, gap?, skipGap_append_break]
      split <;> rfl

theorem startsInName_append_break (s u : List Char) :
    startsInName (s ++ '\n' :: u) = startsInName s := by
  cases s with
  | nil => exact (by decide : isNameChar '\n' = false)
  | cons c s => rfl

theorem word?_append_break {w : String} (hw : '\n' ∉ w.toList) (s u : List Char) :
    word? w (s ++ '\n' :: u) = (word? w s).map (· ++ '\n' :: u) := by
  rw [word?, strip?_append_cons hw, word?]
  cases strip? w.toList s with
  | none => rfl
  | some rest =>
      simp only [Option.map_some, Option.filter_some, startsInName_append_break]
      split <;> rfl

theorem anyWord?_append_break {ws : List String} (hws : ∀ w ∈ ws, '\n' ∉ w.toList)
    (s u : List Char) : anyWord? ws (s ++ '\n' :: u) = (anyWord? ws s).map (· ++ '\n' :: u) := by
  rw [anyWord?, anyWord?, List.map_findSome?]
  exact findSome?_congr fun w hw => word?_append_break (hws w hw) s u

theorem afterColon?_append_break (s u : List Char) :
    afterColon? (s ++ '\n' :: u) = (afterColon? s).map (· ++ '\n' :: u) := by
  rw [afterColon?, skipGap_append_break, strip?_append_cons (by decide), afterColon?]

/-! ### Names and operators -/

namespace StopsBefore

variable {m m₁ m₂ : Matcher α} {t : List Char}

theorem orElse (h₁ : m₁.StopsBefore t) (h₂ : m₂.StopsBefore t) :
    (m₁.orElse m₂).StopsBefore t := by
  intro s
  rw [Matcher.orElse, h₁, h₂, Matcher.orElse]
  cases m₁ s <;> rfl

theorem optional_eq (hm : m.StopsBefore t) (s : List Char) :
    optional m (s ++ t) = ((optional m s).1, (optional m s).2 ++ t) := by
  rw [Matcher.optional, hm, Matcher.optional]
  cases m s <;> rfl

end StopsBefore

/-- No quotation that is open is closed in the text. -/
def ClosesNone (quote : Char) (t : List Char) : Prop :=
  strip? [quote] (t.dropWhile fun c => c != quote && c != '\n') = none

theorem closesNone_break {quote : Char} (hquote : quote ≠ '\n') (u : List Char) :
    ClosesNone quote ('\n' :: u) := by
  rw [ClosesNone, List.dropWhile_cons_of_neg (by simp), strip?, if_neg hquote]

theorem closesNone_of_notMem {quote : Char} {t : List Char} (hquote : quote ∉ t) :
    ClosesNone quote t := by
  rw [ClosesNone, Option.eq_none_iff_forall_not_mem]
  intro rest hrest
  have hmem : quote ∈ t.dropWhile fun c => c != quote && c != '\n' := by
    rw [strip?_eq_some_iff.mp hrest]
    exact List.mem_cons_self
  exact hquote ((List.dropWhile_suffix _).subset hmem)

theorem quotedBy_stopsBefore {quote : Char} {t : List Char} (ht : ClosesNone quote t)
    (hstart : t.head? ≠ some quote) : (quotedBy quote).StopsBefore t := by
  let inside := fun d : Char => d != quote && d != '\n'
  intro s
  cases s with
  | nil =>
      cases t with
      | nil => rfl
      | cons c t => exact quotedBy_eq_none (fun hc => hstart (congrArg some hc)) t
  | cons c s =>
      by_cases hc : c = quote
      · simp only [List.cons_append, quotedBy, if_pos hc]
        cases hrest : s.dropWhile inside with
        | nil =>
            have hopen : (s ++ t).dropWhile inside = t.dropWhile inside := by
              rw [List.dropWhile_append, hrest]
              rfl
            have hnone : strip? [quote] (t.dropWhile inside) = none := ht
            rw [hopen, hnone]
            rfl
        | cons d rest =>
            have hdrop : (s ++ t).dropWhile inside = d :: rest ++ t := by
              rw [List.dropWhile_append, hrest]
              rfl
            have htake : (s ++ t).takeWhile inside = s.takeWhile inside := by
              have hlength : (s.takeWhile inside).length ≠ s.length := by
                have hsplit := congrArg List.length
                  (List.takeWhile_append_dropWhile (p := inside) (l := s))
                rw [hrest, List.length_append, List.length_cons] at hsplit
                omega
              rw [List.takeWhile_append, if_neg hlength]
            rw [hdrop, htake]
            simp only [strip?, List.cons_append]
            split <;> rfl
      · simp only [List.cons_append, quotedBy, if_neg hc, Option.map_none]

/-- Neither a name nor a gap goes on over the tail, and no quotation is closed in it. -/
structure Parts (c : Char) (u : List Char) : Prop where
  isNameChar_eq : isNameChar c = false
  isGap_eq : isGap c = false
  ne_quote : c ∉ ['"', '\'']
  closesNone : ∀ quote ∈ ['"', '\''], ClosesNone quote (c :: u)

theorem parts_break (u : List Char) : Parts '\n' u := by
  refine ⟨by decide, by decide, by decide, ?_⟩
  rintro quote hquote
  refine closesNone_break ?_ u
  rintro rfl
  exact absurd hquote (by decide)

theorem parts_colon {u : List Char} (hu : ∀ c ∈ u, isBlank c = true) : Parts ':' u := by
  refine ⟨by decide, by decide, by decide, ?_⟩
  intro quote hquote
  have hmark : isBlank quote = false ∧ quote ≠ ':' :=
    (by decide : ∀ q ∈ ['"', '\''], isBlank q = false ∧ q ≠ ':') quote hquote
  refine closesNone_of_notMem fun hmem => ?_
  rcases List.mem_cons.mp hmem with hcolon | hblank
  · exact hmark.2 hcolon
  · exact Bool.false_ne_true (hmark.1.symm.trans (hu quote hblank))

section Parts

variable {c : Char} {u : List Char} (h : Parts c u)

include h

theorem quoted_stopsBefore : quoted.StopsBefore (c :: u) := by
  have hquote : ∀ quote ∈ ['"', '\''], (quotedBy quote).StopsBefore (c :: u) := by
    intro quote hquote
    refine quotedBy_stopsBefore (h.closesNone quote hquote) fun hhead => h.ne_quote ?_
    exact Option.some.inj hhead ▸ hquote
  exact (hquote _ (by decide)).orElse (hquote _ (by decide))

theorem quotedName_stopsBefore : quotedName.StopsBefore (c :: u) := by
  intro s
  rw [quotedName, quoted_stopsBefore h, quotedName]
  cases quoted s with
  | none => rfl
  | some read =>
      simp only [Option.map_some, Option.bind_eq_bind, Option.bind_some]
      split <;> rfl

theorem bareName_stopsBefore : bareName.StopsBefore (c :: u) := by
  intro s
  rw [bareName, bareName, takeWhile_append_cons h.isNameChar_eq,
    dropWhile_append_cons h.isNameChar_eq]
  simp only
  split <;> rfl

theorem name_stopsBefore : name.StopsBefore (c :: u) := by
  intro s
  rw [name, (quotedName_stopsBefore h).orElse (bareName_stopsBefore h), name]
  simp only [Option.map_map, Function.comp_def]

theorem operator_stopsBefore {table : Spellings β} (htable : ∀ row ∈ table, c ∉ row.1.toList)
    (wholeNames : Bool) : (operator table wholeNames).StopsBefore (c :: u) :=
  fun s => operator_append_cons h.isNameChar_eq htable wholeNames s u

end Parts

theorem name_stopsAtBreak : name.StopsAtBreak :=
  fun s u => name_stopsBefore (parts_break u) s

end TextDiagram.Matcher
