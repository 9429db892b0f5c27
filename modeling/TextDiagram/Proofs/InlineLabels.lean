import TextDiagram.Proofs.ArrowGrammar

/-!
# The grammar of labels inside arrows

A text starts with an arrow around a label exactly if it is made up of an opening part that does not
go on as an arrow, a text that holds more than blanks, the nearest closing part, and all the arrow
characters behind it. Where no such arrow stands nothing is read.
-/

namespace TextDiagram

namespace Text

/-! ### The nearest mark -/

variable {marks : List (List Char)} {s before mark after : List Char}

/-- In `before ++ (mark ++ after)` no mark starts further to the front, and of the marks that start
behind `before` none is longer. -/
structure NearestMark (marks : List (List Char)) (before mark after : List Char) : Prop where
  mem : mark ∈ marks
  nearest : ∀ other ∈ marks, ∀ u v, before ++ (mark ++ after) = u ++ (other ++ v) →
    before.length ≤ u.length
  longest : ∀ other ∈ marks, other <+: mark ++ after → other.length ≤ mark.length

/-- A text has one nearest mark only. -/
theorem NearestMark.unique {before' mark' after' : List Char}
    (h : NearestMark marks before mark after) (h' : NearestMark marks before' mark' after')
    (heq : before ++ (mark ++ after) = before' ++ (mark' ++ after')) :
    before = before' ∧ mark = mark' ∧ after = after' := by
  have hplace : before.length = before'.length :=
    le_antisymm (h.nearest mark' h'.mem before' after' heq)
      (h'.nearest mark h.mem before after heq.symm)
  obtain ⟨hbefore, hmarks⟩ := List.append_inj heq hplace
  have hlength : mark.length = mark'.length :=
    le_antisymm (h'.longest mark h.mem (hmarks ▸ List.prefix_append mark after))
      (h.longest mark' h'.mem (hmarks ▸ List.prefix_append mark' after'))
  obtain ⟨hmark, hafter⟩ := List.append_inj hmarks hlength
  exact ⟨hbefore, hmark, hafter⟩

/-- Where longer marks come first in the list, the first that stands at the front is the longest. -/
theorem exists_longest_of_stripAny? (hmarks : marks.Pairwise fun m n => n.length ≤ m.length)
    (h : stripAny? marks s = some after) :
    ∃ mark ∈ marks, s = mark ++ after ∧
      ∀ other ∈ marks, other <+: s → other.length ≤ mark.length := by
  obtain ⟨mark, hmem, hmark, hothers⟩ := exists_first_of_findSome? hmarks h
  refine ⟨mark, hmem, strip?_eq_some_iff.mp hmark, ?_⟩
  rintro other hother ⟨v, rfl⟩
  rcases hothers other hother with hnone | rfl | hlength
  · rw [strip?_append] at hnone
    cases hnone
  · exact le_rfl
  · exact hlength

theorem stripAny?_of_cutAny? (h : cutAny? marks s = some (before, after)) :
    ∃ t, s = before ++ t ∧ stripAny? marks t = some after ∧
      ∀ u v, s = u ++ v → u.length < before.length → stripAny? marks v = none := by
  induction s generalizing before with
  | nil =>
      obtain ⟨rest, hrest, hpair⟩ := Option.map_eq_some_iff.mp h
      obtain ⟨rfl, rfl⟩ := Prod.mk.inj hpair
      exact ⟨[], rfl, hrest, fun u v _ hu => absurd hu (Nat.not_lt_zero _)⟩
  | cons c s ih =>
      cases hstrip : stripAny? marks (c :: s) with
      | some rest =>
          simp only [cutAny?, hstrip, Option.some.injEq, Prod.mk.injEq] at h
          obtain ⟨rfl, rfl⟩ := h
          exact ⟨c :: s, rfl, hstrip, fun u v _ hu => absurd hu (Nat.not_lt_zero _)⟩
      | none =>
          simp only [cutAny?, hstrip] at h
          obtain ⟨⟨b, a⟩, hcut, hpair⟩ := Option.map_eq_some_iff.mp h
          obtain ⟨rfl, rfl⟩ := Prod.mk.inj hpair
          obtain ⟨t, rfl, ht, hfront⟩ := ih hcut
          refine ⟨t, rfl, ht, ?_⟩
          intro u v huv hu
          cases u with
          | nil => exact (List.nil_append v).symm.trans huv.symm ▸ hstrip
          | cons d u =>
              obtain ⟨-, huv⟩ := List.cons.inj huv
              exact hfront u v huv (Nat.lt_of_succ_lt_succ hu)

theorem cutAny?_eq_some_iff (hmarks : marks.Pairwise fun m n => n.length ≤ m.length) :
    cutAny? marks s = some (before, after) ↔
      ∃ mark, s = before ++ (mark ++ after) ∧ NearestMark marks before mark after := by
  have hcut : ∀ b a, cutAny? marks s = some (b, a) →
      ∃ mark, s = b ++ (mark ++ a) ∧ NearestMark marks b mark a := by
    intro b a h
    obtain ⟨t, rfl, ht, hfront⟩ := stripAny?_of_cutAny? h
    obtain ⟨mark, hmem, rfl, hlongest⟩ := exists_longest_of_stripAny? hmarks ht
    refine ⟨mark, rfl, hmem, ?_, hlongest⟩
    intro other hother u v huv
    by_contra hu
    have hnone := hfront u (other ++ v) huv (Nat.lt_of_not_le hu)
    have hother := List.findSome?_eq_none_iff.mp hnone other hother
    rw [strip?_append] at hother
    cases hother
  refine ⟨hcut before after, ?_⟩
  rintro ⟨mark, hs, hmark⟩
  cases hfound : cutAny? marks s with
  | none =>
      have hnone := cutAny?_eq_none_iff.mp hfound mark hmark.mem
      have hoccurs : occurs mark s = true :=
        occurs_iff_isInfix.mpr ⟨before, after, by rw [hs, List.append_assoc]⟩
      exact absurd (hoccurs.symm.trans hnone) Bool.false_ne_true.symm
  | some found =>
      obtain ⟨b, a⟩ := found
      obtain ⟨mark', hs', hmark'⟩ := hcut b a hfound
      obtain ⟨rfl, rfl, rfl⟩ := hmark.unique hmark' (hs.symm.trans hs')
      rfl

/-- No mark stands whole in front of the nearest one. -/
theorem NearestMark.not_isInfix (h : NearestMark marks before mark after) {other : List Char}
    (hother : other ∈ marks) (hne : other ≠ []) : ¬ other <:+: before := by
  rintro ⟨u, v, rfl⟩
  have hplace := h.nearest other hother u (v ++ (mark ++ after)) (by simp)
  have hlength := List.length_pos_iff.mpr hne
  simp only [List.length_append] at hplace
  omega

end Text

namespace Flow

open Text Matcher

/-! ### Arrows around a label -/

theorem startsInArrow_dropWhile (s : List Char) :
    startsInArrow (s.dropWhile isArrowChar) = false := by
  induction s with
  | nil => rfl
  | cons c s ih =>
      cases hc : isArrowChar c with
      | true => rwa [List.dropWhile_cons_of_pos hc]
      | false =>
          rw [List.dropWhile_cons_of_neg (by simp [hc])]
          exact hc

theorem dropWhile_isArrowChar_append {run rest : List Char}
    (hrun : ∀ c ∈ run, isArrowChar c = true) (hrest : startsInArrow rest = false) :
    (run ++ rest).dropWhile isArrowChar = rest := by
  rw [List.dropWhile_append_of_pos hrun]
  cases rest with
  | nil => rfl
  | cons c rest =>
      have hc : isArrowChar c = false := hrest
      exact List.dropWhile_cons_of_neg (by simp [hc])

namespace InlineForm

variable {form : InlineForm} {s body closing run rest : List Char} {a : Arrow}

/-- How a text is made up that starts with an arrow around `body`. -/
structure Encloses (form : InlineForm) (s body closing run rest : List Char) : Prop where
  eq_append : s = form.opening.toList ++ (body ++ (closing ++ (run ++ rest)))
  /-- The opening does not go on as an arrow. -/
  opens : startsInArrow (body ++ (closing ++ (run ++ rest))) = false
  closes : NearestMark (form.closings.map String.toList) body closing (run ++ rest)
  run_isArrowChar : ∀ c ∈ run, isArrowChar c = true
  run_ends : startsInArrow rest = false

/-- The arrow has the style of the form and the trimmed text for its label. -/
structure Labels (form : InlineForm) (body : List Char) (a : Arrow) : Prop where
  style_eq : a.style = form.style
  label_eq : a.label = some (String.ofList (trim body))
  ne_nil : trim body ≠ []
  free : ∀ mark ∈ form.closings, ¬ mark.toList <:+: trim body

theorem pairwise_closings (hform : form ∈ inlineForms) :
    (form.closings.map String.toList).Pairwise fun m n => n.length ≤ m.length :=
  (by decide : ∀ f ∈ inlineForms,
    (f.closings.map String.toList).Pairwise fun m n => n.length ≤ m.length) form hform

theorem Encloses.labels (hform : form ∈ inlineForms) (h : form.Encloses s body closing run rest)
    (hne : trim body ≠ []) : form.Labels body ⟨form.style, some (String.ofList (trim body))⟩ where
  style_eq := rfl
  label_eq := rfl
  ne_nil := hne
  free := by
    intro mark hmark hpart
    have hmem := List.mem_map_of_mem (f := String.toList) hmark
    have hnonempty := (form.notMem_closing hform (by decide : isArrowChar ' ' = false) _ hmem).2
    exact h.closes.not_isInfix hmem hnonempty (hpart.trans (trim_isInfix body))

theorem arrow_eq_some_iff (hform : form ∈ inlineForms) :
    form.arrow s = some (a, rest) ↔
      ∃ body closing run, form.Encloses s body closing run rest ∧ form.Labels body a := by
  constructor
  · intro h
    obtain ⟨t, hopening, h⟩ := Option.bind_eq_some_iff.mp h
    obtain ⟨⟨body, after⟩, hcut, h⟩ := Option.bind_eq_some_iff.mp h
    obtain ⟨hfull, heq⟩ := Option.ite_none_left_eq_some.mp h
    obtain ⟨rfl, rfl⟩ := Prod.mk.inj (Option.some.inj heq)
    obtain ⟨hstrip, hopens⟩ := Option.filter_eq_some_iff.mp hopening
    obtain ⟨closing, rfl, hnearest⟩ := (cutAny?_eq_some_iff (form.pairwise_closings hform)).mp hcut
    have hafter : after.takeWhile isArrowChar ++ after.dropWhile isArrowChar = after :=
      List.takeWhile_append_dropWhile
    have hencloses : form.Encloses s body closing (after.takeWhile isArrowChar)
        (after.dropWhile isArrowChar) :=
      { eq_append := by rw [hafter]; exact strip?_eq_some_iff.mp hstrip
        opens := by simpa [hafter] using hopens
        closes := by rwa [hafter]
        run_isArrowChar := fun c hc => List.mem_takeWhile_imp hc
        run_ends := startsInArrow_dropWhile after }
    exact ⟨body, closing, _, hencloses, hencloses.labels hform (by simpa using hfull)⟩
  · rintro ⟨body, closing, run, hencloses, hlabels⟩
    have hcut := (cutAny?_eq_some_iff (form.pairwise_closings hform)).mpr
      ⟨closing, rfl, hencloses.closes⟩
    have hdrop := dropWhile_isArrowChar_append hencloses.run_isArrowChar hencloses.run_ends
    obtain ⟨style, label⟩ := a
    obtain ⟨rfl, rfl, hne, -⟩ := hlabels
    rw [hencloses.eq_append, form.arrow_opening hencloses.opens, hcut]
    simp [hne, hdrop, restText]

/-- An opening that goes on as an arrow, or that nothing closes, opens no label. -/
theorem arrow_opening_eq_none {t : List Char}
    (h : startsInArrow t = true ∨ ∀ mark ∈ form.closings, ¬ mark.toList <:+: t) :
    form.arrow (form.opening.toList ++ t) = none := by
  cases hopens : startsInArrow t with
  | true => simp [arrow, Option.filter_some, hopens]
  | false =>
      have hcut : cutAny? (form.closings.map String.toList) t = none := by
        rw [cutAny?_eq_none_iff]
        intro m hm
        obtain ⟨mark, hmark, rfl⟩ := List.mem_map.mp hm
        rw [← Bool.not_eq_true, occurs_iff_isInfix]
        exact h.resolve_left (fun h => Bool.false_ne_true (hopens.symm.trans h)) mark hmark
      rw [form.arrow_opening hopens, hcut]
      rfl

end InlineForm

theorem inlineArrow_eq_some_iff {s rest : List Char} {a : Arrow} :
    inlineArrow s = some (a, rest) ↔ ∃ form ∈ inlineForms, ∃ body closing run,
      form.Encloses s body closing run rest ∧ form.Labels body a := by
  constructor
  · intro h
    obtain ⟨form, hform, h⟩ := List.exists_of_findSome?_eq_some h
    exact ⟨form, hform, (form.arrow_eq_some_iff hform).mp h⟩
  · rintro ⟨form, hform, h⟩
    have harrow := (form.arrow_eq_some_iff hform).mpr h
    obtain ⟨body, closing, run, hencloses, -⟩ := h
    rw [hencloses.eq_append] at harrow ⊢
    rwa [inlineArrow_opening hform]

theorem inlineArrow_opening_eq_none {form : InlineForm} (hform : form ∈ inlineForms)
    {t : List Char} (h : startsInArrow t = true ∨ ∀ mark ∈ form.closings, ¬ mark.toList <:+: t) :
    inlineArrow (form.opening.toList ++ t) = none := by
  rw [inlineArrow_opening hform, form.arrow_opening_eq_none h]

/-! ### Reading from the front of the text -/

/-- All tests are made on a copy of the text, and the reader moves only when they have passed. -/
def InlineForm.read (form : InlineForm) : Reader Arrow := do
  let s ← get
  match strip? form.opening.toList s with
  | none => failure
  | some t =>
    if startsInArrow t then failure
    else
      match cutAny? (form.closings.map String.toList) t with
      | none => failure
      | some (body, rest) =>
        if (trim body).isEmpty then failure
        else
          set (rest.dropWhile isArrowChar)
          return ⟨form.style, some (restText body)⟩

/-- The forms are tried one after the other, and nothing is taken back between two of them. -/
def readInlineArrow : Reader Arrow :=
  inlineForms.foldr (fun form later => form.read <|> later) failure

theorem InlineForm.run_read (form : InlineForm) (s : List Char) :
    form.read.run s = Matcher.optional form.arrow s := by
  rw [read, Reader.run_bind, Reader.run_get]
  cases hstrip : strip? form.opening.toList s with
  | none => simp [Matcher.optional, InlineForm.arrow, hstrip]
  | some t =>
      cases hopens : startsInArrow t with
      | true => simp [Matcher.optional, InlineForm.arrow, hstrip, hopens, Option.filter_some]
      | false =>
          cases hcut : cutAny? (form.closings.map String.toList) t with
          | none =>
              simp [Matcher.optional, InlineForm.arrow, hstrip, hopens, Option.filter_some, hcut]
          | some result =>
              obtain ⟨body, rest⟩ := result
              by_cases hempty : trim body = []
              · simp [Matcher.optional, InlineForm.arrow, hstrip, hopens, Option.filter_some, hcut,
                  hempty]
              · simp [Matcher.optional, InlineForm.arrow, hstrip, hopens, Option.filter_some, hcut,
                  hempty]
                rfl

theorem run_readInlineArrow (s : List Char) :
    readInlineArrow.run s = Matcher.optional inlineArrow s :=
  Reader.run_foldr_orElse InlineForm.run_read inlineForms s

/-- On every text: an arrow around a label is read exactly if the text is made up of an opening, a
body, the nearest of the closings of this opening, all arrow characters behind it, and the rest. Its
label is the trimmed body, which is not empty and holds none of these closings. A reader that never
goes back does the same, and where nothing is read it stands where it stood. In particular nothing
is read where an opening goes on as an arrow or has no closing behind it. -/
theorem inlineArrow_grammar (s : List Char) :
    (∀ a rest, inlineArrow s = some (a, rest) ↔
        ∃ form ∈ inlineForms, ∃ body closing run,
          form.Encloses s body closing run rest ∧ form.Labels body a) ∧
      (∀ a rest, inlineArrow s = some (a, rest) → readInlineArrow.run s = (some a, rest)) ∧
      (inlineArrow s = none → readInlineArrow.run s = (none, s)) ∧
      ∀ form ∈ inlineForms, ∀ t, s = form.opening.toList ++ t →
        (startsInArrow t = true ∨ ∀ mark ∈ form.closings, ¬ mark.toList <:+: t) →
          inlineArrow s = none := by
  refine ⟨fun a rest => inlineArrow_eq_some_iff, ?_, ?_, ?_⟩
  · intro a rest hsome
    rw [run_readInlineArrow, optional_of_eq_some hsome]
  · intro hnone
    rw [run_readInlineArrow, optional_of_eq_none hnone]
  · rintro form hform t rfl h
    exact inlineArrow_opening_eq_none hform h

/-- A closing of another form belongs to the label, and the longer closing is taken off whole. A
plain arrow is left alone although a label stands further on. -/
theorem inlineArrow_grammar_long_closing :
    (∃ form ∈ inlineForms, ∃ body closing run,
      form.Encloses "-- a .- b --->- C".toList body closing run " C".toList ∧
        form.Labels body ⟨.solid, some "a .- b"⟩) ∧
      inlineArrow "--> B -- x --> C".toList = none := by
  have hsolid : ⟨"--", ["-->", "---"], .solid⟩ ∈ inlineForms := by decide
  refine ⟨((inlineArrow_grammar _).1 _ _).mp (by decide +kernel), ?_⟩
  exact (inlineArrow_grammar _).2.2.2 _ hsolid "> B -- x --> C".toList rfl (.inl rfl)

end Flow

end TextDiagram
