import TextDiagram.Proofs.FlowWriting

/-!
# Round heads and crosses

The head of an arrow can be an `o` or an `x`. Behind a line of two characters such a head may just
as well start a label, so the arrow is plain only as long as no part that could close that label
stands anywhere behind it.
-/

namespace TextDiagram.Flow

open Text Matcher

theorem isSome_label_of_inlineArrow {s rest : List Char} {a : Arrow}
    (h : inlineArrow s = some (a, rest)) : a.label.isSome = true := by
  obtain ⟨form, _, harrow⟩ := List.exists_of_findSome?_eq_some h
  obtain ⟨t, _, hcut⟩ := Option.bind_eq_some_iff.mp harrow
  obtain ⟨⟨body, after⟩, _, hbody⟩ := Option.bind_eq_some_iff.mp hcut
  obtain ⟨_, heq⟩ := Option.ite_none_left_eq_some.mp hbody
  obtain ⟨rfl, _⟩ := Prod.mk.inj (Option.some.inj heq)
  rfl

/-- A text that starts neither as an arrow nor with a blank is a label exactly if it is closed. -/
theorem InlineForm.arrow_eq_none_iff {form : InlineForm} (hform : form ∈ inlineForms) {c : Char}
    (hblank : isBlank c = false) (hc : isArrowChar c = false) (s : List Char) :
    form.arrow (form.opening.toList ++ c :: s) = none ↔
      cutAny? (form.closings.map String.toList) s = none := by
  have hopening : startsInArrow (c :: s) = false := hc
  rw [form.arrow_opening hopening, cutAny?_cons_of_notMem (form.notMem_closing hform hc)]
  cases hcut : cutAny? (form.closings.map String.toList) s with
  | none => simp
  | some cut =>
      obtain ⟨before, after⟩ := cut
      have hlabel : trim (c :: before) ≠ [] := by
        intro htrim
        have := trim_eq_nil_iff.mp htrim c List.mem_cons_self
        rw [hblank] at this
        exact Bool.false_ne_true this
      simp [hlabel]

/-- A line is the opening of a label exactly if the label is closed somewhere. -/
theorem inlineArrow_eq_none_iff {line : Line} (hline : line.Fits true) {c : Char}
    (hblank : isBlank c = false) {u : List Char} (hu : ∀ d ∈ c :: u, isArrowChar d = false)
    (s : List Char) :
    inlineArrow (line.text ++ c :: (u ++ s)) = none ↔ ∀ form ∈ inlineForms,
      form.opening.toList = line.text → ∀ m ∈ form.closings, occurs m.toList s = false := by
  rw [inlineArrow, List.findSome?_eq_none_iff]
  refine forall₂_congr fun form hform => ?_
  by_cases hopening : form.opening.toList = line.text
  · have hmarks : ∀ m ∈ form.closings.map String.toList, occurs m (u ++ s) = occurs m s := by
      intro m hm
      have hdisjoint : ∀ d ∈ u, d ∉ m := fun d hd =>
        (form.notMem_closing hform (hu d (List.mem_cons_of_mem c hd)) m hm).1
      exact occurs_append_of_disjoint (form.notMem_closing hform (hu c List.mem_cons_self) m hm).2
        hdisjoint s
    rw [← hopening, form.arrow_eq_none_iff hform hblank (hu c List.mem_cons_self),
      cutAny?_eq_none_iff]
    simp only [List.forall_mem_map] at hmarks ⊢
    constructor
    · exact fun h _ m hm => (hmarks m hm).symm.trans (h m hm)
    · exact fun h m hm => (hmarks m hm).trans (h trivial m hm)
  · have hlength : 2 ≤ line.text.length := by
      obtain ⟨c, d, t, hline, _⟩ := line.exists_text_eq hline
      simp [hline]
    simp [hopening, InlineForm.arrow_eq_none hform line.isArrowChar_of_mem_text hlength hopening]

/-! ### Reading -/

theorem isArrowChar_of_isNameChar {c : Char} (hc : isNameChar c = true) : isArrowChar c = false := by
  have harrows : ∀ d ∈ ['-', '.', '=', '>'], isNameChar d = false := by decide
  by_contra h
  have hmem : c ∈ ['-', '.', '=', '>'] := of_decide_eq_true ((Bool.not_eq_false _).mp h)
  rw [harrows c hmem] at hc
  exact Bool.false_ne_true hc

theorem arrow_head {line : Line} (hline : line.Fits true) {head : Char} (hhead : head ∈ ['o', 'x'])
    {t : List Char} (ht : startsInName t = true)
    (hnone : inlineArrow (line.text ++ head :: ' ' :: t) = none) :
    arrow (line.text ++ head :: ' ' :: t) = some (⟨line.style, none⟩, ' ' :: t) := by
  have hstop : (head :: ' ' :: t).head? ≠ some line.last := by
    intro hlast
    obtain rfl := Option.some.inj hlast
    have hround : ∀ c ∈ ['-', '='], c ∉ ['o', 'x'] := by decide
    exact hround _ line.last_mem hhead
  have hpoint : skipPoint (head :: ' ' :: t) = ' ' :: t := by
    have hspace : startsInName (' ' :: t) = false := (by decide : isNameChar ' ' = false)
    rw [skipPoint, if_pos (.inr ⟨hhead, hspace⟩)]
  have hplain : plainArrow (line.text ++ head :: ' ' :: t) = some (line.style, ' ' :: t) := by
    simp [plainArrow, line.skipHead_text hline, Line.arrowBody_text hline hstop, hpoint]
  refine orElse_eq_some_iff.mpr (.inr ⟨hnone, ?_⟩)
  have hpipe := optional_of_eq_none (pipeLabel_eq_none (opensName_of_startsInName ht))
  simp [pipedArrow, hplain, hpipe]

theorem inlineArrow_eq_none_of_chainStep {s rest : List Char} {step : ChainStep}
    (h : chainStep s = some (step, rest)) (hlabel : step.arrow.label = none) :
    inlineArrow (skipGap s) = none := by
  obtain ⟨⟨a, t⟩, harrow, h⟩ := Option.bind_eq_some_iff.mp h
  obtain ⟨⟨n, u⟩, _, heq⟩ := Option.bind_eq_some_iff.mp h
  obtain ⟨rfl, _⟩ := Prod.mk.inj (Option.some.inj heq)
  rcases orElse_eq_some_iff.mp harrow with hinline | ⟨hinline, _⟩
  · have hsome := isSome_label_of_inlineArrow hinline
    rw [hlabel] at hsome
    exact absurd hsome Bool.false_ne_true
  · exact hinline

theorem chain_eq_some_iff_of_bare {a : String} (ha : Bare a) {t : List Char} (ht : SetOff t)
    {step : ChainStep} {steps : List ChainStep} {rest : List Char} :
    chain (a.toList ++ t) = some (⟨⟨a, none⟩, step :: steps⟩, rest) ↔
      ∃ u, chainStep t = some (step, u) ∧ chainSteps u = (steps, rest) := by
  have hnode : nodeRef (a.toList ++ t) = some (⟨a, none⟩, t) := by
    simpa [NodeRef.text] using nodeRef_text (NodeRef.plain_of_bare ha) ht
  cases hstep : chainStep t with
  | none => simp [chain, hnode, chainSteps_of_eq_none hstep]
  | some result =>
      obtain ⟨next, u⟩ := result
      simp only [chain, hnode, chainSteps_of_eq_some hstep, Option.bind_eq_bind, Option.bind_some,
        List.isEmpty_cons, Bool.false_and, Bool.false_eq_true, if_false, Option.some.injEq,
        Chain.mk.injEq, true_and, List.cons.injEq, Prod.ext_iff]
      constructor
      · rintro ⟨⟨rfl, rfl⟩, rfl⟩
        exact ⟨u, ⟨rfl, rfl⟩, rfl, rfl⟩
      · rintro ⟨v, ⟨rfl, rfl⟩, rfl, rfl⟩
        exact ⟨⟨rfl, rfl⟩, rfl⟩

/-- Behind a round head or a cross a chain goes on as it is written exactly if nothing stands in it
that closes a label for which the line is the opening. -/
theorem arrow_with_head_read_iff {a b : String} (ha : Bare a) (hword : a ∉ statementWords)
    (hb : Bare b) {line : Line} (hline : line.Fits true) {head : Char} (hhead : head ∈ ['o', 'x'])
    {rest : List Char} (hrest : SetOff rest) :
    Rule.recognize? rules
        (a.toList ++ ' ' :: (line.text ++ head :: ' ' :: (b.toList ++ rest))) =
      some ("chain",
        .chain ⟨⟨a, none⟩, ⟨⟨line.style, none⟩, ⟨b, none⟩⟩ :: (chainSteps rest).1⟩) ↔
    ∀ form ∈ inlineForms, form.opening.toList = line.text →
      ∀ m ∈ form.closings, occurs m.toList rest = false := by
  have hheads : ∀ c ∈ ['o', 'x'], isBlank c = false ∧ isArrowChar c = false := by decide
  obtain ⟨hblank, harrow⟩ := hheads head hhead
  have hlabel : ∀ c ∈ head :: (' ' :: b.toList), isArrowChar c = false := by
    intro c hc
    rcases List.mem_cons.mp hc with rfl | hc
    · exact harrow
    rcases List.mem_cons.mp hc with rfl | hc
    · decide
    · exact isArrowChar_of_isNameChar (hb.isNameChar c hc)
  have hrecognize := recognize?_append ha hword
    (setOff_cons (line.text ++ head :: ' ' :: (b.toList ++ rest))).startsInName_eq
  refine Iff.trans ?_ (inlineArrow_eq_none_iff hline hblank hlabel rest)
  rw [hrecognize, Option.map_eq_some_iff]
  constructor
  · rintro ⟨⟨c, s⟩, hchain, heq⟩
    obtain rfl : c = ⟨⟨a, none⟩, ⟨⟨line.style, none⟩, ⟨b, none⟩⟩ :: (chainSteps rest).1⟩ := by
      simpa using heq
    obtain ⟨u, hstep, _⟩ := (chain_eq_some_iff_of_bare ha (setOff_cons _)).mp hchain
    have hnone := inlineArrow_eq_none_of_chainStep hstep rfl
    rwa [Line.skipGap_text hline] at hnone
  · intro hnone
    have hname : startsInName (b.toList ++ rest) = true := hb.startsInName_append rest
    have hnode : nodeRef (b.toList ++ rest) = some (⟨b, none⟩, rest) := by
      simpa [NodeRef.text] using nodeRef_text (NodeRef.plain_of_bare hb) hrest
    have hstep : chainStep (' ' :: (line.text ++ head :: ' ' :: (b.toList ++ rest))) =
        some (⟨⟨line.style, none⟩, ⟨b, none⟩⟩, rest) := by
      have harrow := arrow_head hline hhead hname hnone
      have hgap := skipGap_of_opensName (opensName_of_startsInName hname)
      simp [chainStep, Line.skipGap_text hline, harrow, skipGap_space, hgap, hnode]
    have hchain := (chain_eq_some_iff_of_bare ha (setOff_cons _)).mpr ⟨rest, hstep, rfl⟩
    exact ⟨_, hchain, rfl⟩

theorem arrow_with_head_read_before_thick_arrow :
    Bare "A" ∧ "A" ∉ statementWords ∧ Bare "B" ∧ (Line.solid 2).Fits true ∧ SetOff " ==> C".toList ∧
      Rule.recognize? rules "A --o B ==> C".toList =
        some ("chain", .chain ⟨⟨"A", none⟩,
          ⟨⟨.solid, none⟩, ⟨"B", none⟩⟩ :: (chainSteps " ==> C".toList).1⟩) := by
  have ha : Bare "A" := by decide
  have hword : "A" ∉ statementWords := by decide
  have hb : Bare "B" := by decide
  have hline : (Line.solid 2).Fits true := by decide
  have hhead : 'o' ∈ ['o', 'x'] := by decide
  have hrest : SetOff " ==> C".toList := setOff_cons _
  exact ⟨ha, hword, hb, hline, hrest,
    (arrow_with_head_read_iff ha hword hb hline hhead hrest).mpr (by decide)⟩

/-- A later plain arrow closes the label that the head seems to start. -/
theorem arrow_with_head_lost_before_arrow :
    Flow.chain "B --> C".toList = some (⟨⟨"B", none⟩, [⟨⟨.solid, none⟩, ⟨"C", none⟩⟩]⟩, []) ∧
      Rule.recognize? rules "A --o B --> C".toList =
        some ("chain", .chain ⟨⟨"A", none⟩, [⟨⟨.solid, some "o B"⟩, ⟨"C", none⟩⟩]⟩) := by
  constructor <;> decide +kernel

end TextDiagram.Flow
