import TextDiagram.Flow.Arrow
import TextDiagram.Proofs.Names

/-!
# Writing an arrow

An arrow has a line of any length and may have a head at either end, with its label in pipes behind
it, or else the label stands between the two parts of an inline form. However an arrow is written,
it is read back with its style and its label, and nothing behind it is read with it.
-/

namespace TextDiagram.Flow

open Text Matcher

/-! ### Lines -/

/-- The line of an arrow, with the lengths of its runs. -/
inductive Line where
  | solid (dashes : Nat)
  | dashed (dots dashes : Nat)
  | thick (signs : Nat)

namespace Line

def text : Line → List Char
  | solid n => List.replicate n '-'
  | dashed k n => '-' :: (List.replicate k '.' ++ List.replicate n '-')
  | thick n => List.replicate n '='

def style : Line → EdgeKind
  | solid _ => .solid
  | dashed .. => .dashed
  | thick _ => .thick

/-- The character that a line ends in. More of them make the line longer. -/
def last : Line → Char
  | solid _ | dashed .. => '-'
  | thick _ => '='

theorem last_mem (line : Line) : line.last ∈ ['-', '='] := by
  cases line <;> simp [last]

/-- A line of two characters needs a point to be an arrow of its own. -/
def Fits (point : Bool) : Line → Prop
  | solid n | thick n => if point then 2 ≤ n else 3 ≤ n
  | dashed k n => 1 ≤ k ∧ 1 ≤ n

instance (point : Bool) : (line : Line) → Decidable (line.Fits point)
  | solid n | thick n => inferInstanceAs (Decidable (if point then 2 ≤ n else 3 ≤ n))
  | dashed k n => inferInstanceAs (Decidable (1 ≤ k ∧ 1 ≤ n))

end Line

/-- An arrow with its label behind it, if it has one. The head `back` is at the source, the head
`point` at the target. -/
structure PlainForm where
  line : Line
  back : Bool
  point : Bool
  fits : line.Fits point

def pointText (point : Bool) : List Char :=
  if point then ['>'] else []

def PlainForm.text (f : PlainForm) : List Char :=
  (if f.back then ['<'] else []) ++ f.line.text ++ pointText f.point

theorem run?_replicate {c : Char} {n : Nat} (hn : 1 ≤ n) {t : List Char} (ht : t.head? ≠ some c) :
    run? c (List.replicate n c ++ t) = some t := by
  obtain ⟨n, rfl⟩ := Nat.exists_eq_add_of_le' hn
  have hdrop : (List.replicate n c ++ t).dropWhile (fun d => d == c) = t := by
    rw [List.dropWhile_append_of_pos (by simp)]
    cases t with
    | nil => rfl
    | cons d t => exact List.dropWhile_cons_of_neg (by simpa using ht)
  rw [List.replicate_succ, List.cons_append, run?, strip?, if_pos rfl, strip?_nil, Option.map_some,
    hdrop]

theorem evenBody?_replicate {c : Char} {n : Nat} (hn : 2 ≤ n) {t : List Char}
    (ht : t.head? ≠ some c) : evenBody? c (List.replicate n c ++ t) = some t := by
  obtain ⟨n, rfl⟩ := Nat.exists_eq_add_of_le' hn
  have hrun := run?_replicate (n := n + 1) (by omega) ht
  simp [evenBody?, List.replicate_succ (n := n + 1), strip?, hrun]

/-- A line is read up to the first character with which it does not go on. No line is read as one of
a kind that is tried earlier. -/
theorem Line.arrowBody_text {line : Line} (h : line.Fits true) {t : List Char}
    (ht : t.head? ≠ some line.last) : arrowBody (line.text ++ t) = some (line.style, t) := by
  cases line with
  | solid n =>
      have hbody : evenBody? '-' (text (.solid n) ++ t) = some t := evenBody?_replicate h ht
      have hdotted : dottedBody? (text (.solid n) ++ t) = none := by
        obtain ⟨m, rfl⟩ := Nat.exists_eq_add_of_le' h
        simp [text, dottedBody?, run?, strip?, List.replicate_succ]
      rw [arrowBody, hdotted, hbody]
      rfl
  | dashed k n =>
      have hdash : t.head? ≠ some '-' := ht
      have hdots : run? '.' (List.replicate k '.' ++ (List.replicate n '-' ++ t)) =
          some (List.replicate n '-' ++ t) := by
        apply run?_replicate h.1
        obtain ⟨m, rfl⟩ := Nat.exists_eq_add_of_le' h.2
        simp [List.replicate_succ]
      have hbody : dottedBody? (text (.dashed k n) ++ t) = some t := by
        simp [text, dottedBody?, strip?, hdots, run?_replicate h.2 hdash]
      rw [arrowBody, hbody]
      rfl
  | thick n =>
      have hbody : evenBody? '=' (text (.thick n) ++ t) = some t := evenBody?_replicate h ht
      obtain ⟨m, hm⟩ := Nat.exists_eq_add_of_le' h
      have hdotted : dottedBody? (text (.thick n) ++ t) = none := by
        simp [text, dottedBody?, strip?, hm, List.replicate_succ]
      have hsolid : evenBody? '-' (text (.thick n) ++ t) = none := by
        simp [text, evenBody?, strip?, hm, List.replicate_succ]
      rw [arrowBody, hdotted, hsolid, hbody]
      rfl

theorem Line.exists_text_eq {line : Line} (h : line.Fits true) :
    ∃ c d s, line.text = c :: d :: s ∧ c ∈ ['-', '='] := by
  cases line with
  | solid n =>
      obtain ⟨m, rfl⟩ := Nat.exists_eq_add_of_le' h
      exact ⟨'-', '-', List.replicate m '-', rfl, by decide⟩
  | dashed k n =>
      obtain ⟨m, rfl⟩ := Nat.exists_eq_add_of_le' h.1
      exact ⟨'-', '.', List.replicate m '.' ++ List.replicate n '-', rfl, by decide⟩
  | thick n =>
      obtain ⟨m, rfl⟩ := Nat.exists_eq_add_of_le' h
      exact ⟨'=', '=', List.replicate m '=', rfl, by decide⟩

theorem Line.Fits.of_point {line : Line} {point : Bool} (h : line.Fits point) : line.Fits true := by
  cases point with
  | true => exact h
  | false =>
      cases line with
      | solid n => exact Nat.le_of_succ_le h
      | dashed k n => exact h
      | thick n => exact Nat.le_of_succ_le h

theorem Line.isArrowChar_of_mem_text (line : Line) : ∀ c ∈ line.text, isArrowChar c = true := by
  have hchars : ∀ c ∈ ['-', '.', '='], isArrowChar c = true := by decide
  intro c hc
  refine hchars c ?_
  cases line with
  | solid n | thick n => simp [List.eq_of_mem_replicate hc]
  | dashed k n =>
      rcases List.mem_cons.mp hc with rfl | hc
      · simp
      · rcases List.mem_append.mp hc with hc | hc <;> simp [List.eq_of_mem_replicate hc]

theorem Line.length_text {line : Line} {point : Bool} (h : line.Fits point) :
    3 ≤ (line.text ++ pointText point).length := by
  cases line with
  | solid n | thick n =>
      cases point with
      | true =>
          have hn : 2 ≤ n := h
          simp only [text, pointText, List.length_append, List.length_replicate, if_true,
            List.length_singleton]
          omega
      | false =>
          have hn : 3 ≤ n := h
          simpa [text, pointText] using hn
  | dashed k n =>
      obtain ⟨hk, hn⟩ := h
      simp only [text, List.length_append, List.length_cons, List.length_replicate]
      omega

theorem Line.skipGap_text {line : Line} (h : line.Fits true) (t : List Char) :
    skipGap (' ' :: (line.text ++ t)) = line.text ++ t := by
  obtain ⟨c, d, s, hline, hc⟩ := line.exists_text_eq h
  rw [hline]
  exact skipGap_cons ((by decide : ∀ c ∈ ['-', '='], isGap c = false) c hc) _

/-! ### Openings of labels -/

namespace InlineForm

theorem length_opening {form : InlineForm} (hform : form ∈ inlineForms) :
    form.opening.toList.length = 2 :=
  (by decide : ∀ f ∈ inlineForms, f.opening.toList.length = 2) form hform

theorem opening_ne_nil {form : InlineForm} (hform : form ∈ inlineForms) :
    form.opening.toList ≠ [] := by
  intro hnil
  have hlength := length_opening hform
  rw [hnil] at hlength
  cases hlength

theorem isArrowChar_of_mem_opening {form : InlineForm} (hform : form ∈ inlineForms) :
    ∀ c ∈ form.opening.toList, isArrowChar c = true :=
  (by decide : ∀ f ∈ inlineForms, ∀ c ∈ f.opening.toList, isArrowChar c = true) form hform

theorem notMem_closing {form : InlineForm} (hform : form ∈ inlineForms) {c : Char}
    (hc : isArrowChar c = false) : ∀ m ∈ form.closings.map String.toList, c ∉ m ∧ m ≠ [] := by
  have hmarks : ∀ f ∈ inlineForms, ∀ m ∈ f.closings.map String.toList,
      (∀ d ∈ m, isArrowChar d = true) ∧ m ≠ [] := by decide
  intro m hm
  obtain ⟨hchars, hne⟩ := hmarks form hform m hm
  refine ⟨fun hmem => ?_, hne⟩
  rw [hchars c hmem] at hc
  exact Bool.false_ne_true hc.symm

/-- Two arrow characters open a label only where no further one follows. -/
theorem arrow_eq_none {form : InlineForm} (hform : form ∈ inlineForms) {u : List Char}
    (hu : ∀ c ∈ u, isArrowChar c = true) (hlength : 2 ≤ u.length)
    (hne : form.opening.toList ≠ u) (s : List Char) : form.arrow (u ++ s) = none := by
  have hopening : (strip? form.opening.toList (u ++ s)).filter (!startsInArrow ·) = none := by
    rw [Option.filter_eq_none_iff]
    intro rest hrest
    have hsplit := strip?_eq_some_iff.mp hrest
    obtain ⟨v, rfl⟩ : form.opening.toList <+: u :=
      List.prefix_of_prefix_length_le (hsplit ▸ List.prefix_append _ rest)
        (List.prefix_append u s) ((length_opening hform).symm ▸ hlength)
    cases v with
    | nil => exact absurd (List.append_nil _).symm hne
    | cons c v =>
        rw [List.append_assoc, List.append_cancel_left_eq] at hsplit
        simp [← hsplit, startsInArrow, hu c (by simp)]
  simp [arrow, hopening]

/-- An opening that does not go on as an arrow is followed by a label. -/
theorem arrow_opening (form : InlineForm) {s : List Char} (hs : startsInArrow s = false) :
    form.arrow (form.opening.toList ++ s) = (do
      let (body, rest) ← cutAny? (form.closings.map String.toList) s
      if (trim body).isEmpty then none
      else some (⟨form.style, some (restText body)⟩, rest.dropWhile isArrowChar)) := by
  simp [arrow, Option.filter_some, hs]

end InlineForm

theorem inlineArrow_opening {form : InlineForm} (hform : form ∈ inlineForms) (s : List Char) :
    inlineArrow (form.opening.toList ++ s) = form.arrow (form.opening.toList ++ s) := by
  have hopenings : ∀ other ∈ inlineForms, other = form ∨
      other.opening.toList ≠ form.opening.toList := by
    revert form
    simp [inlineForms]
  have hothers : ∀ other ∈ inlineForms, other = form ∨
      other.arrow (form.opening.toList ++ s) = none := by
    intro other hother
    rcases hopenings other hother with rfl | hne
    · exact .inl rfl
    · exact .inr (other.arrow_eq_none hother (form.isArrowChar_of_mem_opening hform)
        (form.length_opening hform).ge hne s)
  exact findSome?_eq_of_mem hform hothers

/-! ### Plain arrows -/

theorem Line.skipHead_text {line : Line} (h : line.Fits true) (t : List Char) :
    skipHead (line.text ++ t) = line.text ++ t := by
  obtain ⟨c, d, s, hline, hc⟩ := line.exists_text_eq h
  have hhead : c ∉ ['<', 'o', 'x'] := (by decide : ∀ c ∈ ['-', '='], c ∉ ['<', 'o', 'x']) c hc
  simp [hline, skipHead, hhead]

/-- What may stand in front of a line. -/
def heads : List (List Char) :=
  [[], ['<'], ['o'], ['x']]

theorem skipHead_append {head : List Char} (hhead : head ∈ heads) {line : Line}
    (hline : line.Fits true) (t : List Char) :
    skipHead (head ++ (line.text ++ t)) = line.text ++ t := by
  rcases List.mem_cons.mp hhead with rfl | hmarks
  · exact line.skipHead_text hline t
  · obtain ⟨c, d, s, htext, hc⟩ := line.exists_text_eq hline
    have hbody : c = '-' ∨ c = '=' := by simpa using hc
    simp only [List.mem_cons, List.not_mem_nil, or_false] at hmarks
    rcases hmarks with rfl | rfl | rfl <;> simp [htext, skipHead, hbody]

namespace PlainForm

theorem skipGap_text (f : PlainForm) (t : List Char) :
    skipGap (' ' :: (f.text ++ t)) = f.text ++ t := by
  cases hback : f.back with
  | true => simpa [text, hback] using skipGap_cons rfl _
  | false => simpa [text, hback] using Line.skipGap_text f.fits.of_point _

theorem skipHead_text (f : PlainForm) (t : List Char) :
    skipHead (f.text ++ t) = f.line.text ++ (pointText f.point ++ t) := by
  have hskip : ∀ head ∈ heads, skipHead (head ++ (f.line.text ++ (pointText f.point ++ t))) =
      f.line.text ++ (pointText f.point ++ t) := fun _ hhead =>
    skipHead_append hhead f.fits.of_point _
  cases hback : f.back with
  | true => simpa [text, hback] using hskip ['<'] (by simp [heads])
  | false => simpa [text, hback] using hskip [] (by simp [heads])

theorem plainArrow_text (f : PlainForm) {c : Char} (hc : c ∉ ['-', '.', '=', '>', 'o', 'x'])
    (t : List Char) : plainArrow (f.text ++ c :: t) = some (f.line.style, c :: t) := by
  simp only [List.mem_cons, List.not_mem_nil, or_false, not_or] at hc
  have hstop : (pointText f.point ++ c :: t).head? ≠ some f.line.last := by
    cases f.point <;> cases f.line <;> simp [pointText, Line.last, hc]
  have hskip : skipPoint (pointText f.point ++ c :: t) = c :: t := by
    cases f.point <;> simp [pointText, skipPoint, hc]
  simp [plainArrow, skipHead_text, Line.arrowBody_text f.fits.of_point hstop, hskip]

/-- No plain arrow is mistaken for the opening of an inline form. -/
theorem inlineArrow_text (f : PlainForm) (t : List Char) : inlineArrow (f.text ++ t) = none := by
  rw [inlineArrow, List.findSome?_eq_none_iff]
  intro form hform
  cases hback : f.back with
  | true =>
      have hhead : '<' ∉ form.opening.toList := fun hmem =>
        absurd (form.isArrowChar_of_mem_opening hform '<' hmem) (by decide)
      have hstrip := strip?_cons_of_notMem hhead (form.opening_ne_nil hform)
        (f.line.text ++ (pointText f.point ++ t))
      simp [InlineForm.arrow, text, hback, hstrip]
  | false =>
      have hlong := Line.length_text f.fits
      have hchars : ∀ c ∈ f.line.text ++ pointText f.point, isArrowChar c = true := by
        intro c hc
        rcases List.mem_append.mp hc with hc | hc
        · exact f.line.isArrowChar_of_mem_text c hc
        · cases hpoint : f.point <;> simp [pointText, hpoint] at hc
          simp [hc, isArrowChar]
      have htext : f.text = f.line.text ++ pointText f.point := by simp [text, hback]
      rw [htext]
      refine InlineForm.arrow_eq_none hform hchars (by omega) ?_ t
      intro heq
      rw [← heq, form.length_opening hform] at hlong
      omega

end PlainForm

/-! ### Arrows with labels -/

/-- A label that is read as it is written: trimmed, and not empty. -/
structure Trimmed (label : String) : Prop where
  trim_eq : trim label.toList = label.toList
  ne_nil : label.toList ≠ []

instance (label : String) : Decidable (Trimmed label) :=
  decidable_of_iff (trim label.toList = label.toList ∧ label.toList ≠ [])
    ⟨fun h => ⟨h.1, h.2⟩, fun h => ⟨h.trim_eq, h.ne_nil⟩⟩

theorem Trimmed.restText_eq {label : String} (h : Trimmed label) :
    restText label.toList = label := by
  rw [restText, h.trim_eq, String.ofList_toList]

theorem pipeLabel_eq_none {t : List Char} (ht : opensName t = true) :
    pipeLabel (' ' :: t) = none := by
  cases t with
  | nil => exact absurd ht Bool.false_ne_true
  | cons c t =>
      have hpipe : '|' ≠ c := (ne_of_opensName ht (by decide)).symm
      simp [pipeLabel, skipGap_space, skipGap_of_opensName ht, between, strip?, hpipe]

theorem pipedArrow_text (f : PlainForm) {t : List Char} (ht : opensName t = true) :
    pipedArrow (f.text ++ ' ' :: t) = some (⟨f.line.style, none⟩, ' ' :: t) := by
  have hplain := f.plainArrow_text (by decide : ' ' ∉ _) t
  simp [pipedArrow, hplain, optional_of_eq_none (pipeLabel_eq_none ht)]

theorem pipedArrow_text_append (f : PlainForm) {label : String} (hlabel : Trimmed label)
    (hpipe : '|' ∉ label.toList) (t : List Char) :
    pipedArrow (f.text ++ '|' :: (label.toList ++ '|' :: t)) =
      some (⟨f.line.style, some label⟩, t) := by
  have hplain := f.plainArrow_text (by decide : '|' ∉ _) (label.toList ++ '|' :: t)
  have hcut := cut?_singleton_append hpipe t
  have hbetween : pipeLabel ('|' :: (label.toList ++ '|' :: t)) = some (label, t) := by
    have hgap : skipGap ('|' :: (label.toList ++ '|' :: t)) = '|' :: (label.toList ++ '|' :: t) :=
      rfl
    simp [pipeLabel, hgap, between, strip?, hcut, hlabel.restText_eq]
  simp [pipedArrow, hplain, optional_of_eq_some hbetween]

/-- How a link can be written. -/
inductive LinkForm where
  | plain (form : PlainForm)
  | piped (form : PlainForm) (label : String)
  | inline (form : InlineForm) (label closing : String)

namespace LinkForm

def text : LinkForm → List Char
  | plain form => form.text
  | piped form label => form.text ++ '|' :: (label.toList ++ ['|'])
  | inline form label closing =>
      form.opening.toList ++ ' ' :: (label.toList ++ ' ' :: closing.toList)

def arrow : LinkForm → Arrow
  | plain form => ⟨form.line.style, none⟩
  | piped form label => ⟨form.line.style, some label⟩
  | inline form label _ => ⟨form.style, some label⟩

/-- A label does not hold what it ends with. -/
def Fits : LinkForm → Prop
  | plain _ => True
  | piped _ label => Trimmed label ∧ '|' ∉ label.toList
  | inline form label closing => form ∈ inlineForms ∧ closing ∈ form.closings ∧ Trimmed label ∧
      ∀ mark ∈ form.closings, occurs mark.toList label.toList = false

deriving instance DecidableEq for InlineForm

instance : (l : LinkForm) → Decidable l.Fits
  | plain _ => inferInstanceAs (Decidable True)
  | piped _ label => inferInstanceAs (Decidable (Trimmed label ∧ '|' ∉ label.toList))
  | inline form label closing =>
      inferInstanceAs (Decidable (form ∈ inlineForms ∧ closing ∈ form.closings ∧ Trimmed label ∧
        ∀ mark ∈ form.closings, occurs mark.toList label.toList = false))

end LinkForm

/-- A closing part, which may be the start of a longer one, ends in front of a space. -/
theorem stripAny?_closing {form : InlineForm} (hform : form ∈ inlineForms) {closing : String}
    (hclosing : closing ∈ form.closings) (t : List Char) :
    stripAny? (form.closings.map String.toList) (closing.toList ++ ' ' :: t) = some (' ' :: t) := by
  have hspace : ∀ m ∈ form.closings.map String.toList, ' ' ∉ m := fun m hm =>
    (form.notMem_closing hform (by decide : isArrowChar ' ' = false) m hm).1
  have hwhole : ∀ f ∈ inlineForms, ∀ c ∈ f.closings,
      stripAny? (f.closings.map String.toList) c.toList = some [] := by decide
  rw [stripAny?_append_cons hspace, hwhole form hform closing hclosing]
  rfl

theorem cutAny?_closing {form : InlineForm} (hform : form ∈ inlineForms) {closing : String}
    (hclosing : closing ∈ form.closings) {label : List Char}
    (hfree : ∀ mark ∈ form.closings, occurs mark.toList label = false) (t : List Char) :
    cutAny? (form.closings.map String.toList)
        (' ' :: (label ++ ' ' :: (closing.toList ++ ' ' :: t))) =
      some (' ' :: (label ++ [' ']), ' ' :: t) := by
  have hmarks := form.notMem_closing hform (by decide : isArrowChar ' ' = false)
  have hnone : cutAny? (form.closings.map String.toList) (' ' :: label) = none := by
    rw [cutAny?_eq_none_iff]
    intro m hm
    have hdisjoint : ∀ c ∈ [' '], c ∉ m := by simpa using (hmarks m hm).1
    obtain ⟨mark, hmark, rfl⟩ := List.mem_map.mp hm
    exact (occurs_append_of_disjoint (hmarks _ hm).2 hdisjoint label).trans (hfree mark hmark)
  have hend : cutAny? (form.closings.map String.toList) (closing.toList ++ ' ' :: t) =
      some ([], ' ' :: t) := by
    have hstrip := stripAny?_closing hform hclosing t
    cases hs : closing.toList ++ ' ' :: t with
    | nil => simp at hs
    | cons c s =>
        rw [hs] at hstrip
        simp [cutAny?, hstrip]
  have hcut := cutAny?_append_cons hmarks hnone (closing.toList ++ ' ' :: t)
  rw [hend] at hcut
  exact hcut

theorem inlineArrow_text {form : InlineForm} (hform : form ∈ inlineForms) {closing : String}
    (hclosing : closing ∈ form.closings) {label : String} (hlabel : Trimmed label)
    (hfree : ∀ mark ∈ form.closings, occurs mark.toList label.toList = false) (t : List Char) :
    inlineArrow ((LinkForm.inline form label closing).text ++ ' ' :: t) =
      some (⟨form.style, some label⟩, ' ' :: t) := by
  have hspace : isBlank ' ' = true := by decide
  have htrim : trim (' ' :: (label.toList ++ [' '])) = label.toList := by
    rw [trim_cons hspace, trim_concat hspace, hlabel.trim_eq]
  have hcut := cutAny?_closing hform hclosing hfree t
  have htext : (LinkForm.inline form label closing).text ++ ' ' :: t =
      form.opening.toList ++ ' ' :: (label.toList ++ ' ' :: (closing.toList ++ ' ' :: t)) := by
    simp [LinkForm.text]
  rw [htext, inlineArrow_opening hform, form.arrow_opening rfl, hcut]
  simp [htrim, hlabel.ne_nil, restText, isArrowChar]

theorem arrow_text {l : LinkForm} (hl : l.Fits) {t : List Char} (ht : opensName t = true) :
    arrow (l.text ++ ' ' :: t) = some (l.arrow, ' ' :: t) := by
  cases l with
  | plain form =>
      refine orElse_eq_some_iff.mpr (.inr ⟨form.inlineArrow_text _, ?_⟩)
      exact pipedArrow_text form ht
  | piped form label =>
      obtain ⟨hlabel, hpipe⟩ := hl
      have htext : (LinkForm.piped form label).text ++ ' ' :: t =
          form.text ++ '|' :: (label.toList ++ '|' :: ' ' :: t) := by
        simp [LinkForm.text]
      rw [htext]
      refine orElse_eq_some_iff.mpr (.inr ⟨form.inlineArrow_text _, ?_⟩)
      exact pipedArrow_text_append form hlabel hpipe (' ' :: t)
  | inline form label closing =>
      obtain ⟨hform, hclosing, hlabel, hfree⟩ := hl
      exact orElse_eq_some_iff.mpr (.inl (inlineArrow_text hform hclosing hlabel hfree t))

theorem LinkForm.skipGap_text {l : LinkForm} (hl : l.Fits) (t : List Char) :
    skipGap (' ' :: (l.text ++ t)) = l.text ++ t := by
  cases l with
  | plain form => exact form.skipGap_text t
  | piped form label => simpa [text] using form.skipGap_text ('|' :: (label.toList ++ '|' :: t))
  | inline form label closing =>
      have hgap : ∀ c ∈ ['-', '.', '=', '>'], isGap c = false := by decide
      obtain ⟨c, s, hopening⟩ := List.exists_cons_of_ne_nil (form.opening_ne_nil hl.1)
      have hc : isArrowChar c = true :=
        form.isArrowChar_of_mem_opening hl.1 c (by simp [hopening])
      simpa [text, hopening] using skipGap_cons (hgap c (of_decide_eq_true hc)) _

end TextDiagram.Flow
