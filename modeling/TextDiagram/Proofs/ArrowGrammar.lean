import TextDiagram.Matcher.Reader
import TextDiagram.Proofs.FlowArrows

/-!
# The grammar of plain arrows

A text starts with a plain arrow exactly if a line stands at its front, or behind one head. The
longest such line is read and a head behind it, and where no arrow stands nothing is read.
-/

namespace TextDiagram.Flow

open Text Matcher

theorem exists_replicate_append (c : Char) (s : List Char) :
    ∃ k t, s = List.replicate k c ++ t ∧ t.head? ≠ some c := by
  induction s with
  | nil => exact ⟨0, [], rfl, by simp⟩
  | cons d s ih =>
      by_cases hd : d = c
      · obtain ⟨k, t, hs, ht⟩ := ih
        exact ⟨k + 1, t, by rw [hd, hs, List.replicate_succ, List.cons_append], ht⟩
      · exact ⟨0, d :: s, rfl, by simpa using hd⟩

/-! ### Lines -/

theorem exists_replicate_of_run? {c : Char} {s rest : List Char} (h : run? c s = some rest) :
    ∃ n, 1 ≤ n ∧ s = List.replicate n c ++ rest := by
  obtain ⟨t, ht, rfl⟩ := Option.map_eq_some_iff.mp h
  obtain ⟨k, u, rfl, hu⟩ := exists_replicate_append c t
  have hrun : run? c (List.replicate (k + 1) c ++ u) = some u :=
    run?_replicate (Nat.le_add_left 1 k) hu
  have hs : s = List.replicate (k + 1) c ++ u := by
    rw [strip?_eq_some_iff.mp ht, List.replicate_succ, List.singleton_append, List.cons_append]
  rw [← hs, h] at hrun
  exact ⟨k + 1, Nat.le_add_left 1 k, by rw [hs, Option.some.inj hrun]⟩

theorem exists_replicate_of_evenBody? {c : Char} {s rest : List Char}
    (h : evenBody? c s = some rest) : ∃ n, 2 ≤ n ∧ s = List.replicate n c ++ rest := by
  obtain ⟨t, ht, hrun⟩ := Option.bind_eq_some_iff.mp h
  obtain ⟨n, hn, rfl⟩ := exists_replicate_of_run? hrun
  have hs : s = [c] ++ (List.replicate n c ++ rest) := strip?_eq_some_iff.mp ht
  exact ⟨n + 1, Nat.succ_le_succ hn, hs⟩

theorem exists_replicate_of_dottedBody? {s rest : List Char} (h : dottedBody? s = some rest) :
    ∃ k n, 1 ≤ k ∧ 1 ≤ n ∧ s = '-' :: (List.replicate k '.' ++ (List.replicate n '-' ++ rest)) := by
  obtain ⟨t, ht, h⟩ := Option.bind_eq_some_iff.mp h
  obtain ⟨u, hdots, hdashes⟩ := Option.bind_eq_some_iff.mp h
  obtain ⟨k, hk, rfl⟩ := exists_replicate_of_run? hdots
  obtain ⟨n, hn, rfl⟩ := exists_replicate_of_run? hdashes
  exact ⟨k, n, hk, hn, strip?_eq_some_iff.mp ht⟩

theorem exists_line_of_arrowBody {s rest : List Char} {style : EdgeKind}
    (h : arrowBody s = some (style, rest)) :
    ∃ line : Line, line.Fits true ∧ s = line.text ++ rest ∧ style = line.style := by
  unfold arrowBody at h
  split at h
  case h_1 hbody =>
    obtain ⟨rfl, rfl⟩ := Prod.mk.inj (Option.some.inj h)
    obtain ⟨k, n, hk, hn, rfl⟩ := exists_replicate_of_dottedBody? hbody
    exact ⟨.dashed k n, ⟨hk, hn⟩, by simp [Line.text], rfl⟩
  case h_2 hbody =>
    obtain ⟨rfl, rfl⟩ := Prod.mk.inj (Option.some.inj h)
    obtain ⟨n, hn, rfl⟩ := exists_replicate_of_evenBody? hbody
    exact ⟨.solid n, hn, rfl, rfl⟩
  case h_3 hbody =>
    obtain ⟨rfl, rfl⟩ := Prod.mk.inj (Option.some.inj h)
    obtain ⟨n, hn, rfl⟩ := exists_replicate_of_evenBody? hbody
    exact ⟨.thick n, hn, rfl, rfl⟩
  case h_4 => cases h

namespace Line

/-- More characters at the end of a line. -/
def extend (k : Nat) : Line → Line
  | solid n => solid (n + k)
  | dashed d n => dashed d (n + k)
  | thick n => thick (n + k)

theorem text_extend (line : Line) (k : Nat) :
    (line.extend k).text = line.text ++ List.replicate k line.last := by
  cases line <;> simp [extend, text, last]

@[simp] theorem style_extend (line : Line) (k : Nat) : (line.extend k).style = line.style := by
  cases line <;> rfl

@[simp] theorem last_extend (line : Line) (k : Nat) : (line.extend k).last = line.last := by
  cases line <;> rfl

theorem Fits.extend {line : Line} (k : Nat) (h : line.Fits true) : (line.extend k).Fits true := by
  cases line with
  | solid n | thick n => exact Nat.le_add_right_of_le h
  | dashed d n => exact ⟨h.1, Nat.le_add_right_of_le h.2⟩

/-- The line is the longest at the front of a text, and `after` is the text behind it. -/
structure LongestIn (line : Line) (s after : List Char) : Prop where
  fits : line.Fits true
  eq_append : s = line.text ++ after
  longest : ∀ other : Line, other.Fits true → other.text <+: s →
    other.text.length ≤ line.text.length

/-- Where a line stands at the front of a text, all characters that make it longer are read. -/
theorem arrowBody_append {line : Line} (h : line.Fits true) (t : List Char) :
    ∃ k after, t = List.replicate k line.last ++ after ∧
      arrowBody (line.text ++ t) = some (line.style, after) := by
  obtain ⟨k, after, rfl, hafter⟩ := exists_replicate_append line.last t
  have hbody := arrowBody_text (h.extend k) (t := after) (by rwa [last_extend])
  rw [text_extend, style_extend, List.append_assoc] at hbody
  exact ⟨k, after, rfl, hbody⟩

end Line

theorem isSome_arrowBody_iff {s : List Char} :
    (arrowBody s).isSome ↔ ∃ line : Line, line.Fits true ∧ line.text <+: s := by
  constructor
  · intro h
    obtain ⟨⟨style, rest⟩, hbody⟩ := Option.isSome_iff_exists.mp h
    obtain ⟨line, hline, rfl, _⟩ := exists_line_of_arrowBody hbody
    exact ⟨line, hline, List.prefix_append _ _⟩
  · rintro ⟨line, hline, t, rfl⟩
    obtain ⟨_, _, _, hbody⟩ := Line.arrowBody_append hline t
    simp [hbody]

theorem arrowBody_eq_some_iff {s rest : List Char} {style : EdgeKind} :
    arrowBody s = some (style, rest) ↔
      ∃ line : Line, line.LongestIn s rest ∧ style = line.style := by
  constructor
  · intro h
    obtain ⟨line, hline, hs, hstyle⟩ := exists_line_of_arrowBody h
    refine ⟨line, ⟨hline, hs, ?_⟩, hstyle⟩
    rintro other hother ⟨t, rfl⟩
    obtain ⟨k, after, rfl, hbody⟩ := Line.arrowBody_append hother t
    obtain ⟨_, rfl⟩ := Prod.mk.inj (Option.some.inj (hbody.symm.trans h))
    have hlength := congrArg List.length hs
    simp only [List.length_append] at hlength
    omega
  · rintro ⟨line, hline, rfl⟩
    obtain ⟨k, after, rfl, hbody⟩ := Line.arrowBody_append hline.fits rest
    have hprefix : (line.extend k).text <+: s := by
      rw [Line.text_extend, hline.eq_append, ← List.append_assoc]
      exact List.prefix_append _ _
    have hlength := hline.longest _ (hline.fits.extend k) hprefix
    rw [Line.text_extend, List.length_append, List.length_replicate] at hlength
    obtain rfl : k = 0 := by omega
    rwa [← hline.eq_append] at hbody

/-! ### Heads -/

theorem exists_head (s : List Char) : ∃ head ∈ heads, s = head ++ skipHead s := by
  unfold skipHead
  split
  · rename_i c d s
    split
    · rename_i h
      refine ⟨[c], ?_, rfl⟩
      simpa [heads] using h.1
    · exact ⟨[], List.mem_cons_self, rfl⟩
  · exact ⟨[], List.mem_cons_self, rfl⟩

/-- A head at the front of a text is taken: a closed one always, and a round one or a cross only
where no name goes on with it. -/
inductive TakesPoint : List Char → List Char → Prop
  | closed (rest : List Char) : TakesPoint ('>' :: rest) rest
  | marked {c : Char} {rest : List Char} (hc : c ∈ ['o', 'x'])
      (hrest : startsInName rest = false) : TakesPoint (c :: rest) rest
  | bare {s : List Char} (hclosed : s.head? ≠ some '>')
      (hmarked : ∀ c rest, c ∈ ['o', 'x'] → s = c :: rest → startsInName rest = true) :
      TakesPoint s s

theorem takesPoint_iff {s rest : List Char} : TakesPoint s rest ↔ rest = skipPoint s := by
  constructor
  · rintro (_ | ⟨hc, hrest⟩ | ⟨hclosed, hmarked⟩)
    · rfl
    · rw [skipPoint, if_pos (.inr ⟨hc, hrest⟩)]
    · cases s with
      | nil => rfl
      | cons c s =>
          rw [skipPoint, if_neg]
          rintro (rfl | ⟨hc, hs⟩)
          · exact hclosed rfl
          · rw [hmarked c s hc rfl] at hs
            cases hs
  · rintro rfl
    cases s with
    | nil => exact .bare (by simp) (by simp)
    | cons c s =>
        by_cases hclosed : c = '>'
        · rw [hclosed, skipPoint, if_pos (.inl rfl)]
          exact .closed s
        · by_cases hmarked : c ∈ ['o', 'x'] ∧ startsInName s = false
          · rw [skipPoint, if_pos (.inr hmarked)]
            exact .marked hmarked.1 hmarked.2
          · rw [skipPoint, if_neg (not_or.mpr ⟨hclosed, hmarked⟩)]
            refine .bare (by simpa using hclosed) ?_
            rintro d rest hd heq
            obtain ⟨rfl, rfl⟩ := List.cons.inj heq
            exact (Bool.not_eq_false _).mp fun hrest => hmarked ⟨hd, hrest⟩

/-! ### Arrows -/

theorem isSome_plainArrow_iff {s : List Char} :
    (plainArrow s).isSome ↔
      ∃ head ∈ heads, ∃ line : Line, line.Fits true ∧ head ++ line.text <+: s := by
  rw [plainArrow, Option.isSome_map, isSome_arrowBody_iff]
  constructor
  · rintro ⟨line, hline, hprefix⟩
    obtain ⟨head, hhead, hs⟩ := exists_head s
    refine ⟨head, hhead, line, hline, ?_⟩
    rw [hs]
    exact (List.prefix_append_right_inj head).mpr hprefix
  · rintro ⟨head, hhead, line, hline, t, rfl⟩
    rw [List.append_assoc, skipHead_append hhead hline]
    exact ⟨line, hline, List.prefix_append _ _⟩

theorem plainArrow_eq_some_iff {s rest : List Char} {style : EdgeKind} :
    plainArrow s = some (style, rest) ↔
      ∃ head ∈ heads, ∃ t line after, s = head ++ t ∧ Line.LongestIn line t after ∧
        style = line.style ∧ TakesPoint after rest := by
  rw [plainArrow, Option.map_eq_some_iff]
  constructor
  · rintro ⟨⟨kind, after⟩, hbody, hpair⟩
    obtain ⟨rfl, rfl⟩ := Prod.mk.inj hpair
    obtain ⟨line, hline, hstyle⟩ := arrowBody_eq_some_iff.mp hbody
    obtain ⟨head, hhead, hs⟩ := exists_head s
    exact ⟨head, hhead, skipHead s, line, after, hs, hline, hstyle, takesPoint_iff.mpr rfl⟩
  · rintro ⟨head, hhead, t, line, after, rfl, hline, hstyle, hpoint⟩
    have hskip : skipHead (head ++ t) = t := by
      rw [hline.eq_append]
      exact skipHead_append hhead hline.fits after
    refine ⟨(style, after), ?_, ?_⟩
    · rw [hskip]
      exact arrowBody_eq_some_iff.mpr ⟨line, hline, hstyle⟩
    · rw [takesPoint_iff.mp hpoint]

/-! ### Going back to the front of the text -/

/-- The head is read before it is known whether a line follows, so the reader goes back to where it
stood when there is none. -/
def readPlainArrow : Reader EdgeKind := do
  let start ← get
  modify skipHead
  let style ← (OptionT.mk (Matcher.optional arrowBody) : Reader EdgeKind) <|> (set start *> failure)
  modify skipPoint
  return style

theorem run_readPlainArrow (s : List Char) :
    readPlainArrow.run s = Matcher.optional plainArrow s := by
  have hreset : ∀ t, OptionT.run (set s *> failure : Reader EdgeKind) t = (none, s) := fun _ => rfl
  simp only [readPlainArrow, Reader.run_bind, Reader.run_get, Reader.run_modify, Reader.run_orElse,
    OptionT.run_mk]
  cases hbody : arrowBody (skipHead s) with
  | none =>
      have hplain : plainArrow s = none := by rw [plainArrow, hbody, Option.map_none]
      simp only [optional_of_eq_none hbody, optional_of_eq_none hplain, hreset]
  | some result =>
      obtain ⟨style, t⟩ := result
      have hplain : plainArrow s = some (style, skipPoint t) := by
        rw [plainArrow, hbody, Option.map_some]
      simp only [optional_of_eq_some hbody, optional_of_eq_some hplain, Reader.run_pure]

/-- On every text: an arrow is read exactly if a line stands at the front or behind one head. What
is read then is the head, the longest line and the head at its end, with the style of the line. The
reader that goes back where there is no arrow does the same and leaves the text as it was. -/
theorem plainArrow_grammar (s : List Char) :
    ((plainArrow s).isSome ↔
        ∃ head ∈ heads, ∃ line : Line, line.Fits true ∧ head ++ line.text <+: s) ∧
      (∀ style rest, plainArrow s = some (style, rest) ↔
        ∃ head ∈ heads, ∃ t line after, s = head ++ t ∧ Line.LongestIn line t after ∧
          style = line.style ∧ TakesPoint after rest) ∧
      (plainArrow s = none → readPlainArrow.run s = (none, s)) ∧
      ∀ style rest, plainArrow s = some (style, rest) →
        readPlainArrow.run s = (some style, rest) := by
  refine ⟨isSome_plainArrow_iff, fun style rest => plainArrow_eq_some_iff, ?_, ?_⟩
  · intro hnone
    rw [run_readPlainArrow, optional_of_eq_none hnone]
  · intro style rest hsome
    rw [run_readPlainArrow, optional_of_eq_some hsome]

end TextDiagram.Flow
