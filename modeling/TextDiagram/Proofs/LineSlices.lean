import Mathlib.Algebra.Group.Nat.Even
import Mathlib.Data.List.Induction
import Mathlib.Data.String.Basic
import TextDiagram.Proofs.FlowSplitting

/-!
# Slices of a line

A statement ends at a semicolon if the double quotes before it are even in number and no bracket
outside of them is left open. A line is cut there, and only there, into slices between two
characters each, and what is left of the slices by trimming them is a list of statements that
splitting leaves as it is, one by one as well as joined by semicolons.
-/

namespace TextDiagram.Flow

open Text Nesting

/-! ### What a text leaves open -/

def openingBrackets : List Char := ['[', '(', '\x7b']

def closingBrackets : List Char := [']', ')', '\x7d']

/-- The characters of a text that stand outside of double quotes. -/
def unquoted (inQuotes : Bool) : List Char → List Char
  | [] => []
  | c :: s =>
    if c = '"' then unquoted (!inQuotes) s
    else if inQuotes then unquoted inQuotes s else c :: unquoted inQuotes s

/-- Every last part of the text opens at most `k` brackets more than it closes. So at most `k`
brackets are open behind the text, where a bracket that closes nothing does not count. -/
def OpensAtMost (k : Nat) (s : List Char) : Prop :=
  ∀ t, t <:+ s → t.countP (· ∈ openingBrackets) ≤ t.countP (· ∈ closingBrackets) + k

/-- The double quotes go in pairs, and all brackets outside of them are closed. -/
structure LeavesNothingOpen (s : List Char) : Prop where
  quotes : Even (s.count '"')
  brackets : OpensAtMost 0 (unquoted false s)

theorem forall_suffix_concat_iff {s : List Char} {c : Char} {p : List Char → Prop} :
    (∀ t, t <:+ s ++ [c] → p t) ↔ p [] ∧ ∀ t, t <:+ s → p (t ++ [c]) := by
  constructor
  · intro h
    refine ⟨h [] List.nil_suffix, fun t ht => h _ ?_⟩
    exact List.suffix_concat_iff.mpr (.inr ⟨t, rfl, ht⟩)
  · rintro ⟨hnil, hconcat⟩ t ht
    rcases List.suffix_concat_iff.mp ht with rfl | ⟨u, rfl, hu⟩
    · exact hnil
    · exact hconcat u hu

theorem opensAtMost_concat_opening {c : Char} (hc : c ∈ openingBrackets) (k : Nat) (s : List Char) :
    OpensAtMost k (s ++ [c]) ↔ 1 ≤ k ∧ OpensAtMost (k - 1) s := by
  have hother : c ∉ closingBrackets :=
    (by decide : ∀ c ∈ openingBrackets, c ∉ closingBrackets) c hc
  have hcount : ∀ t : List Char, (t ++ [c]).countP (· ∈ openingBrackets) =
      t.countP (· ∈ openingBrackets) + 1 ∧
      (t ++ [c]).countP (· ∈ closingBrackets) = t.countP (· ∈ closingBrackets) := by
    simp [hc, hother]
  rw [OpensAtMost, forall_suffix_concat_iff]
  constructor
  · rintro ⟨-, h⟩
    have hnil := h [] List.nil_suffix
    simp only [(hcount _).1, (hcount _).2, List.countP_nil] at hnil
    refine ⟨by omega, fun t ht => ?_⟩
    have := h t ht
    rw [(hcount t).1, (hcount t).2] at this
    omega
  · rintro ⟨hk, h⟩
    refine ⟨Nat.zero_le _, fun t ht => ?_⟩
    have := h t ht
    rw [(hcount t).1, (hcount t).2]
    omega

theorem opensAtMost_concat {c : Char} (hc : c ∉ openingBrackets) (k : Nat) (s : List Char) :
    OpensAtMost k (s ++ [c]) ↔ OpensAtMost (if c ∈ closingBrackets then k + 1 else k) s := by
  have hopen : ∀ t : List Char, (t ++ [c]).countP (· ∈ openingBrackets) =
      t.countP (· ∈ openingBrackets) := by
    simp [hc]
  have hclose : ∀ t : List Char, (t ++ [c]).countP (· ∈ closingBrackets) =
      t.countP (· ∈ closingBrackets) + if c ∈ closingBrackets then 1 else 0 := by
    intro t
    rw [List.countP_append, List.countP_singleton]
    simp
  rw [OpensAtMost, forall_suffix_concat_iff, OpensAtMost]
  simp only [hopen, hclose, List.countP_nil, Nat.zero_le, true_and]
  refine forall₂_congr fun t _ => ?_
  split_ifs <;> omega

namespace Nesting

theorem inQuotes_step (n : Nesting) (c : Char) :
    (n.step c).inQuotes = if c = '"' then !n.inQuotes else n.inQuotes := by
  unfold step
  split_ifs <;> simp_all

theorem depth_step (n : Nesting) (c : Char) :
    (n.step c).depth =
      if n.inQuotes = true ∨ c = '"' then n.depth
      else if c ∈ openingBrackets then n.depth + 1
      else if c ∈ closingBrackets then n.depth - 1 else n.depth := by
  unfold step openingBrackets closingBrackets
  split_ifs <;> simp_all

theorem after_concat (n : Nesting) (s : List Char) (c : Char) :
    n.after (s ++ [c]) = (n.after s).step c :=
  n.after_append s [c]

theorem unquoted_append (n : Nesting) (s t : List Char) :
    unquoted n.inQuotes (s ++ t) = unquoted n.inQuotes s ++ unquoted (n.after s).inQuotes t := by
  induction s generalizing n with
  | nil => rfl
  | cons c s ih =>
      have hrest : unquoted (n.step c).inQuotes (s ++ t) =
          unquoted (n.step c).inQuotes s ++ unquoted (n.after (c :: s)).inQuotes t := ih (n.step c)
      rw [inQuotes_step] at hrest
      rw [List.cons_append, unquoted, unquoted]
      by_cases hc : c = '"'
      · simpa only [if_pos hc] using hrest
      · simp only [if_neg hc] at hrest ⊢
        rw [hrest]
        split_ifs
        · rfl
        · rfl

theorem inQuotes_after_iff (s : List Char) :
    (outside.after s).inQuotes = false ↔ Even (s.count '"') := by
  induction s using List.reverseRecOn with
  | nil => simp [after, outside]
  | append_singleton s c ih =>
      rw [after_concat, inQuotes_step, List.count_append]
      by_cases hc : c = '"'
      · rw [if_pos hc, hc, List.count_singleton_self, Nat.even_add_one, ← ih]
        simp
      · rw [if_neg hc, List.count_singleton, if_neg (by simpa using hc), Nat.add_zero, ih]

theorem depth_after_le_iff (s : List Char) (k : Nat) :
    (outside.after s).depth ≤ k ↔ OpensAtMost k (unquoted false s) := by
  induction s using List.reverseRecOn generalizing k with
  | nil => simp [after, outside, unquoted, OpensAtMost]
  | append_singleton s c ih =>
      have hplain : unquoted false (s ++ [c]) =
          unquoted false s ++ unquoted (outside.after s).inQuotes [c] :=
        unquoted_append outside s [c]
      rw [after_concat, depth_step, hplain]
      by_cases hskip : (outside.after s).inQuotes = true ∨ c = '"'
      · have hnone : unquoted (outside.after s).inQuotes [c] = [] := by
          rcases hskip with h | h <;> simp [unquoted, h]
        rw [if_pos hskip, hnone, List.append_nil, ih]
      · have hsome : unquoted (outside.after s).inQuotes [c] = [c] := by
          rw [not_or] at hskip
          simp [unquoted, hskip]
        rw [if_neg hskip, hsome]
        by_cases hopen : c ∈ openingBrackets
        · rw [if_pos hopen, opensAtMost_concat_opening hopen, ← ih]
          omega
        · rw [if_neg hopen, opensAtMost_concat hopen, ← ih]
          split_ifs <;> omega

theorem after_eq_outside_iff (s : List Char) :
    outside.after s = outside ↔ LeavesNothingOpen s := by
  have hdepth := depth_after_le_iff s 0
  have hquotes := inQuotes_after_iff s
  constructor
  · intro h
    rw [h] at hdepth hquotes
    exact ⟨hquotes.mp rfl, hdepth.mp (Nat.le_refl 0)⟩
  · rintro ⟨heven, hbrackets⟩
    have hzero := Nat.le_zero.mp (hdepth.mpr hbrackets)
    have hfalse := hquotes.mpr heven
    generalize outside.after s = n at hzero hfalse
    obtain ⟨depth, inQuotes⟩ := n
    rw [outside, mk.injEq]
    exact ⟨hzero, hfalse⟩

end Nesting

/-! ### Slices -/

/-- A part of a line, with its bounds counted in bytes. -/
structure Slice where
  start : Nat
  stop : Nat

namespace Slice

def text (line : String) (slice : Slice) : List Char :=
  (String.Pos.Raw.extract line ⟨slice.start⟩ ⟨slice.stop⟩).toList

/-- A slice can be cut out of a line if it does not stop before it starts and none of its bounds is
inside of a character. -/
structure Fits (line : String) (slice : Slice) : Prop where
  start_le_stop : slice.start ≤ slice.stop
  start_isValid : (String.Pos.Raw.mk slice.start).IsValid line
  stop_isValid : (String.Pos.Raw.mk slice.stop).IsValid line

/-- The slice holds the text `t` of the line. -/
def Holds (line : String) (slice : Slice) (t : List Char) : Prop :=
  ∃ before after, line.toList = before ++ t ++ after ∧ slice.start = String.utf8Len before ∧
    slice.stop = String.utf8Len before + String.utf8Len t

theorem isValid_utf8Len {line : String} {before after : List Char}
    (h : line.toList = before ++ after) :
    (String.Pos.Raw.mk (String.utf8Len before)).IsValid line := by
  refine String.Pos.Raw.isValid_iff_exists_append.mpr
    ⟨String.ofList before, String.ofList after, ?_, ?_⟩
  · rw [← String.ofList_append, ← h, String.ofList_toList]
  · rw [String.rawEndPos_ofList]

variable {line : String} {slice : Slice} {t : List Char}

theorem Holds.fits (h : slice.Holds line t) : slice.Fits line := by
  obtain ⟨before, after, hline, hstart, hstop⟩ := h
  refine ⟨by omega, ?_, ?_⟩
  · rw [List.append_assoc] at hline
    rw [hstart]
    exact isValid_utf8Len hline
  · rw [hstop, ← String.utf8Len_append]
    exact isValid_utf8Len hline

theorem Holds.text_eq (h : slice.Holds line t) : slice.text line = t := by
  obtain ⟨before, after, hline, hstart, hstop⟩ := h
  have hextract := String.extract_of_valid before t after
  rw [← hline, String.ofList_toList, ← hstop, ← hstart] at hextract
  rw [text, hextract, String.toList_ofList]

end Slice

/-- The slices between the semicolons that separate statements, from the place up to which the line
has been read. A semicolon is one byte long. -/
def slices (n : Nesting) (start place : Nat) : List Char → List Slice
  | [] => [⟨start, place⟩]
  | c :: s =>
    if n.separates c then ⟨start, place⟩ :: slices .outside (place + 1) (place + c.utf8Size) s
    else slices (n.step c) start (place + c.utf8Size) s

theorem separates_iff {n : Nesting} {c : Char} : n.separates c = true ↔ c = ';' ∧ n = outside := by
  rw [separates, Bool.and_eq_true, beq_iff_eq, beq_iff_eq]

/-- Each slice of a line holds the segment that is read at the same time. -/
theorem forall₂_slices {line : String} {before segment s : List Char} (n : Nesting)
    (hline : line.toList = before ++ segment.reverse ++ s) :
    List.Forall₂ (Slice.Holds line)
      (slices n (String.utf8Len before) (String.utf8Len (before ++ segment.reverse)) s)
      (segments n segment s) := by
  induction s generalizing n before segment with
  | nil =>
      refine .cons ⟨before, [], hline, rfl, ?_⟩ .nil
      rw [String.utf8Len_append]
  | cons c s ih =>
      rw [slices, segments]
      by_cases hc : n.separates c = true
      · obtain ⟨rfl, rfl⟩ := separates_iff.mp hc
        have hnext : line.toList = (before ++ segment.reverse ++ [';']) ++ [].reverse ++ s := by
          rw [hline]
          simp
        have hrest := ih outside hnext
        rw [List.reverse_nil, List.append_nil, String.utf8Len_append _ [';']] at hrest
        rw [if_pos hc, if_pos hc]
        refine .cons ⟨before, ';' :: s, hline, rfl, ?_⟩ hrest
        rw [String.utf8Len_append]
      · have hnext : line.toList = before ++ (c :: segment).reverse ++ s := by
          rw [hline]
          simp
        have hrest := ih (n.step c) hnext
        rw [List.reverse_cons, ← List.append_assoc, String.utf8Len_append _ [c],
          String.utf8Len_cons, String.utf8Len_nil, Nat.zero_add] at hrest
        rwa [if_neg hc, if_neg hc]

theorem slices_hold (line : String) :
    List.Forall₂ (Slice.Holds line) (slices outside 0 0 line.toList)
      (segments outside [] line.toList) :=
  @forall₂_slices line [] [] line.toList outside rfl

theorem map_text_of_hold {line : String} {cut : List Slice} {texts : List (List Char)}
    (h : List.Forall₂ (Slice.Holds line) cut texts) : cut.map (Slice.text line) = texts := by
  induction h with
  | nil => rfl
  | cons hslice _ ih => rw [List.map_cons, hslice.text_eq, ih]

theorem fits_of_hold {line : String} {cut : List Slice} {texts : List (List Char)}
    (h : List.Forall₂ (Slice.Holds line) cut texts) : ∀ slice ∈ cut, slice.Fits line := by
  induction h with
  | nil => exact fun slice hmem => absurd hmem List.not_mem_nil
  | cons hslice _ ih => exact List.forall_mem_cons.mpr ⟨hslice.fits, ih⟩

/-! ### Separators -/

/-- The places in bytes of the semicolons that separate statements. -/
def separators (n : Nesting) (place : Nat) : List Char → List Nat
  | [] => []
  | c :: s =>
    let further := separators (n.step c) (place + c.utf8Size) s
    if n.separates c then place :: further else further

theorem slices_eq_zipWith (n : Nesting) (start place : Nat) (s : List Char) :
    slices n start place s =
      List.zipWith Slice.mk (start :: (separators n place s).map (· + 1))
        (separators n place s ++ [place + String.utf8Len s]) := by
  induction s generalizing n start place with
  | nil => rfl
  | cons c s ih =>
      have hend : place + c.utf8Size + String.utf8Len s = place + String.utf8Len (c :: s) := by
        rw [String.utf8Len_cons]
        omega
      rw [slices, separators]
      by_cases hc : n.separates c = true
      · obtain ⟨rfl, rfl⟩ := separates_iff.mp hc
        have hsame : outside.step ';' = outside := step_of_notMem (by decide)
        rw [if_pos hc, if_pos hc, ih, hend, hsame]
        rfl
      · rw [if_neg hc, if_neg hc, ih, hend]

theorem le_of_mem_separators {n : Nesting} {place i : Nat} {s : List Char}
    (hi : i ∈ separators n place s) : place ≤ i := by
  induction s generalizing n place with
  | nil => cases hi
  | cons c s ih =>
      rw [separators] at hi
      split_ifs at hi with hc
      · rcases List.mem_cons.mp hi with rfl | hi
        · exact Nat.le_refl i
        · exact Nat.le_of_add_right_le (ih hi)
      · exact Nat.le_of_add_right_le (ih hi)

theorem pairwise_separators (n : Nesting) (place : Nat) (s : List Char) :
    (separators n place s).Pairwise (· < ·) := by
  induction s generalizing n place with
  | nil => exact .nil
  | cons c s ih =>
      rw [separators]
      split_ifs with hc
      · refine .cons (fun i hi => ?_) (ih _ _)
        have := le_of_mem_separators hi
        have := c.utf8Size_pos
        omega
      · exact ih _ _

theorem mem_separators_iff {n : Nesting} {place i : Nat} {s : List Char} :
    i ∈ separators n place s ↔
      ∃ u v, s = u ++ ';' :: v ∧ place + String.utf8Len u = i ∧ n.after u = outside := by
  induction s generalizing n place with
  | nil => simp [separators]
  | cons c s ih =>
      have hsplit : i ∈ separators n place (c :: s) ↔
          (n.separates c = true ∧ place = i) ∨
            i ∈ separators (n.step c) (place + c.utf8Size) s := by
        rw [separators]
        split_ifs with hc <;> simp [hc, eq_comm]
      rw [hsplit, ih]
      constructor
      · rintro (⟨hc, rfl⟩ | ⟨u, v, rfl, hi, hafter⟩)
        · obtain ⟨rfl, rfl⟩ := separates_iff.mp hc
          exact ⟨[], s, rfl, rfl, rfl⟩
        · refine ⟨c :: u, v, rfl, ?_, hafter⟩
          rw [String.utf8Len_cons]
          omega
      · rintro ⟨u, v, h, hi, hafter⟩
        cases u with
        | nil =>
            obtain ⟨rfl, rfl⟩ := List.cons.inj h
            exact .inl ⟨separates_iff.mpr ⟨rfl, hafter⟩, hi⟩
        | cons d u =>
            obtain ⟨rfl, rfl⟩ := List.cons.inj h
            rw [String.utf8Len_cons] at hi
            exact .inr ⟨u, v, rfl, by omega, hafter⟩

/-- The places of the semicolons of a line behind which another statement starts. -/
structure Separators (line : String) (places : List Nat) : Prop where
  ascending : places.Pairwise (· < ·)
  mem_iff : ∀ i, i ∈ places ↔ ∃ before after, line.toList = before ++ ';' :: after ∧
    String.utf8Len before = i ∧ LeavesNothingOpen before

theorem separators_line (line : String) : Separators line (separators outside 0 line.toList) := by
  refine ⟨pairwise_separators outside 0 line.toList, fun i => ?_⟩
  rw [mem_separators_iff]
  refine exists₂_congr fun u v => ?_
  rw [Nat.zero_add, after_eq_outside_iff]

/-! ### Trimmed segments -/

theorem step_of_isBlank (n : Nesting) {c : Char} (hc : isBlank c = true) : n.step c = n := by
  have hblank : ∀ c ∈ nestingChars, isBlank c = false := by decide
  refine step_of_notMem fun hmem => ?_
  rw [hblank c hmem] at hc
  exact Bool.false_ne_true hc

theorem after_of_blank (n : Nesting) {s : List Char} (hs : ∀ c ∈ s, isBlank c = true) :
    n.after s = n := by
  induction s with
  | nil => rfl
  | cons c s ih =>
      have hstep := step_of_isBlank n (hs c List.mem_cons_self)
      have hrest := ih fun d hd => hs d (List.mem_cons_of_mem c hd)
      exact (congrArg (·.after s) hstep).trans hrest

theorem after_trim (n : Nesting) (s : List Char) : n.after (trim s) = n.after s := by
  obtain ⟨u, v, hs, hu, hv⟩ := exists_eq_append_trim s
  conv_rhs => rw [hs, after_append, after_append, after_of_blank n hu, after_of_blank _ hv]

theorem separatesIn_trim {n : Nesting} {s : List Char} (hs : n.separatesIn s = false) :
    n.separatesIn (trim s) = false := by
  obtain ⟨u, v, heq, hu, -⟩ := exists_eq_append_trim s
  rw [heq, separatesIn_append, separatesIn_append, after_of_blank n hu] at hs
  simp only [Bool.or_eq_false_iff] at hs
  exact hs.1.2

theorem separable_segments (line : List Char) : Separable (segments outside [] line) := by
  refine separable_of_segments_intercalate (segments_ne_nil _ _ _) ?_
  rw [intercalate_segments]
  rfl

theorem Separable.cons {s : List Char} {L : List (List Char)} (hL : Separable L)
    (hs : outside.separatesIn s = false) (hafter : L ≠ [] → outside.after s = outside) :
    Separable (s :: L) := by
  by_cases hlast : L = []
  · subst hlast
    exact ⟨by simpa using hs, by simp⟩
  · exact (separable_cons_iff hlast).mpr ⟨hs, hafter hlast, hL⟩

/-- Segments stay separable without their blanks and without those that hold nothing else. -/
theorem Separable.trimmed {L : List (List Char)} (hL : Separable L) :
    Separable ((L.map trim).filter fun s => !s.isEmpty) := by
  induction L with
  | nil => exact hL
  | cons s L ih =>
      have hs := separatesIn_trim (hL.separatesIn s List.mem_cons_self)
      by_cases hlast : L = []
      · subst hlast
        rw [List.map_cons, List.filter_cons]
        split
        · exact Separable.cons ⟨by simp, by simp⟩ hs fun h => absurd rfl h
        · exact ⟨by simp, by simp⟩
      · obtain ⟨-, hafter, hrest⟩ := (separable_cons_iff hlast).mp hL
        rw [List.map_cons, List.filter_cons]
        split
        · exact (ih hrest).cons hs fun _ => (after_trim outside s).trans hafter
        · exact ih hrest

theorem separable_splitStatements (line : List Char) : Separable (splitStatements line) :=
  (separable_segments line).trimmed

theorem mem_splitStatements {line p : List Char} (hp : p ∈ splitStatements line) :
    trim p = p ∧ p ≠ [] := by
  obtain ⟨hmem, hfull⟩ := List.mem_filter.mp hp
  obtain ⟨segment, -, rfl⟩ := List.mem_map.mp hmem
  exact ⟨trim_trim segment, by simpa using hfull⟩

theorem splitStatements_intercalate_splitStatements (line : List Char) :
    splitStatements ([';'].intercalate (splitStatements line)) = splitStatements line := by
  by_cases hne : splitStatements line = []
  · rw [hne]
    rfl
  · exact (splitStatements_intercalate_iff hne (fun p hp => (mem_splitStatements hp).1)
      fun p hp => (mem_splitStatements hp).2).mpr (separable_splitStatements line)

theorem splitStatements_of_mem {line p : List Char} (hp : p ∈ splitStatements line) :
    splitStatements p = [p] := by
  obtain ⟨htrim, hne⟩ := mem_splitStatements hp
  have hsingle : Separable [p] := by
    refine Separable.cons ⟨by simp, by simp⟩ ?_ fun h => absurd rfl h
    exact (separable_splitStatements line).separatesIn p hp
  simpa using (splitStatements_intercalate_iff (List.cons_ne_nil p [])
    (by simpa using htrim) (by simpa using hne)).mpr hsingle

theorem splitStatements_eq_slices (line : String) :
    splitStatements line.toList =
      ((slices outside 0 0 line.toList).map fun slice => trim (slice.text line)).filter
        fun p => !p.isEmpty := by
  rw [splitStatements, ← map_text_of_hold (slices_hold line), List.map_map]
  rfl

/-- A line is cut at the semicolons in front of which nothing is left open, each slice being one
that can be cut out, and the statements are what is left of the slices by trimming them. Each of
them is one statement by itself, and joined by semicolons they are the same statements again. -/
theorem splitStatements_stable (line : String) :
    let statements := splitStatements line.toList
    let cut := slices outside 0 0 line.toList
    (∀ p ∈ statements, p ≠ [] ∧ trim p = p ∧ splitStatements p = [p]) ∧
      splitStatements ([';'].intercalate statements) = statements ∧
      statements = (cut.map fun slice => trim (slice.text line)).filter (fun p => !p.isEmpty) ∧
      (∃ places, Separators line places ∧ cut = List.zipWith Slice.mk
        (0 :: places.map (· + 1)) (places ++ [line.utf8ByteSize])) ∧
      ∀ slice ∈ cut, slice.Fits line := by
  intro statements cut
  refine ⟨fun p hp => ?_, splitStatements_intercalate_splitStatements line.toList,
    splitStatements_eq_slices line, ?_, ?_⟩
  · obtain ⟨htrim, hne⟩ := mem_splitStatements hp
    exact ⟨hne, htrim, splitStatements_of_mem hp⟩
  · refine ⟨separators outside 0 line.toList, separators_line line, ?_⟩
    have hcut := slices_eq_zipWith outside 0 0 line.toList
    rwa [Nat.zero_add, String.utf8Len_toList] at hcut
  · exact fits_of_hold (slices_hold line)

end TextDiagram.Flow
