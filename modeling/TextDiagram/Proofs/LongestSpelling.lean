import Mathlib.Data.List.Nodup
import TextDiagram.Class.Statement
import TextDiagram.Sequence.Statement
import TextDiagram.Matcher.Reader
import TextDiagram.Proofs.Text

/-!
# The longest spelling

An operator is the first spelling of a list that fits. The lists are not sorted by length, but in
none of them does a spelling stand in front of one that it starts. All spellings that fit a text
start that text, so the first of them that fits is the longest that fits, also where a longer one is
refused because it would break a name in two.
-/

namespace TextDiagram.Matcher

open Text

variable {β : Type} {table : Spellings β} {wholeNames : Bool} {spelling : String} {value : β}
  {s rest : List Char}

/-! ### Spellings that fit -/

/-- The text starts with the spelling, and with `wholeNames` the spelling does not end inside of a
name. -/
structure Fits (wholeNames : Bool) (spelling : String) (s : List Char) : Prop where
  starts : spelling.toList <+: s
  whole : wholeNames = true → ∀ front c d behind, spelling.toList = front ++ [c] →
    s = front ++ c :: d :: behind → ¬ (isNameChar c = true ∧ isNameChar d = true)

theorem endsInName_iff :
    endsInName spelling = true ↔ ∃ front c, spelling.toList = front ++ [c] ∧ isNameChar c = true := by
  rw [endsInName, Option.any_eq_true]
  constructor
  · rintro ⟨c, hlast, hc⟩
    obtain ⟨front, hfront⟩ := List.getLast?_eq_some_iff.mp hlast
    exact ⟨front, c, hfront, hc⟩
  · rintro ⟨front, c, hfront, hc⟩
    exact ⟨c, List.getLast?_eq_some_iff.mpr ⟨front, hfront⟩, hc⟩

theorem startsInName_iff : startsInName rest = true ↔
    ∃ d behind, rest = d :: behind ∧ isNameChar d = true := by
  cases rest <;> simp [startsInName]

theorem spelled?_eq_some_iff :
    spelled? wholeNames spelling s = some rest ↔
      s = spelling.toList ++ rest ∧ Fits wholeNames spelling s := by
  rw [spelled?, Option.filter_eq_some_iff, strip?_eq_some_iff]
  refine and_congr_right fun hs => ?_
  subst hs
  constructor
  · intro hwhole
    refine ⟨List.prefix_append _ _, ?_⟩
    rintro rfl front c d behind hspelling hs ⟨hc, hd⟩
    have hends : endsInName spelling = true := endsInName_iff.mpr ⟨front, c, hspelling, hc⟩
    have hrest : rest = d :: behind := by simpa [hspelling] using hs
    simp [hends, hrest, startsInName, hd] at hwhole
  · intro hfits
    by_contra hbreaks
    simp only [Bool.not_eq_true, Bool.not_eq_false', Bool.and_eq_true, endsInName_iff,
      startsInName_iff] at hbreaks
    obtain ⟨⟨hwhole, front, c, hspelling, hc⟩, d, behind, rfl, hd⟩ := hbreaks
    refine hfits.whole hwhole front c d behind hspelling ?_ ⟨hc, hd⟩
    rw [hspelling, List.append_assoc, List.singleton_append]

theorem spelled?_eq_none_iff :
    spelled? wholeNames spelling s = none ↔ ¬ Fits wholeNames spelling s := by
  rw [Option.eq_none_iff_forall_ne_some]
  constructor
  · intro hnone hfits
    obtain ⟨rest, rfl⟩ := hfits.starts
    exact hnone rest (spelled?_eq_some_iff.mpr ⟨rfl, hfits⟩)
  · intro hfits rest hrest
    exact hfits (spelled?_eq_some_iff.mp hrest).2

/-! ### The first and the longest -/

/-- No spelling stands in front of one that it starts. -/
def Unshadowed (table : Spellings β) : Prop :=
  table.Pairwise fun row later => ¬ row.1.toList <+: later.1.toList

instance (table : Spellings β) : Decidable (Unshadowed table) :=
  inferInstanceAs (Decidable (table.Pairwise _))

/-- The row with the longest spelling that fits. -/
structure LongestFit (table : Spellings β) (wholeNames : Bool) (s : List Char) (spelling : String)
    (value : β) : Prop where
  mem : (spelling, value) ∈ table
  fits : Fits wholeNames spelling s
  longest : ∀ row ∈ table, Fits wholeNames row.1 s → row.1.length ≤ spelling.length

theorem operator_eq_none_iff :
    operator table wholeNames s = none ↔ ∀ row ∈ table, ¬ Fits wholeNames row.1 s := by
  simp only [operator, List.findSome?_eq_none_iff, Option.map_eq_none_iff, spelled?_eq_none_iff]

/-- Of two spellings that start the text the shorter one starts the other. -/
theorem exists_longestFit_of_operator (htable : Unshadowed table)
    (h : operator table wholeNames s = some (value, rest)) :
    ∃ spelling, LongestFit table wholeNames s spelling value ∧ s = spelling.toList ++ rest := by
  obtain ⟨row, hmem, hrow, hothers⟩ := exists_first_of_findSome? htable h
  obtain ⟨rest', hrest, hpair⟩ := Option.map_eq_some_iff.mp hrow
  obtain ⟨rfl, rfl⟩ := Prod.mk.inj hpair
  obtain ⟨hs, hfits⟩ := spelled?_eq_some_iff.mp hrest
  refine ⟨row.1, ⟨hmem, hfits, ?_⟩, hs⟩
  intro other hother hfits'
  rcases hothers other hother with hnone | rfl | hshadow
  · exact absurd hfits' (spelled?_eq_none_iff.mp (Option.map_eq_none_iff.mp hnone))
  · exact le_rfl
  · by_contra hlonger
    refine hshadow (List.prefix_of_prefix_length_le hfits.starts hfits'.starts ?_)
    rw [String.length_toList, String.length_toList]
    omega

theorem Unshadowed.nodup (htable : Unshadowed table) : (table.map Prod.fst).Nodup := by
  rw [List.Nodup, List.pairwise_map]
  refine htable.imp fun hshadow heq => hshadow ?_
  simp [heq]

/-- The longest row is one row. -/
theorem LongestFit.unique (htable : Unshadowed table) {spelling' : String} {value' : β}
    (h : LongestFit table wholeNames s spelling value)
    (h' : LongestFit table wholeNames s spelling' value') :
    spelling = spelling' ∧ value = value' := by
  have hlength : spelling.toList.length = spelling'.toList.length := by
    rw [String.length_toList, String.length_toList]
    exact Nat.le_antisymm (h'.longest (spelling, value) h.mem h.fits)
      (h.longest (spelling', value') h'.mem h'.fits)
  have hstarts := List.prefix_of_prefix_length_le h.fits.starts h'.fits.starts hlength.le
  have hspelling : spelling = spelling' := String.toList_inj.mp (hstarts.eq_of_length hlength)
  have hrow := List.inj_on_of_nodup_map htable.nodup h.mem h'.mem hspelling
  exact Prod.mk.inj hrow

theorem operator_eq_some_iff (htable : Unshadowed table) :
    operator table wholeNames s = some (value, rest) ↔
      ∃ spelling, LongestFit table wholeNames s spelling value ∧ s = spelling.toList ++ rest := by
  refine ⟨exists_longestFit_of_operator htable, ?_⟩
  rintro ⟨spelling, hlongest, hs⟩
  cases hread : operator table wholeNames s with
  | none => exact absurd hlongest.fits (operator_eq_none_iff.mp hread _ hlongest.mem)
  | some result =>
      obtain ⟨value', rest'⟩ := result
      obtain ⟨spelling', hlongest', hs'⟩ := exists_longestFit_of_operator htable hread
      obtain ⟨rfl, rfl⟩ := hlongest.unique htable hlongest'
      obtain rfl : rest = rest' := List.append_cancel_left (hs.symm.trans hs')
      rfl

/-! ### Reading from the front of the text -/

/-- The tests are made on a copy of the text, and the reader moves only when they have passed. -/
def readSpelling (wholeNames : Bool) (row : String × β) : Reader β := do
  let s ← get
  match strip? row.1.toList s with
  | none => failure
  | some rest =>
    if wholeNames && endsInName row.1 && startsInName rest then failure
    else
      set rest
      return row.2

/-- The spellings are tried in the order of the list. -/
def readOperator (table : Spellings β) (wholeNames : Bool) : Reader β :=
  table.foldr (fun row later => readSpelling wholeNames row <|> later) failure

theorem run_readSpelling (wholeNames : Bool) (row : String × β) (s : List Char) :
    (readSpelling wholeNames row).run s =
      optional (fun s => (spelled? wholeNames row.1 s).map fun rest => (row.2, rest)) s := by
  rw [readSpelling, Reader.run_bind, Reader.run_get, optional, spelled?]
  cases hstrip : strip? row.1.toList s with
  | none => simp only [hstrip, Reader.run_failure, Option.filter_none, Option.map_none]
  | some rest =>
      simp only [hstrip, Option.filter_some]
      cases wholeNames && endsInName row.1 && startsInName rest <;> rfl

theorem run_readOperator (table : Spellings β) (wholeNames : Bool) (s : List Char) :
    (readOperator table wholeNames).run s = optional (operator table wholeNames) s :=
  Reader.run_foldr_orElse (run_readSpelling wholeNames) table s

/-! ### The lists of the dialects -/

/-- What it means that the longest spelling is read: its value is the result and it alone is
consumed, and where no spelling fits nothing is. -/
structure ReadsLongest (table : Spellings β) (wholeNames : Bool) (s : List Char) : Prop where
  eq_some_iff : ∀ value rest, operator table wholeNames s = some (value, rest) ↔
    ∃ spelling, LongestFit table wholeNames s spelling value ∧ s = spelling.toList ++ rest
  eq_none_iff : operator table wholeNames s = none ↔ ∀ row ∈ table, ¬ Fits wholeNames row.1 s
  moves : ∀ value rest, operator table wholeNames s = some (value, rest) →
    (readOperator table wholeNames).run s = (some value, rest)
  stays : operator table wholeNames s = none → (readOperator table wholeNames).run s = (none, s)

theorem readsLongest (htable : Unshadowed table) (wholeNames : Bool) (s : List Char) :
    ReadsLongest table wholeNames s where
  eq_some_iff _ _ := operator_eq_some_iff htable
  eq_none_iff := operator_eq_none_iff
  moves _ _ h := (run_readOperator table wholeNames s).trans (optional_of_eq_some h)
  stays h := (run_readOperator table wholeNames s).trans (optional_of_eq_none h)

/-- On every text and with both lists, whether names have to stay whole or not: what is read is the
longest spelling that fits, and nothing is read exactly if no spelling fits. -/
theorem operators_read_longest (wholeNames : Bool) (s : List Char) :
    ReadsLongest Sequence.messageArrows wholeNames s ∧
      ReadsLongest Class.operators wholeNames s := by
  have harrows : Unshadowed Sequence.messageArrows := by decide
  have hoperators : Unshadowed Class.operators := by decide
  exact ⟨readsLongest harrows wholeNames s, readsLongest hoperators wholeNames s⟩

/-- The longer `--o` would break a name in two. -/
example : operator Class.operators true "--owner".toList =
    some (⟨.association, false⟩, "owner".toList) := by decide

end TextDiagram.Matcher
