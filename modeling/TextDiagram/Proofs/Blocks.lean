import Mathlib.Data.List.Induction
import TextDiagram.Class.Block
import TextDiagram.Proofs.Lines

/-!
# Blocks among lines

Whether a line opens a block, closes one or stands in one depends on the lines before it only. Lines
that leave no block open are divided by themselves, whatever follows them. A block that is left open
goes on through what follows, and what comes before it stays as it is.
-/

namespace TextDiagram.Class

open Text

/-- Whether a block is open behind a line. -/
def openBehind (isOpen : Bool) (line : List Char) : Bool :=
  if isOpen then !closesBlock line else opensBlock line

/-- Whether the lines leave a block open. -/
def leavesOpen (lines : List (List Char)) : Bool :=
  lines.foldl openBehind false

/-! ### Divided lines -/

/-- The lines of a block that is open belong to one block, with more of them to come. -/
theorem exists_group_eq {opened : List (List Char)} (hopened : opened ≠ [])
    (lines : List (List Char)) :
    ∃ more rest, group opened lines = (opened.reverse ++ more) :: rest := by
  induction lines generalizing opened with
  | nil => exact ⟨[], [], by simp [group, hopened]⟩
  | cons line lines ih =>
      by_cases hclose : closesBlock line = true
      · exact ⟨[line], group [] lines, by simp [group, hopened, hclose]⟩
      · obtain ⟨more, rest, hrest⟩ := ih (List.cons_ne_nil line opened)
        exact ⟨line :: more, rest, by simp [group, hopened, hclose, hrest]⟩

theorem group_append_of_foldl {opened xs : List (List Char)}
    (h : xs.foldl openBehind (!opened.isEmpty) = false) (ys : List (List Char)) :
    group opened (xs ++ ys) = group opened xs ++ group [] ys := by
  induction xs generalizing opened with
  | nil =>
      obtain rfl : opened = [] := by simpa using h
      rfl
  | cons line xs ih =>
      rw [List.foldl_cons] at h
      cases opened with
      | nil =>
          by_cases hopen : opensBlock line = true
          · have hrest : group [line] (xs ++ ys) = group [line] xs ++ group [] ys :=
              ih (by simpa [openBehind, hopen] using h)
            simpa [group, hopen] using hrest
          · have hrest : group [] (xs ++ ys) = group [] xs ++ group [] ys :=
              ih (by simpa [openBehind, hopen] using h)
            simpa [group, hopen] using hrest
      | cons first opened =>
          by_cases hclose : closesBlock line = true
          · have hrest : group [] (xs ++ ys) = group [] xs ++ group [] ys :=
              ih (by simpa [openBehind, hclose] using h)
            simpa [group, hclose] using hrest
          · have hrest : group (line :: first :: opened) (xs ++ ys) =
                group (line :: first :: opened) xs ++ group [] ys :=
              ih (by simpa [openBehind, hclose] using h)
            simpa [group, hclose] using hrest

/-- Lines that leave no block open are divided apart from those behind them. -/
theorem group_append {xs : List (List Char)} (hxs : leavesOpen xs = false)
    (ys : List (List Char)) : group [] (xs ++ ys) = group [] xs ++ group [] ys :=
  @group_append_of_foldl [] xs hxs ys

theorem group_append_of_open {opened : List (List Char)} (hopened : opened ≠ [])
    {body : List (List Char)} (hbody : ∀ l ∈ body, closesBlock l = false)
    (ys : List (List Char)) : group opened (body ++ ys) = group (body.reverse ++ opened) ys := by
  induction body generalizing opened with
  | nil => rfl
  | cons line body ih =>
      obtain ⟨hline, hbody⟩ := List.forall_mem_cons.mp hbody
      have hrest := ih (List.cons_ne_nil line opened) hbody
      simpa [group, hopened, hline] using hrest

/-- A block goes on to the first line that closes it. -/
theorem group_block {opening closing : List Char} {body : List (List Char)}
    (hopen : opensBlock opening = true) (hbody : ∀ l ∈ body, closesBlock l = false)
    (hclose : closesBlock closing = true) (ys : List (List Char)) :
    group [] (opening :: (body ++ closing :: ys)) =
      (opening :: (body ++ [closing])) :: group [] ys := by
  have hrest := group_append_of_open (List.cons_ne_nil opening []) hbody (closing :: ys)
  simp [group, hopen, hrest, hclose]

theorem group_single {line : List Char} (hopen : opensBlock line = false)
    (ys : List (List Char)) : group [] (line :: ys) = [line] :: group [] ys := by
  simp [group, hopen]

theorem leavesOpen_concat (xs : List (List Char)) (line : List Char) :
    leavesOpen (xs ++ [line]) = openBehind (leavesOpen xs) line := by
  rw [leavesOpen, List.foldl_append]
  rfl

/-- Where a block is left open, it is the lines from the last one that opened a block. -/
theorem exists_opening {xs : List (List Char)} (hxs : leavesOpen xs = true) :
    ∃ before opening body, xs = before ++ opening :: body ∧ leavesOpen before = false ∧
      opensBlock opening = true ∧ ∀ l ∈ body, closesBlock l = false := by
  induction xs using List.reverseRecOn with
  | nil => exact absurd hxs Bool.false_ne_true
  | append_singleton xs line ih =>
      rw [leavesOpen_concat] at hxs
      cases hbefore : leavesOpen xs with
      | false =>
          rw [hbefore] at hxs
          exact ⟨xs, line, [], rfl, hbefore, by simpa [openBehind] using hxs, by simp⟩
      | true =>
          rw [hbefore] at hxs
          obtain ⟨before, opening, body, rfl, hclosed, hopen, hbody⟩ := ih hbefore
          refine ⟨before, opening, body ++ [line], by simp, hclosed, hopen, ?_⟩
          intro l hl
          rcases List.mem_append.mp hl with hl | hl
          · exact hbody l hl
          · rw [List.mem_singleton.mp hl]
            simpa [openBehind] using hxs

/-- What is written behind a block that is left open belongs to the block. -/
theorem group_append_of_leavesOpen {before body : List (List Char)} {opening : List Char}
    (hbefore : leavesOpen before = false) (hopen : opensBlock opening = true)
    (hbody : ∀ l ∈ body, closesBlock l = false) (ys : List (List Char)) :
    group [] (before ++ opening :: (body ++ ys)) =
      group [] before ++ group (body.reverse ++ [opening]) ys := by
  have hopening : group [] (opening :: (body ++ ys)) = group [opening] (body ++ ys) := by
    simp [group, hopen]
  rw [group_append hbefore, hopening, group_append_of_open (List.cons_ne_nil opening []) hbody]

end TextDiagram.Class
