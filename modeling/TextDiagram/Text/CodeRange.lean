/-!
# Sets of code points

A class of characters is a list of closed intervals of code points in ascending order. On such a
list membership is decided by walking it only as far as the intervals start at or below the code
point.
-/

namespace TextDiagram.Text

abbrev CodeRanges := List (Nat × Nat)

namespace CodeRanges

def covers : CodeRanges → Nat → Bool
  | [], _ => false
  | (lo, hi) :: rest, n => if n < lo then false else n ≤ hi || covers rest n

theorem exists_of_covers {ranges : CodeRanges} {n : Nat} (h : ranges.covers n = true) :
    ∃ r ∈ ranges, r.1 ≤ n ∧ n ≤ r.2 := by
  induction ranges with
  | nil => simp [covers] at h
  | cons r rest ih =>
      obtain ⟨lo, hi⟩ := r
      simp only [covers] at h
      split at h
      · simp at h
      · rename_i hlo
        rcases Bool.or_eq_true_iff.mp h with hhi | hrest
        · exact ⟨(lo, hi), by simp, by omega, by simpa using hhi⟩
        · obtain ⟨s, hs, hsn⟩ := ih hrest
          exact ⟨s, by simp [hs], hsn⟩

end CodeRanges

end TextDiagram.Text
