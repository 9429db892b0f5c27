import Mathlib.Data.List.Nodup
import Mathlib.Data.List.Perm.Subperm
import TextDiagram.Sequence.Reading

/-!
# Ids of notes

Different numbers make different ids, so among one number more than there are roles one is free. The
numbers of the notes ascend, and none of their ids is that of a role.
-/

namespace TextDiagram.Sequence

theorem noteId_injective : Function.Injective noteId := by
  intro m n h
  have hrepr : m.repr = n.repr := (String.append_right_inj _).mp h
  have hdigits : Nat.toDigits 10 m = Nat.toDigits 10 n := by
    rw [← Nat.toList_repr, ← Nat.toList_repr, hrepr]
  have hvalues := congrArg (Nat.ofDigitChars 10 · 0) hdigits
  rwa [Nat.ofDigitChars_ten_toDigits, Nat.ofDigitChars_ten_toDigits] at hvalues

/-- The ids of `taken.length + 1` numbers in a row cannot all be taken. -/
theorem exists_free_number (taken : List String) (n : Nat) :
    ∃ k ∈ List.range' n (taken.length + 1), noteId k ∉ taken := by
  by_contra hnone
  have hnodup : ((List.range' n (taken.length + 1)).map noteId).Nodup :=
    (List.nodup_range' (h := Nat.one_pos)).map noteId_injective
  have hsubset : (List.range' n (taken.length + 1)).map noteId ⊆ taken := by
    intro id hid
    obtain ⟨k, hk, rfl⟩ := List.mem_map.mp hid
    by_contra hfree
    exact hnone ⟨k, hk, hfree⟩
  have hlength := (hnodup.subperm hsubset).length_le
  rw [List.length_map, List.length_range'] at hlength
  omega

theorem freeNumber_spec (taken : List String) (n : Nat) :
    n ≤ freeNumber taken n ∧ noteId (freeNumber taken n) ∉ taken := by
  obtain ⟨j, hj, hfree⟩ := exists_free_number taken n
  have hsome : ((List.range' n (taken.length + 1)).find? fun k => noteId k ∉ taken).isSome := by
    rw [List.find?_isSome]
    exact ⟨j, hj, by simpa using hfree⟩
  obtain ⟨k, hk⟩ := Option.isSome_iff_exists.mp hsome
  have hmem := List.mem_range'_1.mp (List.mem_of_find?_eq_some hk)
  have hid : noteId k ∉ taken := by simpa using List.find?_some hk
  rw [freeNumber, hk]
  exact ⟨hmem.1, hid⟩

/-- No free number is passed over. -/
theorem freeNumber_le {taken : List String} {n k : Nat} (hk : n ≤ k) (hfree : noteId k ∉ taken) :
    freeNumber taken n ≤ k := by
  by_contra hlt
  rw [freeNumber] at hlt
  cases hfind : (List.range' n (taken.length + 1)).find? fun k => noteId k ∉ taken with
  | none =>
      rw [hfind, Option.getD_none] at hlt
      omega
  | some j =>
      rw [hfind, Option.getD_some] at hlt
      have hpassed := (List.find?_range'_eq_some.mp hfind).2.2 k hk (by omega)
      simp [hfree] at hpassed

/-! ### Numbered notes -/

theorem map_snd_numberNotes (taken : List String) (n : Nat) (notes : List Note) :
    (numberNotes taken n notes).map Prod.snd = notes := by
  induction notes generalizing n with
  | nil => rfl
  | cons note notes ih => rw [numberNotes, List.map_cons, ih]

theorem mem_numberNotes {taken : List String} {n : Nat} {notes : List Note} {p : Nat × Note}
    (hp : p ∈ numberNotes taken n notes) : n ≤ p.1 ∧ noteId p.1 ∉ taken := by
  induction notes generalizing n with
  | nil => simp [numberNotes] at hp
  | cons note notes ih =>
      obtain ⟨hle, hfree⟩ := freeNumber_spec taken n
      rw [numberNotes] at hp
      rcases List.mem_cons.mp hp with rfl | hp
      · exact ⟨hle, hfree⟩
      · obtain ⟨hlater, hpfree⟩ := ih hp
        exact ⟨by omega, hpfree⟩

/-- Where more ids are taken and there are as many notes, the numbers that stay free stay numbers of
notes. The search for the larger set is never behind the other one. -/
theorem mem_numberNotes_of_subset {taken more : List String} (hmore : taken ⊆ more) {n m k : Nat}
    (hnm : n ≤ m) (hmk : m ≤ k) (hfree : noteId k ∉ more) {notes others : List Note}
    (hlength : notes.length ≤ others.length) (hk : k ∈ (numberNotes taken n notes).map Prod.fst) :
    k ∈ (numberNotes more m others).map Prod.fst := by
  induction notes generalizing n m others with
  | nil => exact absurd hk List.not_mem_nil
  | cons note notes ih =>
      cases others with
      | nil => exact absurd hlength (Nat.not_succ_le_zero notes.length)
      | cons other others =>
          obtain ⟨hm, hunused⟩ := freeNumber_spec more m
          have hle := freeNumber_le hmk hfree
          have hbehind : freeNumber taken n ≤ freeNumber more m :=
            freeNumber_le (by omega) fun hmem => hunused (hmore hmem)
          rw [numberNotes, List.map_cons, List.mem_cons] at hk ⊢
          rcases Nat.eq_or_lt_of_le hle with heq | hlt
          · exact .inl heq.symm
          · have hne : k ≠ freeNumber taken n := by omega
            have hlater := hk.resolve_left hne
            exact .inr (ih (Nat.succ_le_succ hbehind) hlt (Nat.le_of_succ_le_succ hlength) hlater)

theorem pairwise_numberNotes (taken : List String) (n : Nat) (notes : List Note) :
    (numberNotes taken n notes).Pairwise fun p q => p.1 < q.1 := by
  induction notes generalizing n with
  | nil => exact List.Pairwise.nil
  | cons note notes ih =>
      rw [numberNotes, List.pairwise_cons]
      refine ⟨?_, ih _⟩
      intro q hq
      have := (mem_numberNotes hq).1
      omega

theorem nodup_noteIds (taken : List String) (n : Nat) (notes : List Note) :
    ((numberNotes taken n notes).map fun p => noteId p.1).Nodup := by
  rw [List.Nodup, List.pairwise_map]
  apply (pairwise_numberNotes taken n notes).imp
  intro p q hlt heq
  have := noteId_injective heq
  omega

end TextDiagram.Sequence
