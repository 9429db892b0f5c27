import TextDiagram.OrderedMap

/-!
# Lookups in an ordered map

An ordered map is known by its keys and by what it has for each of them. Each operation is described
by the keys that it leaves and by every lookup after it. The order of keys is that of first
occurrences, so the facts about these come first.
-/

namespace TextDiagram

/-! ### First occurrences -/

/-- Removing what is there already and then keeping first occurrences, one element at a time. -/
theorem eraseDups_removeAll_cons {α : Type} [DecidableEq α] (x : α) (xs seen : List α) :
    ((x :: xs).removeAll seen).eraseDups =
      if x ∈ seen then (xs.removeAll seen).eraseDups
      else x :: (xs.removeAll (seen ++ [x])).eraseDups := by
  by_cases h : x ∈ seen
  · simp [List.removeAll, h]
  · have hfilter : (xs.removeAll seen).filter (fun y => !y == x) = xs.removeAll (seen ++ [x]) := by
      simp only [List.removeAll, List.filter_filter]
      apply List.filter_congr
      intro y _
      by_cases hy : y = x <;> simp [hy]
    have hcons : (x :: xs).removeAll seen = x :: xs.removeAll seen := by simp [List.removeAll, h]
    rw [hcons, List.eraseDups_cons, hfilter, if_neg h]

theorem removeAll_eraseDups {α : Type} [DecidableEq α] (xs ys : List α) :
    xs.removeAll ys.eraseDups = xs.removeAll ys := by
  apply List.filter_congr
  intro x _
  by_cases hx : x ∈ ys <;> simp [hx]

namespace OrderedMap

variable {κ α : Type} [DecidableEq κ]

@[simp] theorem get?_empty (k : κ) : (empty : OrderedMap κ α).get? k = none := rfl

theorem get?_eq_none_iff {m : OrderedMap κ α} {k : κ} : m.get? k = none ↔ k ∉ m.keys := by
  rw [← get?_isSome_iff, Bool.not_eq_true, Option.isSome_eq_false_iff, Option.isNone_iff_eq_none]

/-- A new entry counts only where there was none. -/
theorem get?_insertNew (m : OrderedMap κ α) (k j : κ) (a : α) :
    (m.insertNew k a).get? j = (m.get? j).or (if j = k then some a else none) := by
  by_cases h : k ∈ m.keys
  · have hsame : m.insertNew k a = m := by simp [insertNew, contains_iff, h]
    rw [hsame]
    by_cases hj : j = k
    · obtain ⟨b, hb⟩ := Option.isSome_iff_exists.mp (get?_isSome_iff.mpr h)
      simp [hj, hb]
    · simp [hj]
  · have hnew : m.insertNew k a = ⟨m.entries ++ [(k, a)]⟩ := by simp [insertNew, contains_iff, h]
    rw [hnew]
    by_cases hj : k = j
    · cases hfind : m.entries.find? fun e => e.1 = j with
      | none => simp [get?, List.find?_append, hj, hfind]
      | some e => simp [get?, List.find?_append, hfind]
    · simp [get?, List.find?_append, hj, Ne.symm hj]

theorem get?_modify (m : OrderedMap κ α) (k j : κ) (f : α → α) :
    (m.modify k f).get? j = if j = k then (m.get? j).map f else m.get? j := by
  have hkey : ∀ e : κ × α, (if e.1 = k then (e.1, f e.2) else e).1 = e.1 := by
    intro e
    split <;> rfl
  simp only [get?, modify, List.find?_map, Function.comp_def, hkey, Option.map_map]
  cases hfind : m.entries.find? fun e => e.1 = j with
  | none => simp
  | some e =>
      have he : e.1 = j := by simpa using List.find?_some hfind
      by_cases hj : j = k <;> simp [he, hj]

theorem get?_of_mem {m : OrderedMap κ α} (hkeys : m.keys.Nodup) {e : κ × α}
    (he : e ∈ m.entries) : m.get? e.1 = some e.2 := by
  obtain ⟨entries⟩ := m
  simp only [keys] at hkeys he
  induction entries with
  | nil => simp at he
  | cons x xs ih =>
      rw [List.map_cons, List.nodup_cons] at hkeys
      rcases List.mem_cons.mp he with rfl | he
      · simp [get?]
      · have hne : x.1 ≠ e.1 := fun heq => hkeys.1 (heq ▸ List.mem_map_of_mem he)
        simpa [get?, hne] using ih hkeys.2 he

theorem mem_values_of_get? {m : OrderedMap κ α} {k : κ} {a : α} (h : m.get? k = some a) :
    a ∈ m.values := by
  obtain ⟨e, he, rfl⟩ := Option.map_eq_some_iff.mp h
  exact List.mem_map_of_mem (List.mem_of_find?_eq_some he)

/-- The values stand in the order of the keys. -/
theorem map_some_values {m : OrderedMap κ α} (hkeys : m.keys.Nodup) :
    m.values.map some = m.keys.map m.get? := by
  simp only [values, keys, List.map_map]
  apply List.map_congr_left
  intro e he
  exact (get?_of_mem hkeys he).symm

theorem values_eq_map {m : OrderedMap κ α} (hkeys : m.keys.Nodup) {f : κ → α}
    (hf : ∀ k ∈ m.keys, m.get? k = some (f k)) : m.values = m.keys.map f := by
  have hsome : m.values.map some = (m.keys.map f).map some := by
    rw [map_some_values hkeys, List.map_map]
    exact List.map_congr_left hf
  exact (List.map_inj_right fun _ _ => Option.some.inj).mp hsome

/-- Maps with the same keys and the same lookups have the same values. -/
theorem values_congr {m n : OrderedMap κ α} (hm : m.keys.Nodup) (hkeys : m.keys = n.keys)
    (hget : ∀ k ∈ m.keys, m.get? k = n.get? k) : m.values = n.values := by
  have hsome : m.values.map some = n.values.map some := by
    rw [map_some_values hm, map_some_values (hkeys ▸ hm), ← hkeys]
    exact List.map_congr_left hget
  exact (List.map_inj_right fun _ _ => Option.some.inj).mp hsome

theorem values_insertNew (m : OrderedMap κ α) (k : κ) (a : α) :
    (m.insertNew k a).values = if k ∈ m.keys then m.values else m.values ++ [a] := by
  by_cases h : k ∈ m.keys
  · simp [insertNew, contains_iff, h]
  · simp [insertNew, contains_iff, h, values]

end OrderedMap

end TextDiagram
