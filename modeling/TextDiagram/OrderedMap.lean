/-!
# Maps in order of insertion

A finite map that lists its entries in the order in which their keys were first inserted. A key
that is present keeps its place.
-/

namespace TextDiagram

structure OrderedMap (κ α : Type) where
  entries : List (κ × α)
  deriving DecidableEq, Repr

namespace OrderedMap

variable {κ α : Type}

def empty : OrderedMap κ α := ⟨[]⟩

def keys (m : OrderedMap κ α) : List κ :=
  m.entries.map Prod.fst

def values (m : OrderedMap κ α) : List α :=
  m.entries.map Prod.snd

@[simp] theorem keys_empty : (empty : OrderedMap κ α).keys = [] := rfl

variable [DecidableEq κ]

def get? (m : OrderedMap κ α) (k : κ) : Option α :=
  (m.entries.find? fun e => e.1 = k).map Prod.snd

def contains (m : OrderedMap κ α) (k : κ) : Bool :=
  m.entries.any fun e => e.1 = k

/-- An entry is added only for a key that is not present. -/
def insertNew (m : OrderedMap κ α) (k : κ) (a : α) : OrderedMap κ α :=
  if m.contains k then m else ⟨m.entries ++ [(k, a)]⟩

def modify (m : OrderedMap κ α) (k : κ) (f : α → α) : OrderedMap κ α :=
  ⟨m.entries.map fun e => if e.1 = k then (e.1, f e.2) else e⟩

theorem contains_iff {m : OrderedMap κ α} {k : κ} : m.contains k = true ↔ k ∈ m.keys := by
  simp [contains, keys]

theorem get?_isSome_iff {m : OrderedMap κ α} {k : κ} : (m.get? k).isSome = true ↔ k ∈ m.keys := by
  simp [get?, keys]

theorem keys_insertNew (m : OrderedMap κ α) (k : κ) (a : α) :
    (m.insertNew k a).keys = if k ∈ m.keys then m.keys else m.keys ++ [k] := by
  by_cases h : k ∈ m.keys
  · simp [insertNew, contains_iff, h]
  · simp only [insertNew, contains_iff, h, if_false]
    simp [keys]

@[simp] theorem keys_modify (m : OrderedMap κ α) (k : κ) (f : α → α) :
    (m.modify k f).keys = m.keys := by
  simp only [keys, modify, List.map_map]
  apply List.map_congr_left
  intro e _
  by_cases h : e.1 = k <;> simp [h]

end OrderedMap

end TextDiagram
