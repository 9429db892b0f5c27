import Mathlib.Data.Nat.Init
import TextDiagram.Proofs.SequenceAssembly
import TextDiagram.Proofs.Typing

/-!
# Numbers of notes

One counter serves all notes. For each note it goes up until it comes to a number whose id no node
has, and the next note starts behind that number. Every such search ends, the numbers that it ends
at are the smallest ones that the roles leave free, and so no note meets a node that is there.
-/

namespace TextDiagram.Sequence

/-! ### The smallest free numbers -/

structure SmallestFree (taken : List String) (numbers : List Nat) : Prop where
  ascending : numbers.Pairwise (· < ·)
  free : ∀ n ∈ numbers, noteId n ∉ taken
  smallest : ∀ n ∈ numbers, ∀ m < n, noteId m ∉ taken → m ∈ numbers

theorem mem_numberNotes_of_lt {taken : List String} {n m k : Nat} {notes : List Note}
    (hk : k ∈ (numberNotes taken n notes).map Prod.fst) (hnm : n ≤ m) (hmk : m < k)
    (hfree : noteId m ∉ taken) : m ∈ (numberNotes taken n notes).map Prod.fst := by
  induction notes generalizing n with
  | nil => exact absurd hk List.not_mem_nil
  | cons note notes ih =>
      have hfirst := freeNumber_le hnm hfree
      rw [numberNotes, List.map_cons, List.mem_cons] at hk ⊢
      rcases Nat.eq_or_lt_of_le hfirst with heq | hlt
      · exact .inl heq.symm
      · have hne : k ≠ freeNumber taken n := by omega
        exact .inr (ih (hk.resolve_left hne) hlt)

theorem smallestFree_numberNotes (taken : List String) (notes : List Note) :
    SmallestFree taken ((numberNotes taken 0 notes).map Prod.fst) where
  ascending := List.pairwise_map.mpr (pairwise_numberNotes taken 0 notes)
  free := by
    intro n hn
    obtain ⟨p, hp, rfl⟩ := List.mem_map.mp hn
    exact (mem_numberNotes hp).2
  smallest := fun _ hn m hm hfree => mem_numberNotes_of_lt hn m.zero_le hm hfree

/-! ### The searches -/

/-- The search goes up from a number, and ends at the first one whose id has no node. -/
inductive SearchEnds (a : Assembly) : Nat → Nat → Prop where
  | free {n : Nat} (h : a.nodes.contains (noteId n) = false) : SearchEnds a n n
  | taken {n k : Nat} (h : a.nodes.contains (noteId n) = true) (rest : SearchEnds a (n + 1) k) :
      SearchEnds a n k

/-- Each note takes the number that its search ends at, and the next search starts behind it. -/
inductive AddsNotes : Assembly → Nat → List Note → Assembly → Prop where
  | nil (a : Assembly) (n : Nat) : AddsNotes a n [] a
  | cons {a b : Assembly} {n k : Nat} {note : Note} {notes : List Note} (search : SearchEnds a n k)
      (rest : AddsNotes (a.declare (note.node (noteId k))) (k + 1) notes b) :
      AddsNotes a n (note :: notes) b

theorem searchEnds_of_taken {a : Assembly} {n k : Nat} (hnk : n ≤ k)
    (hfree : a.nodes.contains (noteId k) = false)
    (htaken : ∀ m, n ≤ m → m < k → a.nodes.contains (noteId m) = true) : SearchEnds a n k := by
  induction hnk using Nat.decreasingInduction with
  | self => exact .free hfree
  | of_succ m hm ih =>
      refine .taken (htaken m (Nat.le_refl m) hm) (ih fun j hj => htaken j ?_)
      omega

/-- It is enough to look at the roles if the notes so far have smaller numbers. -/
theorem searchEnds_freeNumber {a : Assembly} {taken : List String} {n : Nat}
    (h : ∀ k, n ≤ k → (noteId k ∈ a.nodes.keys ↔ noteId k ∈ taken)) :
    SearchEnds a n (freeNumber taken n) := by
  obtain ⟨hle, hfree⟩ := freeNumber_spec taken n
  refine searchEnds_of_taken hle ?_ fun m hnm hlt => ?_
  · rwa [Bool.eq_false_iff, Ne, OrderedMap.contains_iff, h _ hle]
  · rw [OrderedMap.contains_iff, h m hnm]
    by_contra hunused
    have := freeNumber_le hnm hunused
    omega

theorem addsNotes_run {a : Assembly} {taken : List String} {n : Nat}
    (h : ∀ k, n ≤ k → (noteId k ∈ a.nodes.keys ↔ noteId k ∈ taken)) (notes : List Note) :
    AddsNotes a n notes
      (a.run ((numberNotes taken n notes).map fun p => .declare (p.2.node (noteId p.1)))) := by
  induction notes generalizing a n with
  | nil => exact .nil a n
  | cons note notes ih =>
      obtain ⟨hle, -⟩ := freeNumber_spec taken n
      rw [numberNotes, List.map_cons, Assembly.run_cons]
      refine .cons (searchEnds_freeNumber h) (ih fun k hk => ?_)
      have hother : noteId k ≠ noteId (freeNumber taken n) := by
        intro heq
        have := noteId_injective heq
        omega
      have hid : (note.node (noteId (freeNumber taken n))).id = noteId (freeNumber taken n) := rfl
      have hkeys : noteId k ∈ (a.declare (note.node (noteId (freeNumber taken n)))).nodes.keys ↔
          noteId k ∈ a.nodes.keys := by
        have happly := a.keys_apply (.declare (note.node (noteId (freeNumber taken n))))
        rw [Assembly.apply] at happly
        simp [happly, Step.nodeId?, List.removeAll, hid, hother]
      rw [hkeys]
      exact h k (by omega)

/-! ### The notes of a text -/

namespace Contents

def beforeNotes (c : Contents) : Assembly :=
  Assembly.empty.run (c.declareSteps ++ c.messageSteps)

structure NumbersNotes (c : Contents) (a : Assembly) : Prop where
  added : AddsNotes c.beforeNotes 0 c.notes a
  nodes : ∃ numbers : List Nat, numbers.length = c.notes.length ∧ SmallestFree c.roles numbers ∧
    a.nodes.values = c.roleNodes ++ List.zipWith Note.node (numbers.map noteId) c.notes
  count : a.nodes.values.countP (fun n => n.kind.isNote) = c.notes.length
  roles : c.roleNodes.map Node.id = c.roles.eraseDups ∧ ∀ n ∈ c.roleNodes, n.kind.isNote = false
  /-- No note is told to be an addition to a node that is there. -/
  events : c.beforeNotes.events (c.noteNodes.map Step.declare) = []

variable (c : Contents)

theorem run_steps_eq :
    Assembly.empty.run c.steps = c.beforeNotes.run (c.noteNodes.map Step.declare) :=
  Assembly.run_append ..

theorem length_noteNodes : c.noteNodes.length = c.notes.length := by
  rw [noteNodes, List.length_map, ← List.length_map Prod.snd, map_snd_numberNotes]

theorem isNote_noteNodes : ∀ n ∈ c.noteNodes, n.kind.isNote = true := by
  intro n hn
  obtain ⟨p, -, rfl⟩ := List.mem_map.mp hn
  change p.2.kind.isNote = true
  unfold Note.kind
  split <;> rfl

theorem isNote_roleNodes : ∀ n ∈ c.roleNodes, n.kind.isNote = false := by
  intro n hn
  simp only [roleNodes, List.mem_append, List.mem_map] at hn
  rcases hn with (⟨_, -, rfl⟩ | ⟨_, -, rfl⟩) | ⟨_, -, rfl⟩ <;> rfl

theorem map_id_roleNodes : c.roleNodes.map Node.id = c.roles.eraseDups := by
  have hids := (Assembly.coherent_run_empty (c.declareSteps ++ c.messageSteps)).ids_values
  rwa [c.values_run_roleSteps, c.keys_run_roleSteps] at hids

theorem countP_isNote_values :
    (Assembly.empty.run c.steps).nodes.values.countP (fun n => n.kind.isNote) =
      c.notes.length := by
  have hroles : c.roleNodes.countP (fun n => n.kind.isNote) = 0 := by
    rw [List.countP_eq_zero]
    intro n hn
    simp [c.isNote_roleNodes n hn]
  have hnotes : c.noteNodes.countP (fun n => n.kind.isNote) = c.noteNodes.length :=
    List.countP_eq_length.mpr c.isNote_noteNodes
  rw [c.values_run_steps, List.countP_append, hroles, hnotes, c.length_noteNodes, Nat.zero_add]

theorem addsNotes_run_steps : AddsNotes c.beforeNotes 0 c.notes (Assembly.empty.run c.steps) := by
  have hroles : ∀ k, 0 ≤ k → (noteId k ∈ c.beforeNotes.nodes.keys ↔ noteId k ∈ c.roles) := by
    intro k _
    rw [beforeNotes, c.keys_run_roleSteps, List.mem_eraseDups]
  rw [c.run_steps_eq, noteNodes, List.map_map]
  exact addsNotes_run hroles c.notes

theorem numbersNotes_run_steps : c.NumbersNotes (Assembly.empty.run c.steps) where
  added := c.addsNotes_run_steps
  nodes := by
    refine ⟨(numberNotes c.roles 0 c.notes).map Prod.fst, ?_, smallestFree_numberNotes .., ?_⟩
    · rw [List.length_map, ← c.length_noteNodes, noteNodes, List.length_map]
    · rw [c.values_run_steps, c.noteNodes_eq_zipWith, List.map_map]
      rfl
  count := c.countP_isNote_values
  roles := ⟨c.map_id_roleNodes, c.isNote_roleNodes⟩
  events := Assembly.events_declare_fresh _ c.nodup_ids_noteNodes c.notMem_keys_of_mem_noteNodes

end Contents

/-- Every note of a text gets a node of its own behind the nodes of the roles, and the numbers of
the notes are the smallest ones that the roles leave free. -/
theorem scan_numbers_notes (source : List Char) :
    (contents source).NumbersNotes (Dialect.sequence.scan source) := by
  rw [scan_eq_run]
  exact (contents source).numbersNotes_run_steps

/-- Two numbers are taken by roles, one of them in between. -/
example :
    let source := "note_0 ->> note_2: hi\nNote over A: x\nNote over B, C: y"
    ((Dialect.sequence.scan source.toList).nodes.values.map fun n =>
        (n.id, n.label, n.participants)) =
      [("note_0", "note_0", []), ("note_2", "note_2", []), ("note_1", "x", ["A"]),
        ("note_3", "y", ["B", "C"])] := by
  decide +kernel

end TextDiagram.Sequence
