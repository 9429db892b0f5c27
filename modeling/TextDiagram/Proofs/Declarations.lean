import Mathlib.Data.List.Induction
import TextDiagram.Proofs.Coherence

/-!
# What declarations add up to

An id may be declared any number of times. Its node keeps the kind of the first declaration, shows
the last label that differs from the id, and collects all members. Steps that do not concern the id
can stand anywhere in between.
-/

namespace TextDiagram

/-- The last label that is not just the id; without one, the id itself. -/
def shownLabel (id : String) (labels : List String) : String :=
  (labels.filter fun label => label ≠ id).getLast?.getD id

@[simp] theorem shownLabel_nil (id : String) : shownLabel id [] = id := rfl

theorem shownLabel_concat (id : String) (labels : List String) (label : String) :
    shownLabel id (labels ++ [label]) = if label = id then shownLabel id labels else label := by
  by_cases h : label = id <;> simp [shownLabel, List.filter_append, h]

theorem shownLabel_congr {id : String} {xs ys : List String}
    (h : xs.filter (fun label => label ≠ id) = ys.filter fun label => label ≠ id) :
    shownLabel id xs = shownLabel id ys := by
  rw [shownLabel, shownLabel, h]

/-- A label that is left out stands for the id. -/
theorem shownLabel_getD {α : Type} (id : String) (label? : α → Option String) (xs : List α) :
    shownLabel id (xs.map fun x => (label? x).getD id) = shownLabel id (xs.filterMap label?) := by
  apply shownLabel_congr
  induction xs with
  | nil => rfl
  | cons x xs ih =>
      cases hlabel : label? x with
      | none => simpa [hlabel] using ih
      | some label => by_cases h : label = id <;> simpa [hlabel, h] using ih

namespace Node

/-- A node with the given id that takes label, members and stereotype from declarations of it. -/
def joined (first : Node) (declared : List Node) : Node :=
  { first with
    label := shownLabel first.id (declared.map Node.label)
    attributes := declared.flatMap Node.attributes
    methods := declared.flatMap Node.methods
    stereotype := (declared.filterMap Node.stereotype).getLast? }

theorem joined_self (n : Node) : n.joined [n] = n := by
  have hlabel : shownLabel n.id [n.label] = n.label := by
    rw [← List.nil_append [n.label], shownLabel_concat]
    split
    · simp_all
    · rfl
  cases hstereotype : n.stereotype <;> simp [joined, hlabel, ← hstereotype]

/-- Declarations whose labels are optional, and that have no stereotype. -/
theorem joined_map {α : Type} {node : α → Node} {label? : α → Option String} {first : Node}
    {xs : List α} (hlabel : ∀ x ∈ xs, (node x).label = (label? x).getD first.id)
    (hstereotype : ∀ x, (node x).stereotype = none) :
    first.joined (xs.map node) =
      { first with
        label := shownLabel first.id (xs.filterMap label?)
        attributes := xs.flatMap fun x => (node x).attributes
        methods := xs.flatMap fun x => (node x).methods
        stereotype := none } := by
  have hlabels : (xs.map node).map Node.label = xs.map fun x => (label? x).getD first.id := by
    rw [List.map_map]
    exact List.map_congr_left hlabel
  have hnone : (xs.map node).filterMap Node.stereotype = [] := by
    simp [List.filterMap_map, hstereotype]
  rw [joined, hlabels, shownLabel_getD, hnone, List.flatMap_map, List.flatMap_map]
  rfl

theorem redeclare_joined {first new : Node} (declared : List Node)
    (hkind : first.kind.isImplicit = false) (hid : new.id = first.id) :
    (first.joined declared).redeclare new = first.joined (declared ++ [new]) := by
  have hlast : (((declared ++ [new]).filterMap Node.stereotype).getLast?) =
      new.stereotype.or (declared.filterMap Node.stereotype).getLast? := by
    cases hs : new.stereotype <;> simp [List.filterMap_append, hs]
  simp only [redeclare, joined, hkind, Bool.false_and, Bool.false_eq_true, if_false, hlast,
    List.map_append, List.map_cons, List.map_nil, shownLabel_concat, hid, List.flatMap_append,
    List.flatMap_singleton]

/-- Redeclaring a node again and again joins all its declarations. -/
theorem foldl_redeclare (first : Node) (rest : List Node) (hkind : first.kind.isImplicit = false)
    (hids : ∀ n ∈ rest, n.id = first.id) :
    rest.foldl redeclare first = first.joined (first :: rest) := by
  induction rest using List.reverseRecOn with
  | nil => exact (joined_self first).symm
  | append_singleton rest n ih =>
      have hrest := ih fun m hm => hids m (List.mem_append_left _ hm)
      rw [List.foldl_append, hrest]
      exact redeclare_joined (first :: rest) hkind (hids n (by simp))

end Node

/-! ### Steps and single nodes -/

namespace Step

/-- Steps that leave the node alone can be dropped. -/
theorem foldl_onNode_of_idle {id : String} {steps : List Step} {node? : Option Node}
    (h : ∀ step ∈ steps, step.onNode id node? = node?) :
    steps.foldl (fun node? step => step.onNode id node?) node? = node? := by
  induction steps with
  | nil => rfl
  | cons step steps ih =>
      rw [List.foldl_cons, h step (by simp)]
      exact ih fun s hs => h s (by simp [hs])

theorem foldl_onNode_connect (id : String) (edges : List Edge) (node? : Option Node) :
    (edges.map Step.connect).foldl (fun node? step => step.onNode id node?) node? = node? := by
  apply foldl_onNode_of_idle
  simp [onNode]

theorem foldl_onNode_declare_some (id : String) (declared : List Node) (n : Node) :
    (declared.map Step.declare).foldl (fun node? step => step.onNode id node?) (some n) =
      some ((declared.filter fun d => d.id = id).foldl Node.redeclare n) := by
  induction declared generalizing n with
  | nil => rfl
  | cons d declared ih =>
      by_cases hid : d.id = id
      · simpa [onNode, hid] using ih (n.redeclare d)
      · simpa [onNode, hid] using ih n

section Declare

variable {α : Type} (node : α → Node) (idOf : α → String)

/-- Only the declarations of an id make its node. -/
theorem foldl_onNode_declare (hid : ∀ x, (node x).id = idOf x)
    (hkind : ∀ x, (node x).kind.isImplicit = false) (id : String) (xs : List α) :
    ((xs.map node).map Step.declare).foldl (fun node? step => step.onNode id node?) none =
      ((xs.filter fun x => idOf x = id).head?).map fun first =>
        (node first).joined ((xs.filter fun x => idOf x = id).map node) := by
  induction xs with
  | nil => rfl
  | cons x xs ih =>
      by_cases hx : idOf x = id
      · have hids : ∀ n ∈ (xs.filter fun y => idOf y = id).map node, n.id = (node x).id := by
          intro n hn
          obtain ⟨y, hy, rfl⟩ := List.mem_map.mp hn
          have hyid : idOf y = id := by simpa using (List.mem_filter.mp hy).2
          rw [hid, hid, hx, hyid]
        have hfilter : (xs.map node).filter (fun n => n.id = id) =
            (xs.filter fun y => idOf y = id).map node := by
          simp only [List.filter_map, Function.comp_def, hid]
        have hfirst : (Step.declare (node x)).onNode id none = some (node x) := by
          simp [onNode, hid, hx]
        rw [List.map_cons, List.map_cons, List.foldl_cons, hfirst, foldl_onNode_declare_some,
          hfilter, Node.foldl_redeclare _ _ (hkind x) hids]
        simp [hx]
      · simpa [onNode, hid, hx] using ih

/-- The first declaration of an id gives its node the kind. -/
theorem foldl_onNode_declare_of_mem (hid : ∀ x, (node x).id = idOf x)
    (hkind : ∀ x, (node x).kind.isImplicit = false) {id : String} {xs : List α}
    (hmem : id ∈ xs.map idOf) :
    ∃ first, (xs.find? fun x => idOf x = id) = some first ∧
      ((xs.map node).map Step.declare).foldl (fun node? step => step.onNode id node?) none =
        some ((node first).joined ((xs.filter fun x => idOf x = id).map node)) := by
  obtain ⟨x, hx, rfl⟩ := List.mem_map.mp hmem
  have hsome : (xs.find? fun y => idOf y = idOf x).isSome := by
    rw [List.find?_isSome]
    exact ⟨x, hx, by simp⟩
  obtain ⟨first, hfirst⟩ := Option.isSome_iff_exists.mp hsome
  refine ⟨first, hfirst, ?_⟩
  rw [foldl_onNode_declare node idOf hid hkind, List.head?_filter, hfirst, Option.map_some]

end Declare

/-! ### Steps and edges -/

theorem foldl_onEdges_of_idle {steps : List Step}
    (h : ∀ step ∈ steps, ∀ edges, step.onEdges edges = edges) (edges : List Edge) :
    steps.foldl (fun edges step => step.onEdges edges) edges = edges := by
  induction steps with
  | nil => rfl
  | cons step steps ih =>
      rw [List.foldl_cons, h step (by simp)]
      exact ih fun s hs => h s (by simp [hs])

theorem foldl_onEdges_declare (declared : List Node) (edges : List Edge) :
    (declared.map Step.declare).foldl (fun edges step => step.onEdges edges) edges = edges := by
  apply foldl_onEdges_of_idle
  simp [onEdges]

theorem foldl_onEdges_connect (new edges : List Edge) :
    (new.map Step.connect).foldl (fun edges step => step.onEdges edges) edges = edges ++ new := by
  induction new generalizing edges with
  | nil => simp
  | cons e new ih => simpa [onEdges] using ih (edges ++ [e])

end Step

end TextDiagram
