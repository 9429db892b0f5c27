import Mathlib.Data.List.Induction
import Mathlib.Data.List.Nodup
import TextDiagram.Proofs.Assembly

/-!
# Coherent assemblies

Every assembly that a run builds from nothing is coherent: its keys are pairwise distinct, each
node stands at its own id, and the place kept for a pair of nodes is that of the first edge between
them. Closing a coherent assembly adds one node for each endpoint that has none, so the graph that
comes of it is well formed.
-/

namespace TextDiagram

/-- The ids of the nodes are pairwise distinct, and every edge joins two of the nodes. -/
structure Graph.WellFormed (g : Graph) : Prop where
  ids_nodup : (g.nodes.map Node.id).Nodup
  source_mem : ∀ e ∈ g.edges, e.source ∈ g.nodes.map Node.id
  target_mem : ∀ e ∈ g.edges, e.target ∈ g.nodes.map Node.id

theorem Graph.wellFormed_empty : Graph.empty.WellFormed := by
  refine ⟨?_, ?_, ?_⟩ <;> simp [Graph.empty]

theorem Graph.WellFormed.node?_of_mem {g : Graph} (h : g.WellFormed) {n : Node}
    (hn : n ∈ g.nodes) : g.node? n.id = some n := by
  have hsome : (g.nodes.find? fun m => m.id == n.id).isSome :=
    List.find?_isSome.mpr ⟨n, hn, beq_self_eq_true n.id⟩
  obtain ⟨m, hm⟩ := Option.isSome_iff_exists.mp hsome
  have hid : m.id = n.id := by simpa using List.find?_some hm
  obtain rfl := List.inj_on_of_nodup_map h.ids_nodup (List.mem_of_find?_eq_some hm) hn hid
  exact hm

/-- A step that adds an edge, or a node of the given kind where there is none. -/
def Step.IsReference (kind : NodeKind) : Step → Prop
  | connect _ => True
  | synthesize _ k => k = kind
  | _ => False

theorem Step.isReference_iff {kind : NodeKind} (step : Step) :
    step.IsReference kind ↔ (∃ e, step = connect e) ∨ ∃ id, step = synthesize id kind := by
  cases step <;> simp [IsReference]

theorem Step.onNode_id {id : String} {step : Step} {node? : Option Node}
    (h : ∀ n ∈ node?, n.id = id) : ∀ n ∈ step.onNode id node?, n.id = id := by
  cases step with
  | declare new =>
      by_cases hid : new.id = id
      · cases node? with
        | none => simp [onNode, hid]
        | some old =>
            have hold : old.id = id := h old rfl
            have hnew : (old.redeclare new).id = old.id :=
              Node.redeclare_id (hid.trans hold.symm)
            simpa [onNode, hid] using hnew.trans hold
      · simpa [onNode, hid] using h
  | synthesize i kind =>
      by_cases hid : i = id
      · cases node? with
        | none => simp [onNode, hid]
        | some old => simpa [onNode, hid] using h
      · simpa [onNode, hid] using h
  | connect e => exact h
  | label source target text kind => exact h
  | stereotype i text =>
      by_cases hid : i = id
      · cases node? with
        | none => simp [onNode]
        | some old =>
            have hold : old.id = id := h old rfl
            by_cases hkind : old.kind = .classifier <;>
              simpa [onNode, hid, hkind, Node.setStereotype] using hold
      · simpa [onNode, hid] using h

/-- What a change of one element leaves as it was can be read off the list before the change. -/
theorem map_modify_eq {α β : Type} {f : α → α} {g : α → β} (h : ∀ x, g (f x) = g x) (xs : List α)
    (i : Nat) : (xs.modify i f).map g = xs.map g := by
  induction xs generalizing i with
  | nil => simp
  | cons x xs ih => cases i <;> simp [h, ih]

/-- A new label leaves the ends and the kind of an edge as they are. -/
theorem map_ends_kind_modify (edges : List Edge) (i : Nat) (text : String) :
    (edges.modify i fun e => e.setLabel text).map (fun e => (e.ends, e.kind)) =
      edges.map fun e => (e.ends, e.kind) := by
  apply map_modify_eq
  intro e
  rfl

theorem findIdx?_ends_modify (edges : List Edge) (i : Nat) (text : String)
    (ends : String × String) :
    ((edges.modify i fun e => e.setLabel text).findIdx? fun e => e.ends = ends) =
      edges.findIdx? fun e => e.ends = ends := by
  have hends := map_modify_eq (fun e => Edge.ends_setLabel e text) edges i
  have hfind := congrArg (List.findIdx? fun x => decide (x = ends)) hends
  simpa only [List.findIdx?_map, Function.comp_def] using hfind

namespace Assembly

structure Coherent (a : Assembly) : Prop where
  keys_nodup : a.nodes.keys.Nodup
  node_id : ∀ id, ∀ n ∈ a.nodes.get? id, n.id = id
  firstEdge_eq : ∀ ends, a.firstEdge.get? ends = a.edges.findIdx? fun e => e.ends = ends

theorem coherent_empty : empty.Coherent := by
  refine ⟨?_, ?_, ?_⟩
  · simp [empty]
  · simp [empty]
  · simp [empty]

/-! ### Steps and runs -/

/-- A new edge is the first one between its ends exactly if there was none before. -/
theorem firstEdge_connect {a : Assembly}
    (h : ∀ ends, a.firstEdge.get? ends = a.edges.findIdx? fun e => e.ends = ends) (e : Edge)
    (ends : String × String) :
    (a.connect e).firstEdge.get? ends = (a.connect e).edges.findIdx? fun e => e.ends = ends := by
  have hlast : (a.connect e).firstEdge.get? ends =
      (a.firstEdge.get? ends).or (if ends = e.ends then some a.edges.length else none) :=
    OrderedMap.get?_insertNew ..
  rw [hlast, h, edges_connect, List.findIdx?_append, List.findIdx?_singleton]
  by_cases hends : e.ends = ends
  · simp [hends]
  · simp [hends, Ne.symm hends]

theorem firstEdge_apply {a : Assembly} (h : a.Coherent) (step : Step) (ends : String × String) :
    (a.apply step).firstEdge.get? ends =
      (a.apply step).edges.findIdx? fun e => e.ends = ends := by
  cases step with
  | declare n =>
      simp only [apply, declare]
      split <;> exact h.firstEdge_eq ends
  | synthesize id kind => exact h.firstEdge_eq ends
  | connect e => exact firstEdge_connect h.firstEdge_eq e ends
  | label source target text kind =>
      simp only [apply, label]
      split
      · rw [findIdx?_ends_modify]
        exact h.firstEdge_eq ends
      · exact firstEdge_connect h.firstEdge_eq _ ends
  | stereotype id text =>
      simp only [apply, stereotype]
      split <;> exact h.firstEdge_eq ends

theorem Coherent.apply {a : Assembly} (h : a.Coherent) (step : Step) : (a.apply step).Coherent where
  keys_nodup := by
    rw [keys_apply, List.nodup_append]
    refine ⟨h.keys_nodup, ?_, ?_⟩
    · cases step.nodeId? with
      | none => simp
      | some id => exact (List.nodup_singleton id).filter _
    · intro x hx y hy hxy
      rw [List.removeAll, List.mem_filter] at hy
      simp [← hxy, hx] at hy
  node_id := by
    intro id
    rw [get?_apply]
    exact Step.onNode_id (h.node_id id)
  firstEdge_eq := firstEdge_apply h step

theorem Coherent.run {a : Assembly} (h : a.Coherent) (steps : List Step) :
    (a.run steps).Coherent := by
  induction steps generalizing a with
  | nil => exact h
  | cons step steps ih => exact ih (h.apply step)

theorem coherent_run_empty (steps : List Step) : (empty.run steps).Coherent :=
  coherent_empty.run steps

/-- In a coherent assembly the index of first edges is as good as a search. -/
theorem edges_apply {a : Assembly} (h : a.Coherent) (step : Step) :
    (a.apply step).edges = step.onEdges a.edges := by
  cases step with
  | declare n => exact a.edges_declare n
  | synthesize id kind => rfl
  | connect e => rfl
  | label source target text kind =>
      simp only [Assembly.apply, Assembly.label, Step.onEdges, h.firstEdge_eq]
      cases a.edges.findIdx? fun e => e.ends = (source, target) <;> rfl
  | stereotype id text => exact a.edges_stereotype id text

theorem edges_run {a : Assembly} (h : a.Coherent) (steps : List Step) :
    (a.run steps).edges = steps.foldl (fun edges step => step.onEdges edges) a.edges := by
  induction steps generalizing a with
  | nil => rfl
  | cons step steps ih => rw [run_cons, ih (h.apply step), edges_apply h, List.foldl_cons]

theorem Coherent.ids_values {a : Assembly} (h : a.Coherent) :
    a.nodes.values.map Node.id = a.nodes.keys := by
  simp only [OrderedMap.values, OrderedMap.keys, List.map_map]
  apply List.map_congr_left
  intro e he
  exact h.node_id e.1 e.2 (OrderedMap.get?_of_mem h.keys_nodup he)

/-! ### Closing -/

/-- Steps that only refer to nodes add a node for each id that has none. -/
theorem values_run_references (a : Assembly) {kind : NodeKind} {steps : List Step}
    (h : ∀ step ∈ steps, step.IsReference kind) :
    (a.run steps).nodes.values =
      a.nodes.values ++ ((steps.filterMap Step.nodeId?).removeAll a.nodes.keys).eraseDups.map
        fun id => Node.unlabeled id kind := by
  induction steps generalizing a with
  | nil => simp
  | cons step steps ih =>
      have hrest := ih (a.apply step) fun s hs => h s (List.mem_cons_of_mem step hs)
      rw [run_cons, hrest]
      rcases step.isReference_iff.mp (h step List.mem_cons_self) with ⟨e, rfl⟩ | ⟨id, rfl⟩
      · rfl
      · have hvalues : (a.synthesize id kind).2.nodes.values =
            if id ∈ a.nodes.keys then a.nodes.values
            else a.nodes.values ++ [Node.unlabeled id kind] := OrderedMap.values_insertNew ..
        have hkeys : (a.synthesize id kind).2.nodes.keys =
            if id ∈ a.nodes.keys then a.nodes.keys else a.nodes.keys ++ [id] :=
          OrderedMap.keys_insertNew ..
        have hid : (Step.synthesize id kind).nodeId? = some id := rfl
        rw [List.filterMap_cons_some hid, eraseDups_removeAll_cons, apply, hvalues, hkeys]
        by_cases hknown : id ∈ a.nodes.keys <;> simp [hknown]

/-- A new id is still new when other new ids have been declared. -/
theorem notMem_keys_run_declare {a : Assembly} {new : List Node} {n : Node}
    (hnodup : ((new ++ [n]).map Node.id).Nodup) (hfresh : ∀ m ∈ new ++ [n], m.id ∉ a.nodes.keys) :
    n.id ∉ (a.run (new.map Step.declare)).nodes.keys := by
  have hids : (new.map Step.declare).filterMap Step.nodeId? = new.map Node.id := by
    simp [List.filterMap_map, Function.comp_def, Step.nodeId?]
  have hearlier : n.id ∉ new.map Node.id := by
    rw [List.map_append, List.nodup_append] at hnodup
    exact fun hmem => hnodup.2.2 _ hmem _ (List.mem_singleton_self _) rfl
  have hnew : n.id ∉ a.nodes.keys := hfresh n (List.mem_append_right _ (List.mem_singleton_self n))
  rw [keys_run, hids, List.mem_append, List.mem_eraseDups, List.removeAll, List.mem_filter]
  exact fun h => h.elim hnew fun h => hearlier h.1

/-- Declarations of ids that are new and distinct add their nodes as they are. -/
theorem values_run_declare_fresh (a : Assembly) {new : List Node}
    (hnodup : (new.map Node.id).Nodup) (hfresh : ∀ n ∈ new, n.id ∉ a.nodes.keys) :
    (a.run (new.map Step.declare)).nodes.values = a.nodes.values ++ new := by
  induction new using List.reverseRecOn with
  | nil => simp
  | append_singleton new n ih =>
      have hn := notMem_keys_run_declare hnodup hfresh
      have hrest := ih (by rw [List.map_append] at hnodup; exact hnodup.of_append_left)
        fun m hm => hfresh m (List.mem_append_left _ hm)
      rw [List.map_append, run_append, List.map_singleton, run_cons, run_nil, apply, declare,
        if_neg (mt OrderedMap.contains_iff.mp hn), OrderedMap.values_insertNew, if_neg hn, hrest,
        List.append_assoc]

/-- Such declarations are no additions to nodes that are there. -/
theorem events_declare_fresh (a : Assembly) {new : List Node}
    (hnodup : (new.map Node.id).Nodup) (hfresh : ∀ n ∈ new, n.id ∉ a.nodes.keys) :
    a.events (new.map Step.declare) = [] := by
  induction new using List.reverseRecOn with
  | nil => rfl
  | append_singleton new n ih =>
      have hn := notMem_keys_run_declare hnodup hfresh
      have hrest := ih (by rw [List.map_append] at hnodup; exact hnodup.of_append_left)
        fun m hm => hfresh m (List.mem_append_left _ hm)
      rw [List.map_append, events_append, hrest, List.map_singleton, events, event?,
        if_neg (mt OrderedMap.contains_iff.mp hn)]
      rfl

theorem edges_run_synthesize (a : Assembly) (kind : NodeKind) (ids : List String) :
    (a.run (ids.map fun id => .synthesize id kind)).edges = a.edges := by
  induction ids generalizing a with
  | nil => rfl
  | cons id ids ih => exact ih (a.synthesize id kind).2

theorem filterMap_nodeId?_closing (a : Assembly) (kind : NodeKind) :
    (a.closing kind).filterMap Step.nodeId? = a.endpoints := by
  simp [closing, Step.nodeId?, List.filterMap_map, Function.comp_def]

/-- Closing leaves what there is as it is. It appends one node for each missing endpoint, in the
order in which the edges first mention them. -/
theorem values_close (a : Assembly) (kind : NodeKind) :
    (a.close kind).nodes.values =
      a.nodes.values ++
        (a.endpoints.removeAll a.nodes.keys).eraseDups.map fun id => Node.unlabeled id kind := by
  have hreferences : ∀ step ∈ a.closing kind, step.IsReference kind := by
    intro step hstep
    obtain ⟨id, _, rfl⟩ := List.mem_map.mp hstep
    rfl
  rw [close, a.values_run_references hreferences, filterMap_nodeId?_closing]

@[simp] theorem edges_close (a : Assembly) (kind : NodeKind) :
    (a.close kind).edges = a.edges :=
  a.edges_run_synthesize kind a.endpoints

theorem mem_keys_close {a : Assembly} {kind : NodeKind} {id : String} (h : id ∈ a.endpoints) :
    id ∈ (a.close kind).nodes.keys := by
  rw [close, keys_run, filterMap_nodeId?_closing, List.mem_append, List.mem_eraseDups,
    List.removeAll, List.mem_filter]
  by_cases hknown : id ∈ a.nodes.keys <;> simp [hknown, h]

/-- The graph of a closed assembly is well formed. -/
theorem Coherent.wellFormed_close {a : Assembly} (h : a.Coherent) (kind : NodeKind) :
    (a.close kind).toGraph.WellFormed := by
  have hclosed : (a.close kind).Coherent := h.run _
  have hids : (a.close kind).toGraph.nodes.map Node.id = (a.close kind).nodes.keys :=
    hclosed.ids_values
  have hends : ∀ e ∈ (a.close kind).toGraph.edges, ∀ id ∈ [e.source, e.target],
      id ∈ (a.close kind).nodes.keys := by
    intro e he id hid
    have he' : e ∈ a.edges := by simpa [toGraph] using he
    exact mem_keys_close (List.mem_flatMap.mpr ⟨e, he', hid⟩)
  refine ⟨?_, ?_, ?_⟩
  · rw [hids]
    exact hclosed.keys_nodup
  · intro e he
    rw [hids]
    exact hends e he e.source (by simp)
  · intro e he
    rw [hids]
    exact hends e he e.target (by simp)

end Assembly

end TextDiagram
