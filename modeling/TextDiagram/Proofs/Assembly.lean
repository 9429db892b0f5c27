import TextDiagram.Assembly.Basic
import TextDiagram.Proofs.OrderedMap

/-!
# Runs of an assembly

A step acts on each node apart from the others, and on the edges apart from the nodes. So a run is
known by the ids in its steps, by what the steps make of each single node, and by what they make of
the edges. A coherent assembly has one node for each id, and remembers the first edge between any
two nodes; every run from the empty assembly is coherent.
-/

namespace TextDiagram

@[simp] theorem Node.unlabeled_id (id : String) (kind : NodeKind) :
    (Node.unlabeled id kind).id = id := rfl

theorem Node.redeclare_id {old new : Node} (h : new.id = old.id) :
    (old.redeclare new).id = old.id := by
  unfold redeclare
  split
  · exact h
  · rfl

namespace Step

/-- What a step makes of the node that has the given id, if there is one. -/
def onNode (id : String) (step : Step) (node? : Option Node) : Option Node :=
  match step with
  | declare new => if new.id = id then some (node?.elim new fun old => old.redeclare new) else node?
  | synthesize i kind => if i = id then some (node?.getD (.unlabeled id kind)) else node?
  | stereotype i text =>
    if i = id then node?.map fun n => if n.kind = .classifier then n.setStereotype text else n
    else node?
  | _ => node?

/-- What a step makes of the edges. -/
def onEdges (step : Step) (edges : List Edge) : List Edge :=
  match step with
  | connect e => edges ++ [e]
  | label source target text kind =>
    match edges.findIdx? fun e => e.ends = (source, target) with
    | some i => edges.modify i fun e => e.setLabel text
    | none => edges ++ [{ source, target, kind, label := some text }]
  | _ => edges

/-- The id that has a node after the step. -/
def nodeId? : Step → Option String
  | declare new => some new.id
  | synthesize id _ => some id
  | _ => none

end Step

namespace Assembly

/-! ### One step -/

@[simp] theorem nodes_connect (a : Assembly) (e : Edge) : (a.connect e).nodes = a.nodes := rfl

@[simp] theorem edges_connect (a : Assembly) (e : Edge) : (a.connect e).edges = a.edges ++ [e] :=
  rfl

theorem answer_synthesize (a : Assembly) (id : String) (kind : NodeKind) :
    (a.synthesize id kind).1 = decide (id ∉ a.nodes.keys) := by
  rw [synthesize, Bool.eq_iff_iff, Bool.not_eq_true', decide_eq_true_iff, Bool.eq_false_iff, Ne,
    OrderedMap.contains_iff]

@[simp] theorem nodes_label (a : Assembly) (source target text : String) (kind : EdgeKind) :
    (a.label source target text kind).2.nodes = a.nodes := by
  unfold label
  split <;> rfl

@[simp] theorem edges_stereotype (a : Assembly) (id text : String) :
    (a.stereotype id text).edges = a.edges := by
  unfold stereotype
  split <;> rfl

@[simp] theorem edges_declare (a : Assembly) (n : Node) : (a.declare n).edges = a.edges := by
  unfold declare
  split <;> rfl

theorem get?_declare (a : Assembly) (n : Node) (id : String) :
    (a.declare n).nodes.get? id = (Step.declare n).onNode id (a.nodes.get? id) := by
  unfold declare
  by_cases hknown : n.id ∈ a.nodes.keys
  · simp only [OrderedMap.contains_iff, hknown, if_true, OrderedMap.get?_modify, Step.onNode]
    by_cases hid : n.id = id
    · obtain ⟨old, hold⟩ := Option.isSome_iff_exists.mp (OrderedMap.get?_isSome_iff.mpr hknown)
      rw [hid] at hold
      simp [hid, hold]
    · simp [hid, Ne.symm hid]
  · simp only [OrderedMap.contains_iff, hknown, if_false, OrderedMap.get?_insertNew, Step.onNode]
    by_cases hid : n.id = id
    · have hnone := OrderedMap.get?_eq_none_iff.mpr hknown
      rw [hid] at hnone
      simp [hid, hnone]
    · simp [hid, Ne.symm hid]

theorem get?_synthesize (a : Assembly) (i id : String) (kind : NodeKind) :
    (a.synthesize i kind).2.nodes.get? id =
      (Step.synthesize i kind).onNode id (a.nodes.get? id) := by
  simp only [synthesize, OrderedMap.get?_insertNew, Step.onNode]
  by_cases hid : i = id
  · cases a.nodes.get? id <;> simp [hid]
  · simp [hid, Ne.symm hid]

theorem get?_stereotype (a : Assembly) (i id text : String) :
    (a.stereotype i text).nodes.get? id =
      (Step.stereotype i text).onNode id (a.nodes.get? id) := by
  unfold stereotype isClass
  by_cases hid : i = id
  · subst hid
    cases hget : a.nodes.get? i with
    | none => simp [Step.onNode, hget]
    | some n =>
        by_cases hkind : n.kind = .classifier <;>
          simp [Step.onNode, OrderedMap.get?_modify, hget, hkind]
  · have hother : (a.nodes.modify i fun n => n.setStereotype text).get? id = a.nodes.get? id := by
      rw [OrderedMap.get?_modify, if_neg (Ne.symm hid)]
    split <;> simp [Step.onNode, hid, hother]

/-- A step acts on every node by itself. -/
theorem get?_apply (a : Assembly) (step : Step) (id : String) :
    (a.apply step).nodes.get? id = step.onNode id (a.nodes.get? id) := by
  cases step with
  | declare n => exact a.get?_declare n id
  | synthesize i kind => exact a.get?_synthesize i id kind
  | connect e => rfl
  | label source target text kind => simp [apply, Step.onNode]
  | stereotype i text => exact a.get?_stereotype i id text

theorem keys_apply (a : Assembly) (step : Step) :
    (a.apply step).nodes.keys =
      a.nodes.keys ++ (step.nodeId?.toList.removeAll a.nodes.keys) := by
  cases step with
  | declare n =>
      by_cases h : n.id ∈ a.nodes.keys <;>
        simp [apply, declare, OrderedMap.contains_iff, OrderedMap.keys_insertNew, Step.nodeId?,
          List.removeAll, h]
  | synthesize i kind =>
      by_cases h : i ∈ a.nodes.keys <;>
        simp [apply, synthesize, OrderedMap.keys_insertNew, Step.nodeId?, List.removeAll, h]
  | connect e => simp [apply, Step.nodeId?]
  | label source target text kind => simp [apply, Step.nodeId?]
  | stereotype i text =>
      simp only [apply, stereotype, Step.nodeId?, Option.toList_none, List.nil_removeAll,
        List.append_nil]
      split <;> simp

/-! ### Runs -/

/-- What a run makes of a node depends on that node alone. -/
theorem get?_run (a : Assembly) (steps : List Step) (id : String) :
    (a.run steps).nodes.get? id =
      steps.foldl (fun node? step => step.onNode id node?) (a.nodes.get? id) := by
  induction steps generalizing a with
  | nil => rfl
  | cons step steps ih => rw [run_cons, ih, get?_apply, List.foldl_cons]

/-- The keys after a run: those before it, and then the new ids in the order of their steps. -/
theorem keys_run (a : Assembly) (steps : List Step) :
    (a.run steps).nodes.keys =
      a.nodes.keys ++ ((steps.filterMap Step.nodeId?).removeAll a.nodes.keys).eraseDups := by
  induction steps generalizing a with
  | nil => simp
  | cons step steps ih =>
      rw [run_cons, ih, keys_apply]
      cases hid : step.nodeId? with
      | none => simp [hid]
      | some id =>
          rw [List.filterMap_cons_some hid, eraseDups_removeAll_cons]
          by_cases hknown : id ∈ a.nodes.keys <;> simp [List.removeAll, hknown]

theorem keys_run_empty (steps : List Step) :
    (empty.run steps).nodes.keys = (steps.filterMap Step.nodeId?).eraseDups := by
  rw [keys_run]
  simp [empty]

end Assembly

end TextDiagram
