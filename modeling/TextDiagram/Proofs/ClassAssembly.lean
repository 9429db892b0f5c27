import Mathlib.Data.List.Basic
import TextDiagram.Proofs.Declarations
import TextDiagram.Proofs.Parse

/-!
# The graph of a class diagram

A class is put together from all that is said about it: its declarations, the members that are added
outside of a body, and the stereotypes that are written beside its name, in a body or on their own.
None of this is lost, and the order of the passes is the only thing that counts.
-/

namespace TextDiagram.Class

def fragments (source : List Char) : List Fragment :=
  (statements source).filterMap (Rule.meaning? rules)

/-- The ids that are declared, and then those that are only given a member. -/
def classIds (fs : List Fragment) : List String :=
  ((declarations fs).map Declaration.id).eraseDups ++
    (((members fs).map Prod.fst).removeAll ((declarations fs).map Declaration.id)).eraseDups

/-- The items in the bodies of a class, and then those outside. -/
def itemsOf (fs : List Fragment) (id : String) : List BodyItem :=
  ((declarations fs).filter fun d => d.id = id).flatMap Declaration.body ++
    ((members fs).filter fun m => m.1 = id).map Prod.snd

def classOf (fs : List Fragment) (id : String) : Node where
  id
  label := shownLabel id (((declarations fs).filter fun d => d.id = id).filterMap Declaration.label)
  kind := .classifier
  attributes := (itemsOf fs id).filterMap BodyItem.field?
  methods := (itemsOf fs id).filterMap BodyItem.method?
  stereotype := (((stereotypes fs).filter fun s => s.1 = id).map Prod.snd).getLast?

/-- The graph that the fragments describe: one edge for each relation, one node for each class, and
one for each end of a relation that is no class. -/
structure Reads (fs : List Fragment) (g : Graph) : Prop where
  edges : g.edges = (relations fs).map fun r =>
    { source := if r.operator.swap then r.right else r.left
      target := if r.operator.swap then r.left else r.right
      kind := r.operator.kind
      label := r.label }
  nodes : g.nodes = (classIds fs).map (classOf fs) ++
    ((g.edges.flatMap fun e => [e.source, e.target]).removeAll (classIds fs)).eraseDups.map
      fun id => Node.unlabeled id .implicit

/-! ### Members outside of a body -/

/-- A member outside of a body as a declaration of its class. -/
def memberDeclaration (m : String × BodyItem) : Declaration :=
  { id := m.1, label := none, stereotype := none, body := [m.2] }

def allDeclarations (fs : List Fragment) : List Declaration :=
  declarations fs ++ (members fs).map memberDeclaration

theorem steps_eq (fs : List Fragment) :
    steps fs = ((declarations fs).map Declaration.node).map Step.declare ++
      ((relations fs).map Relation.edge).map Step.connect ++
      (((members fs).map memberDeclaration).map Declaration.node).map Step.declare ++
      (stereotypes fs).map fun s => Step.stereotype s.1 s.2 := by
  simp only [steps, List.map_map]
  rfl

theorem mem_classIds_iff (fs : List Fragment) (id : String) :
    id ∈ classIds fs ↔ id ∈ (allDeclarations fs).map Declaration.id := by
  have hmembers : ((members fs).map memberDeclaration).map Declaration.id =
      (members fs).map Prod.fst := by
    rw [List.map_map]
    rfl
  rw [classIds, ← List.eraseDups_append, List.mem_eraseDups, allDeclarations, List.map_append,
    hmembers]

theorem filterMap_label_filter (fs : List Fragment) (id : String) :
    ((allDeclarations fs).filter fun d => d.id = id).filterMap Declaration.label =
      ((declarations fs).filter fun d => d.id = id).filterMap Declaration.label := by
  have hnone : (((members fs).map memberDeclaration).filter fun d => d.id = id).filterMap
      Declaration.label = [] := by
    rw [List.filterMap_eq_nil_iff]
    intro d hd
    obtain ⟨m, _, rfl⟩ := List.mem_map.mp (List.mem_of_mem_filter hd)
    rfl
  rw [allDeclarations, List.filter_append, List.filterMap_append, hnone, List.append_nil]

theorem flatMap_body_filter (fs : List Fragment) (id : String) :
    ((allDeclarations fs).filter fun d => d.id = id).flatMap Declaration.body = itemsOf fs id := by
  have hmembers : (((members fs).map memberDeclaration).filter fun d => d.id = id).flatMap
      Declaration.body = ((members fs).filter fun m => m.1 = id).map Prod.snd := by
    rw [List.filter_map, List.flatMap_map, List.map_eq_flatMap]
    rfl
  rw [allDeclarations, List.filter_append, List.flatMap_append, hmembers, itemsOf]

/-! ### Single classes -/

theorem joined_node {ds : List Declaration} {id : String} (hids : ∀ d ∈ ds, d.id = id)
    {first : Declaration} (hfirst : first.id = id) :
    first.node.joined (ds.map Declaration.node) =
      { id
        label := shownLabel id (ds.filterMap Declaration.label)
        kind := .classifier
        attributes := (ds.flatMap Declaration.body).filterMap BodyItem.field?
        methods := (ds.flatMap Declaration.body).filterMap BodyItem.method? } := by
  have hlabel : ∀ d ∈ ds, d.node.label = d.label.getD first.node.id := by
    intro d hd
    have hid : first.node.id = d.id := hfirst.trans (hids d hd).symm
    rw [hid]
    rfl
  have hid : first.node.id = id := hfirst
  rw [Node.joined_map hlabel fun _ => rfl, hid, List.filterMap_flatMap, List.filterMap_flatMap]
  rfl

/-- Of the stereotypes for a class the last one counts. -/
theorem foldl_onNode_stereotype {n : Node} (hkind : n.kind = .classifier) (id : String)
    (given : List (String × String)) :
    (given.map fun s => Step.stereotype s.1 s.2).foldl (fun node? step => step.onNode id node?)
        (some n) =
      some { n with
        stereotype := ((given.filter fun s => s.1 = id).map Prod.snd).getLast?.or n.stereotype } := by
  induction given using List.reverseRecOn with
  | nil => simp
  | append_singleton given s ih =>
      rw [List.map_append, List.foldl_append, ih]
      by_cases hid : s.1 = id
      · simp [Step.onNode, hid, hkind, Node.setStereotype]
      · simp [Step.onNode, hid]

theorem keys_run_steps (fs : List Fragment) :
    (Assembly.empty.run (steps fs)).nodes.keys = classIds fs := by
  have hids : (steps fs).filterMap Step.nodeId? =
      (declarations fs).map Declaration.id ++ (members fs).map Prod.fst := by
    rw [steps_eq]
    simp [List.filterMap_map, Function.comp_def, Step.nodeId?, Declaration.node, classNode,
      memberDeclaration]
  rw [Assembly.keys_run_empty, hids, List.eraseDups_append]
  rfl

theorem get?_run_steps_eq (fs : List Fragment) (id : String) :
    (Assembly.empty.run (steps fs)).nodes.get? id =
      ((stereotypes fs).map fun s => Step.stereotype s.1 s.2).foldl
        (fun node? step => step.onNode id node?)
        ((((allDeclarations fs).map Declaration.node).map Step.declare).foldl
          (fun node? step => step.onNode id node?) none) := by
  have hnone : Assembly.empty.nodes.get? id = none := rfl
  rw [Assembly.get?_run, steps_eq, List.foldl_append, List.foldl_append, List.foldl_append,
    Step.foldl_onNode_connect, hnone, allDeclarations, List.map_append, List.map_append,
    List.foldl_append]

theorem get?_run_steps (fs : List Fragment) {id : String} (hid : id ∈ classIds fs) :
    (Assembly.empty.run (steps fs)).nodes.get? id = some (classOf fs id) := by
  have hids : ∀ d ∈ (allDeclarations fs).filter (fun d => d.id = id), d.id = id := by
    intro d hd
    simpa using (List.mem_filter.mp hd).2
  obtain ⟨first, hfirst, hdeclared⟩ := Step.foldl_onNode_declare_of_mem
    Declaration.node Declaration.id (fun _ => rfl) (fun _ => rfl) ((mem_classIds_iff fs id).mp hid)
  have hfirstId : first.id = id := by simpa using List.find?_some hfirst
  rw [get?_run_steps_eq, hdeclared, joined_node hids hfirstId, foldl_onNode_stereotype rfl,
    filterMap_label_filter, flatMap_body_filter, Option.or_none]
  rfl

theorem edges_run_steps (fs : List Fragment) :
    (Assembly.empty.run (steps fs)).edges = (relations fs).map Relation.edge := by
  have hidle : ∀ step ∈ (stereotypes fs).map (fun s => Step.stereotype s.1 s.2), ∀ edges,
      step.onEdges edges = edges := by
    intro step hstep edges
    obtain ⟨s, _, rfl⟩ := List.mem_map.mp hstep
    rfl
  have hnone : Assembly.empty.edges = [] := rfl
  rw [Assembly.edges_run Assembly.coherent_empty, steps_eq, List.foldl_append, List.foldl_append,
    List.foldl_append, Step.foldl_onEdges_of_idle hidle, Step.foldl_onEdges_declare,
    Step.foldl_onEdges_connect, Step.foldl_onEdges_declare, hnone, List.nil_append]

end TextDiagram.Class
