import Mathlib.Order.Bounds.Defs
import TextDiagram.Proofs.Coherence

/-!
# The indexes of an assembly

An assembly looks up a node by its id and the first edge between two nodes by their ids, and when it
labels an edge it does not check the place that it looked up. Here the operations are calls that
fail at a place outside the list of edges, and nodes may be changed behind a reference. No run of
calls on a new assembly fails, and after each of them both indexes agree with the nodes and edges.
-/

namespace TextDiagram

/-- The first place where a predicate holds is the least of the places where it holds. -/
theorem findIdx?_eq_some_iff_isLeast {α : Type} {p : α → Bool} {xs : List α} {i : Nat} :
    xs.findIdx? p = some i ↔ IsLeast {j | ∃ x, xs[j]? = some x ∧ p x = true} i := by
  rw [List.findIdx?_eq_some_iff_getElem]
  constructor
  · rintro ⟨hi, hp, hbefore⟩
    refine ⟨⟨xs[i], List.getElem?_eq_getElem hi, hp⟩, ?_⟩
    rintro j ⟨x, hx, hpx⟩
    obtain ⟨hj, rfl⟩ := List.getElem?_eq_some_iff.mp hx
    exact Nat.le_of_not_lt fun hji => hbefore j hji hpx
  · rintro ⟨⟨x, hx, hpx⟩, hleast⟩
    obtain ⟨hi, rfl⟩ := List.getElem?_eq_some_iff.mp hx
    refine ⟨hi, hpx, fun j hji hpj => ?_⟩
    have hj : j < xs.length := Nat.lt_trans hji hi
    exact Nat.not_le_of_lt hji (hleast ⟨xs[j], List.getElem?_eq_getElem hj, hpj⟩)

/-- What can be changed of a node that stands in an assembly. The id is not among it. -/
inductive Node.Change where
  | label (text : String)
  | stereotype (text : String)
  | attribute (member : Member)
  | method (member : Member)

def Node.change (n : Node) : Change → Node
  | .label text => n.setLabel text
  | .stereotype text => n.setStereotype text
  | .attribute member => n.addAttribute member
  | .method member => n.addMethod member

theorem Node.change_id (n : Node) (c : Change) : (n.change c).id = n.id := by
  cases c <;> rfl

namespace Assembly

/-! ### Calls -/

def change (a : Assembly) (id : String) (c : Node.Change) : Assembly :=
  { a with nodes := a.nodes.modify id fun n => n.change c }

/-- A call reads and replaces the assembly, and has no result if it reaches for an edge that is not
there. -/
abbrev Call (α : Type) :=
  StateT Assembly Option α

/-- `label` as a call. The place that is kept for the two nodes is used without a check, so the call
fails if it lies outside the list of edges. -/
def labelEdge (source target text : String) (kind : EdgeKind) : Call Bool := do
  let a ← get
  guard (∀ i ∈ a.firstEdge.get? (source, target), i < a.edges.length)
  modifyGet fun a => a.label source target text kind

/-- A place outside the list is not made up for. -/
example : (labelEdge "A" "B" "yes" .solid).run ⟨.empty, [], ⟨[(("A", "B"), 0)]⟩⟩ = none := rfl

/-- What `label` does if it searches through the edges in place of the index. -/
def labelFirstMatch (a : Assembly) (source target text : String) (kind : EdgeKind) :
    Bool × Assembly :=
  match a.edges.findIdx? fun e => e.connects source target with
  | some i => (true, { a with edges := a.edges.modify i fun e => e.setLabel text })
  | none => (false, a.connect { source, target, kind, label := some text })

inductive Operation where
  | declare (node : Node)
  | synthesize (id : String) (kind : NodeKind)
  /-- A change behind a reference to the node with the id. -/
  | change (id : String) (change : Node.Change)
  | connect (edge : Edge)
  | label (source target text : String) (kind : EdgeKind)

def Operation.call : Operation → Call Unit
  | .declare node => modify fun a => a.declare node
  | .synthesize id kind => modify fun a => (a.synthesize id kind).2
  | .change id c => modify fun a => a.change id c
  | .connect edge => modify fun a => a.connect edge
  | .label source target text kind => (fun _ => ()) <$> labelEdge source target text kind

/-! ### What the indexes say -/

def placesBetween (a : Assembly) (source target : String) : Set Nat :=
  {i | ∃ e, a.edges[i]? = some e ∧ e.connects source target = true}

/-- Every node stands at its own id. A place is kept for two nodes exactly if an edge joins them,
and it is the least place of such an edge. -/
structure IndexesAgree (a : Assembly) : Prop where
  keys_nodup : a.nodes.keys.Nodup
  node_id : ∀ entry ∈ a.nodes.entries, entry.2.id = entry.1
  mem_keys_iff : ∀ source target,
    (source, target) ∈ a.firstEdge.keys ↔ ∃ e ∈ a.edges, e.connects source target = true
  get?_eq_some_iff : ∀ source target i,
    a.firstEdge.get? (source, target) = some i ↔ IsLeast (a.placesBetween source target) i
  place_lt : ∀ source target i, a.firstEdge.get? (source, target) = some i → i < a.edges.length

variable {a : Assembly}

theorem Coherent.get?_firstEdge (h : a.Coherent) (source target : String) :
    a.firstEdge.get? (source, target) = a.edges.findIdx? fun e => e.connects source target := by
  have hends : (fun e : Edge => decide (e.ends = (source, target))) =
      fun e => e.connects source target :=
    funext fun e => by rw [Bool.eq_iff_iff, decide_eq_true_iff, Edge.connects_iff]
  rw [h.firstEdge_eq, hends]

theorem Coherent.indexesAgree (h : a.Coherent) : a.IndexesAgree where
  keys_nodup := h.keys_nodup
  node_id := by
    intro entry hentry
    exact h.node_id entry.1 entry.2 (OrderedMap.get?_of_mem h.keys_nodup hentry)
  mem_keys_iff := by
    intro source target
    rw [← OrderedMap.get?_isSome_iff, h.get?_firstEdge, List.findIdx?_isSome, List.any_eq_true]
  get?_eq_some_iff := by
    intro source target i
    rw [h.get?_firstEdge]
    exact findIdx?_eq_some_iff_isLeast
  place_lt := by
    intro source target i hi
    rw [h.get?_firstEdge] at hi
    exact (List.findIdx?_eq_some_iff_getElem.mp hi).1

/-- The place that is kept for two nodes is the one that a search finds. -/
theorem Coherent.label_eq (h : a.Coherent) (source target text : String) (kind : EdgeKind) :
    a.label source target text kind = a.labelFirstMatch source target text kind := by
  have hplace := h.get?_firstEdge source target
  cases hfind : a.edges.findIdx? fun e => e.connects source target <;>
    simp [labelFirstMatch, label, hplace, hfind]

/-- The place that is kept for two nodes is never out of reach. -/
theorem Coherent.run_labelEdge (h : a.Coherent) (source target text : String) (kind : EdgeKind) :
    (labelEdge source target text kind).run a = some (a.label source target text kind) := by
  have hreach : ∀ i ∈ a.firstEdge.get? (source, target), i < a.edges.length :=
    h.indexesAgree.place_lt source target
  rw [labelEdge, StateT.run_bind, StateT.run_get, pure_bind, guard, if_pos hreach]
  rfl

/-! ### Runs of calls -/

theorem Coherent.change (h : a.Coherent) (id : String) (c : Node.Change) :
    (a.change id c).Coherent where
  keys_nodup := by
    rw [Assembly.change, OrderedMap.keys_modify]
    exact h.keys_nodup
  node_id := by
    intro i n hn
    rw [Assembly.change, OrderedMap.get?_modify] at hn
    split at hn
    · obtain ⟨m, hm, rfl⟩ := Option.map_eq_some_iff.mp hn
      rw [Node.change_id]
      exact h.node_id i m hm
    · exact h.node_id i n hn
  firstEdge_eq := h.firstEdge_eq

theorem Coherent.exists_run_call (h : a.Coherent) (op : Operation) :
    ∃ b, op.call.run a = some ((), b) ∧ b.Coherent := by
  cases op with
  | declare node => exact ⟨_, rfl, h.apply (.declare node)⟩
  | synthesize id kind => exact ⟨_, rfl, h.apply (.synthesize id kind)⟩
  | change id c => exact ⟨_, rfl, h.change id c⟩
  | connect edge => exact ⟨_, rfl, h.apply (.connect edge)⟩
  | label source target text kind =>
      refine ⟨_, ?_, h.apply (.label source target text kind)⟩
      rw [Operation.call, StateT.run_map, h.run_labelEdge]
      rfl

theorem Coherent.exists_run_calls (h : a.Coherent) (ops : List Operation) :
    ∃ b, (ops.forM Operation.call).run a = some ((), b) ∧ b.Coherent := by
  induction ops generalizing a with
  | nil => exact ⟨a, rfl, h⟩
  | cons op ops ih =>
      obtain ⟨b, hcall, hb⟩ := h.exists_run_call op
      obtain ⟨c, hcalls, hc⟩ := ih hb
      refine ⟨c, ?_, hc⟩
      rw [List.forM_eq_forM, List.forM_cons, StateT.run_bind, hcall]
      exact hcalls

/-- Whatever operations are called on a new assembly, one after the other, all calls succeed, and the
indexes agree with the nodes and edges. So the edge that is labeled without a search is the one that
a search for the first edge between the two nodes finds. -/
theorem calls_keep_indexes (ops : List Operation) :
    ∃ a, (ops.forM Operation.call).run empty = some ((), a) ∧ a.IndexesAgree ∧
      ∀ source target text kind,
        (labelEdge source target text kind).run a =
            some (a.labelFirstMatch source target text kind) ∧
          a.label source target text kind = a.labelFirstMatch source target text kind := by
  obtain ⟨a, hrun, ha⟩ := coherent_empty.exists_run_calls ops
  refine ⟨a, hrun, ha.indexesAgree, fun source target text kind => ⟨?_, ?_⟩⟩
  · rw [ha.run_labelEdge, ha.label_eq]
  · exact ha.label_eq source target text kind

end Assembly

end TextDiagram
