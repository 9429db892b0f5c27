import TextDiagram.Proofs.Coherence
import TextDiagram.Parser

/-!
# Typed assemblies

The kind of a node decides which of its other parts may be filled, and a dialect decides which kinds
there are. A step that keeps to this in what it adds also keeps to it in what it changes, since the
only nodes of a dialect that are declared again with members are classes. So an assembly is typed
whenever its steps are, and closing it adds nothing else.
-/

namespace TextDiagram

namespace NodeKind

/-- How many roles a node of the kind belongs to. -/
def roleCount : NodeKind → Nat
  | noteOver => 1
  | noteBetween => 2
  | _ => 0

def isNote : NodeKind → Bool
  | noteOver | noteBetween => true
  | _ => false

end NodeKind

namespace Dialect

def nodeKinds : Dialect → List NodeKind
  | flow => [.node, .implicit]
  | sequence => [.participant, .actor, .implicitParticipant, .noteOver, .noteBetween]
  | classes => [.classifier, .implicit]

def edgeKinds : Dialect → List EdgeKind
  | flow => [.solid, .dashed, .thick]
  | sequence => [.sync, .async, .lost]
  | classes =>
    [.inheritance, .composition, .aggregation, .dependency, .association, .dotted, .realization]

end Dialect

/-- An id is not empty and stands on one line. -/
structure IsId (id : String) : Prop where
  ne_empty : id ≠ ""
  notMem : '\n' ∉ id.toList

/-- What the kind of a node says about its other parts. -/
structure Node.Typed (n : Node) : Prop where
  id : IsId n.id
  members : n.kind ≠ .classifier → n.attributes = [] ∧ n.methods = [] ∧ n.stereotype = none
  participants : n.participants.length = n.kind.roleCount
  label : n.kind.isImplicit = true → n.label = n.id

/-- The graph has only kinds of the dialect, all its nodes are typed, and no edge ends at a note. -/
structure Graph.Typed (d : Dialect) (g : Graph) : Prop where
  nodes : ∀ n ∈ g.nodes, n.kind ∈ d.nodeKinds ∧ n.Typed
  edges : ∀ e ∈ g.edges, e.kind ∈ d.edgeKinds
  ends : ∀ e ∈ g.edges, ∀ n ∈ g.nodes, n.kind.isNote = true → e.source ≠ n.id ∧ e.target ≠ n.id

/-! ### What a dialect allows -/

namespace Dialect

structure AllowsNode (d : Dialect) (n : Node) : Prop where
  kind : n.kind ∈ d.nodeKinds
  typed : n.Typed

structure AllowsEdge (d : Dialect) (e : Edge) : Prop where
  kind : e.kind ∈ d.edgeKinds
  source : IsId e.source
  target : IsId e.target

def AllowsStep (d : Dialect) : Step → Prop
  | .declare n => n.kind.isImplicit = false ∧ d.AllowsNode n
  | .synthesize id kind => kind = d.implicitKind ∧ IsId id
  | .connect e => d.AllowsEdge e
  | .label source target text kind => d.AllowsEdge { source, target, kind, label := some text }
  | .stereotype .. => True

variable {d : Dialect}

/-- All declared nodes of a dialect that has classes are classes. -/
theorem eq_classifier_of_mem {k : NodeKind} (hclass : .classifier ∈ d.nodeKinds)
    (hk : k ∈ d.nodeKinds) (hdeclared : k.isImplicit = false) : k = .classifier := by
  cases d with
  | flow => exact absurd hclass (by decide)
  | sequence => exact absurd hclass (by decide)
  | classes =>
      rcases List.mem_pair.mp hk with rfl | rfl
      · rfl
      · exact absurd hdeclared (by decide)

theorem implicitKind_mem (d : Dialect) : d.implicitKind ∈ d.nodeKinds := by
  cases d <;> decide

theorem allowsNode_unlabeled {id : String} (hid : IsId id) :
    d.AllowsNode (.unlabeled id d.implicitKind) where
  kind := d.implicitKind_mem
  typed := ⟨hid, fun _ => ⟨rfl, rfl, rfl⟩, by cases d <;> rfl, fun _ => rfl⟩

/-- A declared node may have any label. -/
theorem allowsStep_declare {n : Node} (hkind : n.kind ∈ d.nodeKinds)
    (hdeclared : n.kind.isImplicit = false) (hid : IsId n.id)
    (hmembers : n.kind ≠ .classifier → n.attributes = [] ∧ n.methods = [] ∧ n.stereotype = none)
    (hparticipants : n.participants.length = n.kind.roleCount) : d.AllowsStep (.declare n) := by
  refine ⟨hdeclared, hkind, hid, hmembers, hparticipants, ?_⟩
  intro himplicit
  exact absurd (hdeclared.symm.trans himplicit) Bool.false_ne_true

/-- An implicit node gives way to the new one, any other only takes over its members. -/
theorem AllowsNode.redeclare {old new : Node} (hold : d.AllowsNode old) (hnew : d.AllowsNode new)
    (hdeclared : new.kind.isImplicit = false) : d.AllowsNode (old.redeclare new) := by
  cases himplicit : old.kind.isImplicit with
  | true =>
      have hreplaced : old.redeclare new = new := by simp [Node.redeclare, himplicit, hdeclared]
      rwa [hreplaced]
  | false =>
      simp only [Node.redeclare, himplicit, Bool.false_and, Bool.false_eq_true, if_false]
      refine ⟨hold.kind, hold.typed.id, ?_, hold.typed.participants, ?_⟩
      · intro hkind
        have hother : new.kind ≠ .classifier := by
          intro hclass
          exact hkind (eq_classifier_of_mem (hclass ▸ hnew.kind) hold.kind himplicit)
        obtain ⟨hattributes, hmethods, hstereotype⟩ := hold.typed.members hkind
        obtain ⟨hattributes', hmethods', hstereotype'⟩ := hnew.typed.members hother
        simp [hattributes, hmethods, hstereotype, hattributes', hmethods', hstereotype']
      · intro hkind
        exact absurd (himplicit.symm.trans hkind) Bool.false_ne_true

theorem AllowsNode.setStereotype {n : Node} (hn : d.AllowsNode n) (hclass : n.kind = .classifier)
    (text : String) : d.AllowsNode (n.setStereotype text) where
  kind := hn.kind
  typed := ⟨hn.typed.id, fun hkind => absurd hclass hkind, hn.typed.participants, hn.typed.label⟩

/-! ### Steps and runs -/

theorem AllowsStep.onNode {step : Step} (hstep : d.AllowsStep step) {id : String}
    {node? : Option Node} (h : ∀ n ∈ node?, d.AllowsNode n) :
    ∀ n ∈ step.onNode id node?, d.AllowsNode n := by
  cases step with
  | declare new =>
      obtain ⟨hdeclared, hnew⟩ := hstep
      by_cases hid : new.id = id
      · cases node? with
        | none => simpa [Step.onNode, hid] using hnew
        | some old => simpa [Step.onNode, hid] using (h old rfl).redeclare hnew hdeclared
      · simpa [Step.onNode, hid] using h
  | synthesize i kind =>
      obtain ⟨rfl, hi⟩ := hstep
      by_cases hid : i = id
      · subst hid
        cases node? with
        | none => simpa [Step.onNode] using allowsNode_unlabeled hi
        | some old => simpa [Step.onNode] using h
      · simpa [Step.onNode, hid] using h
  | connect e => exact h
  | label source target text kind => exact h
  | stereotype i text =>
      by_cases hid : i = id
      · cases node? with
        | none => simp [Step.onNode]
        | some old =>
            by_cases hclass : old.kind = .classifier
            · simpa [Step.onNode, hid, hclass] using (h old rfl).setStereotype hclass text
            · simpa [Step.onNode, hid, hclass] using h
      · simpa [Step.onNode, hid] using h

/-- Whether an edge is allowed does not depend on its label. -/
theorem AllowsEdge.of_modify {edges : List Edge} (h : ∀ e ∈ edges, d.AllowsEdge e) (i : Nat)
    (text : String) : ∀ e ∈ edges.modify i fun e => e.setLabel text, d.AllowsEdge e := by
  intro e he
  have hmem := List.mem_map_of_mem (f := fun e : Edge => (e.ends, e.kind)) he
  rw [map_ends_kind_modify] at hmem
  obtain ⟨old, hold, heq⟩ := List.mem_map.mp hmem
  obtain ⟨hends, hkind⟩ := Prod.mk.inj heq
  obtain ⟨hsource, htarget⟩ := Prod.mk.inj hends
  have hallowed := h old hold
  exact ⟨hkind ▸ hallowed.kind, hsource ▸ hallowed.source, htarget ▸ hallowed.target⟩

theorem AllowsStep.onEdges {step : Step} (hstep : d.AllowsStep step) {edges : List Edge}
    (h : ∀ e ∈ edges, d.AllowsEdge e) : ∀ e ∈ step.onEdges edges, d.AllowsEdge e := by
  have hconcat : ∀ new, d.AllowsEdge new → ∀ e ∈ edges ++ [new], d.AllowsEdge e := by
    intro new hnew e he
    rcases List.mem_append.mp he with he | he
    · exact h e he
    · exact List.mem_singleton.mp he ▸ hnew
  cases step with
  | connect new => exact hconcat new hstep
  | label source target text kind =>
      simp only [Step.onEdges]
      split
      · exact AllowsEdge.of_modify h _ text
      · exact hconcat _ hstep
  | declare _ | synthesize _ _ | stereotype _ _ => exact h

end Dialect

namespace Assembly

structure Typed (d : Dialect) (a : Assembly) : Prop where
  coherent : a.Coherent
  nodes : ∀ id, ∀ n ∈ a.nodes.get? id, d.AllowsNode n
  edges : ∀ e ∈ a.edges, d.AllowsEdge e

variable {d : Dialect} {a : Assembly}

theorem typed_empty (d : Dialect) : empty.Typed d := by
  refine ⟨coherent_empty, ?_, ?_⟩ <;> simp [empty]

theorem Typed.apply (h : a.Typed d) {step : Step} (hstep : d.AllowsStep step) :
    (a.apply step).Typed d where
  coherent := h.coherent.apply step
  nodes := by
    intro id
    rw [get?_apply]
    exact hstep.onNode (h.nodes id)
  edges := by
    rw [edges_apply h.coherent]
    exact hstep.onEdges h.edges

theorem Typed.run (h : a.Typed d) {steps : List Step} (hsteps : ∀ step ∈ steps, d.AllowsStep step) :
    (a.run steps).Typed d := by
  induction steps generalizing a with
  | nil => exact h
  | cons step steps ih =>
      obtain ⟨hstep, hrest⟩ := List.forall_mem_cons.mp hsteps
      exact ih (h.apply hstep) hrest

/-- The endpoints of typed edges are ids, so they may have nodes. -/
theorem Typed.close (h : a.Typed d) : (a.close d.implicitKind).Typed d := by
  apply h.run
  intro step hstep
  obtain ⟨id, hid, rfl⟩ := List.mem_map.mp hstep
  obtain ⟨e, he, hid⟩ := List.mem_flatMap.mp hid
  refine ⟨rfl, ?_⟩
  rcases List.mem_pair.mp hid with rfl | rfl
  · exact (h.edges e he).source
  · exact (h.edges e he).target

theorem Typed.allowsNode (h : a.Typed d) {n : Node} (hn : n ∈ a.toGraph.nodes) :
    d.AllowsNode n := by
  obtain ⟨entry, hentry, rfl⟩ := List.mem_map.mp hn
  exact h.nodes entry.1 entry.2 (OrderedMap.get?_of_mem h.coherent.keys_nodup hentry)

end Assembly

end TextDiagram
