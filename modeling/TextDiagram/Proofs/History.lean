import TextDiagram.Proofs.Coherence

/-!
# What a run keeps

Steps only add. Whatever they are and in whatever order they come, nodes and edges keep their
places, an edge keeps its ends and its kind, and a declared node keeps its kind and its members.
Only a node that stands for a reference is ever replaced, once, by the declaration of its id.
-/

namespace TextDiagram

/-- What a declaration makes of a node that it does not replace. -/
def Node.augment (n new : Node) : Node :=
  { n with
    label := if new.label = new.id then n.label else new.label
    attributes := n.attributes ++ new.attributes
    methods := n.methods ++ new.methods
    stereotype := new.stereotype.or n.stereotype }

theorem Node.redeclare_of_declared {n : Node} (h : n.kind.isImplicit = false) (new : Node) :
    n.redeclare new = n.augment new := by
  rw [redeclare, h]
  rfl

/-- What steps can make of a node. If it stands for a reference, a declaration may take its place.
If it is declared, it keeps its kind and gets members only behind those that it has. -/
structure Node.GrowsTo (n m : Node) : Prop where
  id : m.id = n.id
  kind : m.kind = n.kind ∨ n.kind.isImplicit = true ∧ m.kind.isImplicit = false
  members : n.kind.isImplicit = false → n.attributes <+: m.attributes ∧ n.methods <+: m.methods

namespace Node.GrowsTo

theorem refl (n : Node) : n.GrowsTo n :=
  ⟨rfl, .inl rfl, fun _ => ⟨List.prefix_rfl, List.prefix_rfl⟩⟩

theorem kind_eq {n m : Node} (h : n.GrowsTo m) (hn : n.kind.isImplicit = false) :
    m.kind = n.kind := by
  refine h.kind.resolve_right ?_
  rintro ⟨himplicit, -⟩
  exact Bool.false_ne_true (hn.symm.trans himplicit)

theorem trans {n m o : Node} (hnm : n.GrowsTo m) (hmo : m.GrowsTo o) : n.GrowsTo o where
  id := hmo.id.trans hnm.id
  kind := by
    rcases hnm.kind with hkind | ⟨hn, hm⟩
    · rw [← hkind]
      exact hmo.kind
    · refine .inr ⟨hn, ?_⟩
      rw [hmo.kind_eq hm]
      exact hm
  members := by
    intro hn
    obtain ⟨hattributes, hmethods⟩ := hnm.members hn
    obtain ⟨hattributes', hmethods'⟩ := hmo.members (by rw [hnm.kind_eq hn, hn])
    exact ⟨hattributes.trans hattributes', hmethods.trans hmethods'⟩

theorem augment (n new : Node) : n.GrowsTo (n.augment new) :=
  ⟨rfl, .inl rfl, fun _ => ⟨List.prefix_append .., List.prefix_append ..⟩⟩

theorem redeclare {old new : Node} (hid : new.id = old.id) : old.GrowsTo (old.redeclare new) := by
  by_cases hreplaced : old.kind.isImplicit = true ∧ new.kind.isImplicit = false
  · obtain ⟨hold, hnew⟩ := hreplaced
    have hresult : old.redeclare new = new := by simp [Node.redeclare, hold, hnew]
    rw [hresult]
    refine ⟨hid, .inr ⟨hold, hnew⟩, fun hdeclared => ?_⟩
    exact absurd (hdeclared.symm.trans hold) Bool.false_ne_true
  · have hresult : old.redeclare new = old.augment new := if_neg (by simpa using hreplaced)
    rw [hresult]
    exact .augment old new

theorem setStereotype (n : Node) (text : String) : n.GrowsTo (n.setStereotype text) :=
  ⟨rfl, .inl rfl, fun _ => ⟨List.prefix_rfl, List.prefix_rfl⟩⟩

end Node.GrowsTo

namespace Step

/-- No step takes a node away. -/
theorem exists_onNode_growsTo {id : String} {n : Node} (step : Step) (hid : n.id = id) :
    ∃ m, step.onNode id (some n) = some m ∧ n.GrowsTo m := by
  cases step with
  | declare new =>
      by_cases hnew : new.id = id
      · exact ⟨n.redeclare new, by simp [onNode, hnew], .redeclare (hnew.trans hid.symm)⟩
      · exact ⟨n, by simp [onNode, hnew], .refl n⟩
  | synthesize i kind => exact ⟨n, by simp [onNode], .refl n⟩
  | connect e => exact ⟨n, rfl, .refl n⟩
  | label source target text kind => exact ⟨n, rfl, .refl n⟩
  | stereotype i text =>
      by_cases hclass : i = id ∧ n.kind = .classifier
      · exact ⟨n.setStereotype text, by simp [onNode, hclass], .setStereotype n text⟩
      · refine ⟨n, ?_, .refl n⟩
        by_cases hi : i = id
        · have hkind : n.kind ≠ .classifier := fun hkind => hclass ⟨hi, hkind⟩
          simp [onNode, hi, hkind]
        · simp [onNode, hi]

/-- Edges are only added, and changed only in their labels. -/
theorem onEdges_prefix (step : Step) (edges : List Edge) :
    edges.map (fun e => (e.ends, e.kind)) <+:
      (step.onEdges edges).map fun e => (e.ends, e.kind) := by
  have hconcat : ∀ new : Edge, edges.map (fun e => (e.ends, e.kind)) <+:
      (edges ++ [new]).map fun e => (e.ends, e.kind) := by
    intro new
    rw [List.map_append]
    exact List.prefix_append ..
  cases step with
  | connect new => exact hconcat new
  | label source target text kind =>
      simp only [onEdges]
      split
      · exact (map_ends_kind_modify ..).symm ▸ List.prefix_rfl
      · exact hconcat _
  | declare _ | synthesize _ _ | stereotype _ _ => exact List.prefix_rfl

def isConnect : Step → Bool
  | connect _ => true
  | _ => false

end Step

namespace Assembly

/-- A later state has every node and every edge in the place where it was. -/
structure GrowsTo (a b : Assembly) : Prop where
  nodes : ∀ (i : Nat) (n : Node), a.nodes.values[i]? = some n →
    ∃ m, b.nodes.values[i]? = some m ∧ n.GrowsTo m
  edges : a.edges.map (fun e => (e.ends, e.kind)) <+: b.edges.map fun e => (e.ends, e.kind)

variable {a b c : Assembly}

theorem GrowsTo.refl (a : Assembly) : a.GrowsTo a :=
  ⟨fun _ n hn => ⟨n, hn, .refl n⟩, List.prefix_rfl⟩

theorem GrowsTo.trans (hab : a.GrowsTo b) (hbc : b.GrowsTo c) : a.GrowsTo c where
  nodes := by
    intro i n hn
    obtain ⟨m, hm, hnm⟩ := hab.nodes i n hn
    obtain ⟨o, ho, hmo⟩ := hbc.nodes i m hm
    exact ⟨o, ho, hnm.trans hmo⟩
  edges := hab.edges.trans hbc.edges

theorem Coherent.getElem?_values_iff (h : a.Coherent) {i : Nat} {n : Node} :
    a.nodes.values[i]? = some n ↔ a.nodes.keys[i]? = some n.id ∧ a.nodes.get? n.id = some n := by
  simp only [OrderedMap.values, OrderedMap.keys, List.getElem?_map, Option.map_eq_some_iff]
  constructor
  · rintro ⟨e, he, rfl⟩
    have hget := OrderedMap.get?_of_mem h.keys_nodup (List.mem_of_getElem? he)
    have hid : e.2.id = e.1 := h.node_id e.1 e.2 hget
    rw [hid]
    exact ⟨⟨e, he, rfl⟩, hget⟩
  · rintro ⟨⟨e, he, hid⟩, hget⟩
    refine ⟨e, he, ?_⟩
    rw [← hid, OrderedMap.get?_of_mem h.keys_nodup (List.mem_of_getElem? he)] at hget
    exact Option.some.inj hget

theorem Coherent.growsTo_apply (h : a.Coherent) (step : Step) : a.GrowsTo (a.apply step) where
  nodes := by
    intro i n hn
    obtain ⟨hkey, hget⟩ := h.getElem?_values_iff.mp hn
    obtain ⟨m, hm, hgrows⟩ := step.exists_onNode_growsTo (n := n) rfl
    refine ⟨m, (h.apply step).getElem?_values_iff.mpr ⟨?_, ?_⟩, hgrows⟩
    · obtain ⟨hi, -⟩ := List.getElem?_eq_some_iff.mp hkey
      rw [keys_apply, List.getElem?_append_left hi, hgrows.id, hkey]
    · rw [hgrows.id, get?_apply, hget, hm]
  edges := by
    rw [edges_apply h]
    exact step.onEdges_prefix a.edges

theorem Coherent.growsTo_run (h : a.Coherent) (steps : List Step) : a.GrowsTo (a.run steps) := by
  induction steps generalizing a with
  | nil => exact .refl a
  | cons step steps ih => exact (h.growsTo_apply step).trans (ih (h.apply step))

/-! ### The kinds of a node in the course of a run -/

def kindAt? (a : Assembly) (i : Nat) : Option NodeKind :=
  (a.nodes.values[i]?).map Node.kind

/-- The kinds that the node at a place has in the states of a run, from the first one on in which
there is a node at that place. -/
def kindsOver (i : Nat) (a : Assembly) : List Step → List NodeKind
  | [] => (a.kindAt? i).toList
  | step :: steps => (a.kindAt? i).toList ++ (a.apply step).kindsOver i steps

/-- The kinds are all the same, or the kind of a reference gives way to that of a declaration. -/
def ChangeOnce (kinds : List NodeKind) : Prop :=
  ∃ m n k l, kinds = List.replicate m k ++ List.replicate n l ∧
    (n = 0 ∨ k.isImplicit = true ∧ l.isImplicit = false)

theorem kindsOver_of_kindAt? (h : a.Coherent) {i : Nat} {k : NodeKind}
    (hk : a.kindAt? i = some k) (steps : List Step) :
    ∃ m n l, a.kindsOver i steps = List.replicate (m + 1) k ++ List.replicate n l ∧
      (n = 0 ∨ k.isImplicit = true ∧ l.isImplicit = false) := by
  induction steps generalizing a k with
  | nil => exact ⟨0, 0, k, by simp [kindsOver, hk], .inl rfl⟩
  | cons step steps ih =>
      obtain ⟨node, hnode, rfl⟩ := Option.map_eq_some_iff.mp hk
      obtain ⟨next, hnext, hgrows⟩ := (h.growsTo_apply step).nodes i node hnode
      have hkind : (a.apply step).kindAt? i = some next.kind := by rw [kindAt?, hnext]; rfl
      obtain ⟨m, n, l, hrest, hlast⟩ := ih (h.apply step) hkind
      rw [kindsOver, hk, hrest]
      rcases hgrows.kind with hsame | ⟨hold, hnew⟩
      · rw [hsame] at hlast ⊢
        exact ⟨m + 1, n, l, rfl, hlast⟩
      · have hsettled : n = 0 := by simpa [hnew] using hlast
        subst hsettled
        exact ⟨0, m + 1, next.kind, by simp, .inr ⟨hold, hnew⟩⟩

theorem changeOnce_kindsOver (h : a.Coherent) (i : Nat) (steps : List Step) :
    ChangeOnce (a.kindsOver i steps) := by
  induction steps generalizing a with
  | nil =>
      cases hk : a.kindAt? i with
      | none => exact ⟨0, 0, .implicit, .implicit, by simp [kindsOver, hk], .inl rfl⟩
      | some k =>
          obtain ⟨m, n, l, hkinds⟩ := kindsOver_of_kindAt? h hk []
          exact ⟨m + 1, n, k, l, hkinds⟩
  | cons step steps ih =>
      cases hk : a.kindAt? i with
      | none =>
          have hlater : a.kindsOver i (step :: steps) = (a.apply step).kindsOver i steps := by
            rw [kindsOver, hk]
            rfl
          rw [hlater]
          exact ih (h.apply step)
      | some k =>
          obtain ⟨m, n, l, hkinds⟩ := kindsOver_of_kindAt? h hk (step :: steps)
          exact ⟨m + 1, n, k, l, hkinds⟩

/-! ### The number of edges -/

/-- What a label is answered: whether there was an edge for it. -/
def answer? (a : Assembly) : Step → Option Bool
  | .label source target text kind => some (a.label source target text kind).1
  | _ => none

def answers (a : Assembly) : List Step → List Bool
  | [] => []
  | step :: steps => (a.answer? step).toList ++ (a.apply step).answers steps

theorem length_edges_apply_eq (a : Assembly) (step : Step) :
    (a.apply step).edges.length =
      a.edges.length + ([step].countP Step.isConnect + (a.answer? step).toList.count false) := by
  cases step with
  | declare n => simp [apply, answer?, Step.isConnect]
  | synthesize id kind => simp [apply, synthesize, answer?, Step.isConnect]
  | connect e => simp [apply, answer?, Step.isConnect]
  | label source target text kind =>
      rw [apply, answer?, label]
      cases a.firstEdge.get? (source, target) <;> simp [Step.isConnect]
  | stereotype id text => simp [apply, answer?, Step.isConnect]

/-- Each edge comes from a connection or from a label that found no edge. -/
theorem length_edges_run_eq (a : Assembly) (steps : List Step) :
    (a.run steps).edges.length =
      a.edges.length + (steps.countP Step.isConnect + (a.answers steps).count false) := by
  induction steps generalizing a with
  | nil => rfl
  | cons step steps ih =>
      have hstep := a.length_edges_apply_eq step
      have hcount : (step :: steps).countP Step.isConnect =
          [step].countP Step.isConnect + steps.countP Step.isConnect := by
        rw [← List.singleton_append, List.countP_append]
      rw [run_cons, ih, hstep, answers, List.count_append, hcount]
      omega

/-- Whatever steps are run on a new assembly, the nodes and edges of each state are still there in
every later one, the kind of a node changes at most once, the edges can be counted by the steps, and
closing adds only the nodes that are missing. -/
theorem run_preserves_history (steps later : List Step) :
    (empty.run steps).GrowsTo (empty.run (steps ++ later)) ∧
      (∀ i, ChangeOnce (empty.kindsOver i steps)) ∧
      (empty.run steps).edges.length =
        steps.countP Step.isConnect + (empty.answers steps).count false ∧
      ∀ kind, ((empty.run steps).close kind).edges = (empty.run steps).edges ∧
        ((empty.run steps).close kind).nodes.values =
          (empty.run steps).nodes.values ++
            ((empty.run steps).endpoints.removeAll
              ((empty.run steps).nodes.values.map Node.id)).eraseDups.map fun id =>
                Node.unlabeled id kind := by
  have hcoherent := coherent_run_empty steps
  refine ⟨?_, fun i => changeOnce_kindsOver coherent_empty i steps, ?_,
    fun kind => ⟨edges_close .., ?_⟩⟩
  · rw [run_append]
    exact hcoherent.growsTo_run later
  · have hnone : empty.edges.length = 0 := rfl
    rw [length_edges_run_eq, hnone, Nat.zero_add]
  · rw [values_close, hcoherent.ids_values]

end Assembly

end TextDiagram
