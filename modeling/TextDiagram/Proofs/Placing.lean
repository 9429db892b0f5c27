import TextDiagram.Wire.Basic
import TextDiagram.Proofs.Parse

/-!
# Placing the nodes of a wire graph

A call gives a position to the first node with an id and touches nothing else. Nothing keeps the
ids of a wire graph distinct, so a later node of the same id is never reached. A run of calls leaves
each first node at the last position that was placed on its id, which is why calls on different ids
may change their order. The ids of a parsed graph are distinct, and there each call reaches its
node.
-/

namespace TextDiagram

namespace Wire

structure Placement where
  id : String
  position : Position

def Placement.call (p : Placement) : StateM Graph Bool :=
  modifyGet fun g => g.placeNode p.id p.position

/-- The position that was placed last on an id. -/
def lastPosition? (ps : List Placement) (id : String) : Option Position :=
  (ps.reverse.find? fun p => p.id = id).map Placement.position

theorem lastPosition?_concat (ps : List Placement) (p : Placement) (id : String) :
    lastPosition? (ps ++ [p]) id =
      if p.id = id then some p.position else lastPosition? ps id := by
  by_cases hid : p.id = id <;> simp [lastPosition?, hid]

theorem lastPosition?_pair (p q : Placement) (id : String) :
    lastPosition? [p, q] id =
      if q.id = id then some q.position else if p.id = id then some p.position else none :=
  (lastPosition?_concat [p] q id).trans (congrArg (ite _ _) (lastPosition?_concat [] p id))

namespace Graph

variable {g : Graph} {id : String} {position : Position}

/-! ### The first node with an id -/

/-- The nodes of the graph around the first that has the id. -/
structure FirstAt (g : Graph) (id : String) (before : List Node) (n : Node) (after : List Node) :
    Prop where
  nodes_eq : g.nodes = before ++ n :: after
  id_eq : n.id = id
  notMem_before : id ∉ before.map Node.id

namespace FirstAt

variable {before after : List Node} {n : Node}

theorem mem_ids (h : g.FirstAt id before n after) : id ∈ g.nodes.map Node.id := by
  rw [h.nodes_eq, ← h.id_eq]
  exact List.mem_map_of_mem (List.mem_append_right before List.mem_cons_self)

theorem notMem_after (h : g.FirstAt id before n after) (hids : (g.nodes.map Node.id).Nodup) :
    id ∉ after.map Node.id := by
  rw [h.nodes_eq, List.map_append, List.map_cons, h.id_eq] at hids
  exact (List.nodup_cons.mp hids.of_append_right).1

end FirstAt

theorem hasNode_eq_true_iff : g.hasNode id = true ↔ id ∈ g.nodes.map Node.id := by
  simp [hasNode]

theorem exists_firstAt (h : id ∈ g.nodes.map Node.id) :
    ∃ before n after, g.FirstAt id before n after := by
  obtain ⟨m, hm, hid⟩ := List.mem_map.mp h
  have hsome : (g.nodes.find? fun n => n.id = id).isSome = true :=
    List.find?_isSome.mpr ⟨m, hm, decide_eq_true hid⟩
  obtain ⟨n, hn⟩ := Option.isSome_iff_exists.mp hsome
  obtain ⟨hid, before, after, hnodes, hbefore⟩ := List.find?_eq_some_iff_append.mp hn
  refine ⟨before, n, after, hnodes, of_decide_eq_true hid, ?_⟩
  intro hmem
  obtain ⟨m, hm, hid⟩ := List.mem_map.mp hmem
  simpa [hid] using hbefore m hm

/-! ### One call -/

section PlaceFirst

variable (id : String) (position : Position)

theorem placeFirst_cons_of_ne {n : Node} (h : n.id ≠ id) (nodes : List Node) :
    placeFirst id position (n :: nodes) =
      ((placeFirst id position nodes).1, n :: (placeFirst id position nodes).2) :=
  if_neg h

theorem answer_placeFirst (nodes : List Node) :
    (placeFirst id position nodes).1 = nodes.any fun n => n.id == id := by
  induction nodes with
  | nil => rfl
  | cons n nodes ih =>
      by_cases hid : n.id = id
      · simp [placeFirst, hid]
      · rw [placeFirst_cons_of_ne id position hid, ih, List.any_cons, beq_false_of_ne hid,
          Bool.false_or]

theorem placeFirst_append {before : List Node} (h : id ∉ before.map Node.id)
    (after : List Node) :
    (placeFirst id position (before ++ after)).2 =
      before ++ (placeFirst id position after).2 := by
  induction before with
  | nil => rfl
  | cons m before ih =>
      rw [List.map_cons, List.mem_cons, not_or] at h
      rw [List.cons_append, placeFirst_cons_of_ne id position (Ne.symm h.1), ih h.2,
        List.cons_append]

theorem placeFirst_of_notMem {nodes : List Node} (h : id ∉ nodes.map Node.id) :
    (placeFirst id position nodes).2 = nodes := by
  have happend := placeFirst_append id position h []
  rwa [List.append_nil, placeFirst, List.append_nil] at happend

/-- Of two nodes with the id the second stays where it is. -/
theorem getElem?_placeFirst (nodes : List Node) (i : Nat) :
    (placeFirst id position nodes).2[i]? =
      nodes[i]?.map fun n =>
        if n.id = id ∧ id ∉ (nodes.map Node.id).take i then n.moveTo position else n := by
  induction nodes generalizing i with
  | nil => rfl
  | cons n nodes ih =>
      by_cases hid : n.id = id
      · cases i <;> simp [placeFirst, hid]
      · rw [placeFirst_cons_of_ne id position hid]
        cases i with
        | zero => simp [hid]
        | succ i => simpa [Ne.symm hid] using ih i

end PlaceFirst

theorem place_eq :
    g.place id position = { g with nodes := (placeFirst id position g.nodes).2 } := rfl

theorem FirstAt.place {before after : List Node} {n : Node} (h : g.FirstAt id before n after) :
    g.place id position = { g with nodes := before ++ n.moveTo position :: after } := by
  rw [place_eq, h.nodes_eq, placeFirst_append id position h.notMem_before, placeFirst,
    if_pos h.id_eq]

theorem place_of_notMem (h : id ∉ g.nodes.map Node.id) : g.place id position = g := by
  rw [place_eq, placeFirst_of_notMem id position h]

/-! ### Runs of calls -/

/-- What a run of calls leaves of a graph. A node that another node of its id precedes keeps its
position. -/
structure PlacedBy (g : Graph) (ps : List Placement) (h : Graph) : Prop where
  edges_eq : h.edges = g.edges
  getElem?_nodes : ∀ i : Nat, h.nodes[i]? = g.nodes[i]?.map fun n =>
    { n with position :=
        if n.id ∈ (g.nodes.map Node.id).take i then n.position
        else (lastPosition? ps n.id).or n.position }

namespace PlacedBy

variable {h h' : Graph} {ps qs : List Placement}

theorem nil (g : Graph) : g.PlacedBy [] g where
  edges_eq := rfl
  getElem?_nodes i := by simp [lastPosition?]

/-- Ids and labels keep their order. -/
theorem map_nodes {β : Type} {f : Node → β} (hf : ∀ n : Node, ∀ q, f { n with position := q } = f n)
    (hrun : g.PlacedBy ps h) : h.nodes.map f = g.nodes.map f := by
  refine List.ext_getElem? fun i => ?_
  rw [List.getElem?_map, List.getElem?_map, hrun.getElem?_nodes, Option.map_map]
  exact congrArg (Option.map · _) (funext fun n => hf n _)

theorem ids_eq (hrun : g.PlacedBy ps h) : h.nodes.map Node.id = g.nodes.map Node.id :=
  hrun.map_nodes fun _ _ => rfl

theorem place (hrun : g.PlacedBy ps h) (p : Placement) :
    g.PlacedBy (ps ++ [p]) (h.place p.id p.position) where
  edges_eq := hrun.edges_eq
  getElem?_nodes i := by
    rw [place_eq, getElem?_placeFirst, hrun.ids_eq, hrun.getElem?_nodes, Option.map_map]
    refine congrArg (Option.map · _) (funext fun n => ?_)
    rw [lastPosition?_concat]
    by_cases hid : p.id = n.id
    · by_cases hfirst : n.id ∈ (g.nodes.map Node.id).take i
      · simp [hid, hfirst]
      · simp [hid, hfirst, Node.moveTo]
    · simp [hid, Ne.symm hid]

theorem foldl_place (g : Graph) (ps : List Placement) :
    g.PlacedBy ps (ps.foldl (fun h p => h.place p.id p.position) g) := by
  induction ps using List.reverseRecOn with
  | nil => exact nil g
  | append_singleton ps p ih =>
      rw [List.foldl_concat]
      exact ih.place p

/-- Only the last position that was placed on each id counts. -/
theorem eq_of_lastPosition?_eq (hps : g.PlacedBy ps h) (hqs : g.PlacedBy qs h')
    (hlast : ∀ id, lastPosition? ps id = lastPosition? qs id) : h = h' := by
  have hnodes : h.nodes = h'.nodes := by
    refine List.ext_getElem? fun i => ?_
    rw [hps.getElem?_nodes, hqs.getElem?_nodes]
    simp only [hlast]
  have hedges : h.edges = h'.edges := hps.edges_eq.trans hqs.edges_eq.symm
  cases h
  cases h'
  cases hnodes
  cases hedges
  rfl

end PlacedBy

theorem ids_place : (g.place id position).nodes.map Node.id = g.nodes.map Node.id :=
  ((PlacedBy.nil g).place ⟨id, position⟩).ids_eq

theorem hasNode_place (other : String) : (g.place id position).hasNode other = g.hasNode other := by
  rw [Bool.eq_iff_iff, hasNode_eq_true_iff, hasNode_eq_true_iff, ids_place]

end Graph

namespace Placement

/-- One search finds the node to move and decides the answer. -/
theorem run_call (p : Placement) (g : Graph) :
    p.call.run g = (g.hasNode p.id, g.place p.id p.position) := by
  rw [Graph.hasNode, ← Graph.answer_placeFirst p.id p.position]
  rfl

theorem run_calls (ps : List Placement) (g : Graph) :
    (ps.mapM call).run g =
      (ps.map fun p => g.hasNode p.id, ps.foldl (fun h p => h.place p.id p.position) g) := by
  induction ps generalizing g with
  | nil => rfl
  | cons p ps ih =>
      have hcons : ((p :: ps).mapM call).run g =
          ((p.call.run g).1 :: ((ps.mapM call).run (p.call.run g).2).1,
            ((ps.mapM call).run (p.call.run g).2).2) := by
        rw [List.mapM_cons]
        rfl
      rw [hcons, run_call, ih]
      simp only [Graph.hasNode_place, List.map_cons, List.foldl_cons]

theorem call_comm {p q : Placement} (hid : p.id ≠ q.id) :
    (do let a ← p.call; let b ← q.call; return (a, b)) =
      (do let b ← q.call; let a ← p.call; return (a, b)) := by
  have hlast : ∀ id, lastPosition? [p, q] id = lastPosition? [q, p] id := by
    intro id
    rw [lastPosition?_pair, lastPosition?_pair]
    by_cases hp : p.id = id
    · rw [if_neg fun hq => hid (hp.trans hq.symm), if_pos hp, if_pos hp]
    · rw [if_neg hp, if_neg hp]
  refine StateT.ext fun g => ?_
  have hgraph : (g.place p.id p.position).place q.id q.position =
      (g.place q.id q.position).place p.id p.position :=
    (Graph.PlacedBy.foldl_place g [p, q]).eq_of_lastPosition?_eq
      (Graph.PlacedBy.foldl_place g [q, p]) hlast
  calc StateT.run (do let a ← p.call; let b ← q.call; return (a, b)) g
    _ = (((p.call.run g).1, (q.call.run (p.call.run g).2).1), (q.call.run (p.call.run g).2).2) :=
        rfl
    _ = (((p.call.run (q.call.run g).2).1, (q.call.run g).1), (p.call.run (q.call.run g).2).2) := by
        simp only [run_call, Graph.hasNode_place, hgraph]
    _ = StateT.run (do let b ← q.call; let a ← p.call; return (a, b)) g := rfl

theorem answer_iff (p : Placement) (g : Graph) :
    (p.call.run g).1 = true ↔ p.id ∈ g.nodes.map Node.id := by
  rw [run_call]
  exact Graph.hasNode_eq_true_iff

theorem run_call_of_firstAt {p : Placement} {g : Graph} {before after : List Node} {n : Node}
    (h : g.FirstAt p.id before n after) :
    p.call.run g = (true, { g with nodes := before ++ n.moveTo p.position :: after }) := by
  rw [run_call, Graph.hasNode_eq_true_iff.mpr h.mem_ids, h.place]

theorem run_call_of_notMem {p : Placement} {g : Graph} (h : p.id ∉ g.nodes.map Node.id) :
    p.call.run g = (false, g) := by
  have hanswer : g.hasNode p.id = false := by
    rw [← Bool.not_eq_true, Graph.hasNode_eq_true_iff]
    exact h
  rw [run_call, hanswer, Graph.place_of_notMem h]

end Placement

/-! ### Parsed graphs -/

theorem ids_ofGraph (g : TextDiagram.Graph) :
    (Graph.ofGraph g).nodes.map Node.id = g.nodes.map TextDiagram.Node.id := by
  rw [Graph.ofGraph, List.map_map]
  rfl

theorem ids_nodup_ofGraph_parse (parser : Parser) (source : String) :
    ((Graph.ofGraph (parser.parse source)).nodes.map Node.id).Nodup := by
  rw [ids_ofGraph]
  cases hdialect : parser.dialectOf? source with
  | none =>
      rw [Parser.parse_of_dialectOf?_eq_none hdialect]
      exact List.nodup_nil
  | some d =>
      rw [Parser.parse_eq_graph hdialect]
      exact ((d.coherent_scan source.toList).wellFormed_close d.implicitKind).ids_nodup

/-- A call answers whether some node has its id. It moves the first such node and changes nothing
else, and without one it changes nothing. So a run of calls keeps ids, labels and edges, and leaves
each node where it was placed last if no node before it has its id, and where it was otherwise.
Calls on different ids commute. In a graph that comes from a text, whatever has been placed before,
a call on an id of the text moves the one node that has it. -/
theorem placing_is_local (g : Graph) (p : Placement) :
    (p.call.run g = (g.hasNode p.id, g.place p.id p.position) ∧
        ((p.call.run g).1 = true ↔ p.id ∈ g.nodes.map Node.id) ∧
        ((p.call.run g).1 = true → ∃ before n after, g.FirstAt p.id before n after ∧
          (p.call.run g).2 = { g with nodes := before ++ n.moveTo p.position :: after }) ∧
        ((p.call.run g).1 = false → (p.call.run g).2 = g)) ∧
      (∀ ps : List Placement, ∃ h, (ps.mapM Placement.call).run g =
          (ps.map fun q => g.hasNode q.id, h) ∧
        (h.nodes.map fun n => (n.id, n.label)) = (g.nodes.map fun n => (n.id, n.label)) ∧
        g.PlacedBy ps h) ∧
      (∀ q : Placement, p.id ≠ q.id →
        (do let a ← p.call; let b ← q.call; return (a, b)) =
          (do let b ← q.call; let a ← p.call; return (a, b))) ∧
      ∀ (parser : Parser) (source : String) (ps : List Placement) (h : Graph),
        ((ps.mapM Placement.call).run (.ofGraph (parser.parse source))).2 = h →
        p.id ∈ (parser.parse source).nodes.map TextDiagram.Node.id →
        ∃ before n after, h.FirstAt p.id before n after ∧ p.id ∉ after.map Node.id ∧
          p.call.run h = (true, { h with nodes := before ++ n.moveTo p.position :: after }) := by
  refine ⟨⟨p.run_call g, p.answer_iff g, ?_, ?_⟩, ?_, ?_, ?_⟩
  · intro hanswer
    obtain ⟨before, n, after, hfirst⟩ := Graph.exists_firstAt ((p.answer_iff g).mp hanswer)
    exact ⟨before, n, after, hfirst, congrArg Prod.snd (Placement.run_call_of_firstAt hfirst)⟩
  · intro hanswer
    have hnone : p.id ∉ g.nodes.map Node.id := by
      rw [← p.answer_iff g, hanswer]
      exact Bool.false_ne_true
    exact congrArg Prod.snd (Placement.run_call_of_notMem hnone)
  · intro ps
    have hrun := Graph.PlacedBy.foldl_place g ps
    exact ⟨_, Placement.run_calls ps g, hrun.map_nodes fun _ _ => rfl, hrun⟩
  · intro q hid
    exact Placement.call_comm hid
  · intro parser source ps h hrun hid
    rw [Placement.run_calls] at hrun
    have hids : h.nodes.map Node.id = (Graph.ofGraph (parser.parse source)).nodes.map Node.id :=
      hrun ▸ (Graph.PlacedBy.foldl_place _ ps).ids_eq
    have hnodup := ids_nodup_ofGraph_parse parser source
    rw [← ids_ofGraph, ← hids] at hid
    rw [← hids] at hnodup
    obtain ⟨before, n, after, hfirst⟩ := Graph.exists_firstAt hid
    exact ⟨before, n, after, hfirst, hfirst.notMem_after hnodup,
      Placement.run_call_of_firstAt hfirst⟩

/-- Two nodes of a graph have one id, and what is placed on it moves the first of them. The ids of a
text are its own, and after other calls its nodes are still found. -/
theorem placing_is_local_twins :
    let twins : Graph := ⟨[⟨"A", "x", none⟩, ⟨"B", "y", none⟩, ⟨"A", "z", none⟩], []⟩
    let onA : Placement := ⟨"A", ⟨0, 1.5, -2⟩⟩
    let onB : Placement := ⟨"B", ⟨3, 0, 0⟩⟩
    let onC : Placement := ⟨"C", ⟨4, 4, 4⟩⟩
    let source := "flowchart TD\nA[Start] --> B[End]"
    ((onA.call.run twins).1 = true ∧ (onC.call.run twins).1 = false ∧ onA.id ≠ onB.id ∧
        onA.id ∈ (Parser.detecting.parse source).nodes.map TextDiagram.Node.id) ∧
      (∃ before n after, twins.FirstAt "A" before n after ∧ (onA.call.run twins).2 =
        { twins with nodes := before ++ n.moveTo ⟨0, 1.5, -2⟩ :: after }) ∧
      (onC.call.run twins).2 = twins ∧
      (do let a ← onA.call; let b ← onB.call; return (a, b)) =
        (do let b ← onB.call; let a ← onA.call; return (a, b)) ∧
      ∃ h before n after,
        (([onB, onA, onC].mapM Placement.call).run
          (.ofGraph (Parser.detecting.parse source))).2 = h ∧
        h.FirstAt "A" before n after ∧ "A" ∉ after.map Node.id ∧
        onA.call.run h =
          (true, { h with nodes := before ++ n.moveTo ⟨0, 1.5, -2⟩ :: after }) := by
  intro twins onA onB onC source
  have hid : onA.id ∈ (Parser.detecting.parse source).nodes.map TextDiagram.Node.id := by
    decide +kernel
  have hA := placing_is_local twins onA
  have hC := placing_is_local twins onC
  obtain ⟨before, n, after, hparsed⟩ := hA.2.2.2 Parser.detecting source [onB, onA, onC] _ rfl hid
  exact ⟨⟨rfl, rfl, by decide, hid⟩, hA.1.2.2.1 rfl, hC.1.2.2.2 rfl, hA.2.2.1 onB (by decide),
    _, before, n, after, rfl, hparsed⟩

end Wire

end TextDiagram
