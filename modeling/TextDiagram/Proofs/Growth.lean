import Mathlib.Data.List.Count
import TextDiagram.Proofs.FlowAssembly
import TextDiagram.Proofs.OpenBlocks
import TextDiagram.Proofs.SequenceAssembly
import TextDiagram.Proofs.SingleClass

/-!
# Texts that grow

A text that is continued may say more about what it said before. A label can pass from one link to
another, a role can take the id of a note, and a block that was left open can go on. But every node
keeps its place among the ids, and between two nodes there are never fewer edges.
-/

namespace TextDiagram

open Text

/-- The ids of a graph are ids of the other, and between two nodes it has no more edges. -/
structure Graph.Within (g h : Graph) : Prop where
  ids : ∀ id ∈ g.nodes.map Node.id, id ∈ h.nodes.map Node.id
  edges : ∀ source target,
    (g.edgesBetween source target).length ≤ (h.edgesBetween source target).length

theorem Graph.length_edgesBetween (g : Graph) (source target : String) :
    (g.edgesBetween source target).length = (g.edges.map Edge.ends).count (source, target) := by
  rw [edgesBetween, List.count_eq_countP, List.countP_map, List.countP_eq_length_filter]
  congr 1

namespace Dialect

theorem mem_ids_graph {d : Dialect} {source : List Char} {id : String} :
    id ∈ (d.graph source).nodes.map Node.id ↔
      id ∈ (d.scan source).nodes.keys ∨ id ∈ (d.scan source).endpoints := by
  rw [graph_nodes, List.map_append, (d.coherent_scan source).ids_values, List.map_map,
    List.mem_append]
  have hids : (Node.id ∘ fun id => Node.unlabeled id d.implicitKind) = fun id => id := rfl
  rw [hids, List.map_id', List.mem_eraseDups, List.removeAll, List.mem_filter]
  by_cases hknown : id ∈ (d.scan source).nodes.keys <;> simp [hknown]

/-- It is enough to look at the assemblies before they are closed. -/
theorem within_of_scan {d : Dialect} {s t : List Char}
    (hids : ∀ id ∈ (d.scan s).nodes.keys, id ∈ (d.scan t).nodes.keys)
    (hedges : ∀ ends, ((d.scan s).edges.map Edge.ends).count ends ≤
      ((d.scan t).edges.map Edge.ends).count ends) : (d.graph s).Within (d.graph t) := by
  refine ⟨?_, ?_⟩
  · intro id hid
    rw [mem_ids_graph] at hid ⊢
    refine hid.imp (hids id) ?_
    intro hend
    obtain ⟨e, he, hid⟩ := List.mem_flatMap.mp hend
    have hmem : e.ends ∈ (d.scan t).edges.map Edge.ends := by
      have hpos := List.count_pos_iff.mpr (List.mem_map_of_mem (f := Edge.ends) he)
      exact List.count_pos_iff.mp (Nat.lt_of_lt_of_le hpos (hedges e.ends))
    obtain ⟨k, hk, hends⟩ := List.mem_map.mp hmem
    refine List.mem_flatMap.mpr ⟨k, hk, ?_⟩
    obtain ⟨hsource, htarget⟩ := Prod.mk.inj hends
    simpa [hsource, htarget] using hid
  · intro source target
    rw [Graph.length_edgesBetween, Graph.length_edgesBetween, graph_edges, graph_edges]
    exact hedges (source, target)

end Dialect

/-! ### Flowcharts -/

namespace Flow

/-- A labeled link gives an edge of its own only where there is no other edge. -/
theorem count_ends_furtherLinks (plain labeled : List Link) (ends : String × String) :
    ((plain ++ furtherLinks plain labeled).map Link.ends).count ends =
      max ((plain.map Link.ends).count ends) (min 1 ((labeled.map Link.ends).count ends)) := by
  induction labeled using List.reverseRecOn with
  | nil => simp [furtherLinks]
  | append_singleton labeled l ih =>
      rw [furtherLinks_concat, ← List.append_assoc, List.map_append, List.count_append, ih,
        List.map_append, List.count_append]
      by_cases hends : l.ends = ends
      · have hone : ([l].map Link.ends).count ends = 1 := by simp [hends]
        rw [hends, hone]
        split
        · rename_i hknown
          have hpos : 0 < (plain.map Link.ends).count ends ∨
              0 < (labeled.map Link.ends).count ends :=
            hknown.imp List.count_pos_iff.mpr List.count_pos_iff.mpr
          simp only [List.map_nil, List.count_nil]
          omega
        · rename_i hnew
          obtain ⟨hplain, hlabeled⟩ := not_or.mp hnew
          rw [hone, List.count_eq_zero.mpr hplain, List.count_eq_zero.mpr hlabeled]
          rfl
      · have hzero : ([l].map Link.ends).count ends = 0 := by simp [hends]
        split
        · rw [hzero]
          rfl
        · rw [hzero]
          rfl

theorem count_ends_scan (source : List Char) (ends : String × String) :
    ((Dialect.flow.scan source).edges.map Edge.ends).count ends =
      max (((plainLinks (chains source)).map Link.ends).count ends)
        (min 1 (((labeledLinks (chains source)).map Link.ends).count ends)) := by
  rw [(edgesRead_scan source).map_ends, count_ends_furtherLinks]

theorem chains_append_cons (s t : List Char) : chains (s ++ '\n' :: t) = chains s ++ chains t := by
  simp only [chains, chainsOf, statements, meaningfulLines_append_cons, List.flatMap_append,
    List.filterMap_append]

theorem within_append_cons (s t : List Char) :
    (Dialect.flow.graph s).Within (Dialect.flow.graph (s ++ '\n' :: t)) := by
  refine Dialect.within_of_scan ?_ ?_
  · intro id hid
    rw [keys_scan, List.mem_eraseDups] at hid ⊢
    rw [chains_append_cons, labeledNodes_append, List.map_append]
    exact List.mem_append_left _ hid
  · intro ends
    rw [count_ends_scan, count_ends_scan, chains_append_cons]
    simp only [plainLinks_append, labeledLinks_append, List.map_append, List.count_append]
    omega

end Flow

/-! ### Sequence diagrams -/

namespace Sequence

theorem declared_append (role : RoleKind) (xs ys : List Fragment) :
    declared role (xs ++ ys) = declared role xs ++ declared role ys := by
  rw [declared, List.filterMap_append, List.filter_append, declared, declared]

theorem roles_subset_append (xs ys : List Fragment) :
    (contentsOf xs).roles ⊆ (contentsOf (xs ++ ys)).roles := by
  intro id hid
  simp only [contentsOf, Contents.roles, Contents.declarations, Contents.messageRoles, messages,
    declared_append, List.filterMap_append, List.map_append, List.flatMap_append,
    List.mem_append] at hid ⊢
  tauto

theorem Contents.mem_keys_run_steps {c : Contents} {id : String} :
    id ∈ (Assembly.empty.run c.steps).nodes.keys ↔
      id ∈ c.roles ∨ ∃ k ∈ (numberNotes c.roles 0 c.notes).map Prod.fst, noteId k = id := by
  have hnotes : (c.noteNodes.map Step.declare).filterMap Step.nodeId? =
      ((numberNotes c.roles 0 c.notes).map Prod.fst).map noteId := by
    simp [noteNodes, List.filterMap_map, Function.comp_def, Step.nodeId?, Note.node]
  rw [steps, Assembly.run_append, Assembly.keys_run, c.keys_run_roleSteps, hnotes,
    removeAll_eraseDups, ← List.eraseDups_append, List.mem_eraseDups, List.mem_append,
    List.mem_map]

theorem within_append_cons (s t : List Char) :
    (Dialect.sequence.graph s).Within (Dialect.sequence.graph (s ++ '\n' :: t)) := by
  obtain ⟨more, hmore⟩ : ∃ more, contents (s ++ '\n' :: t) =
      contentsOf ((statements s).filterMap (Rule.meaning? rules) ++ more) := by
    refine ⟨(statements t).filterMap (Rule.meaning? rules), ?_⟩
    rw [contents, statements, meaningfulLines_append_cons, List.filterMap_append]
    rfl
  refine Dialect.within_of_scan ?_ ?_
  · intro id hid
    rw [scan_eq_run, Contents.mem_keys_run_steps] at hid ⊢
    rw [hmore]
    have hroles := roles_subset_append ((statements s).filterMap (Rule.meaning? rules)) more
    rcases hid with hrole | ⟨k, hk, rfl⟩
    · exact .inl (hroles hrole)
    · refine or_iff_not_imp_left.mpr fun hfree => ⟨k, ?_, rfl⟩
      refine mem_numberNotes_of_subset hroles le_rfl k.zero_le hfree ?_ hk
      rw [contents]
      simp [contentsOf, notes]
  · intro ends
    rw [scan_eq_run, scan_eq_run, Contents.edges_run_steps, Contents.edges_run_steps, hmore]
    simp only [contents, contentsOf, messages, List.filterMap_append, List.map_append,
      List.count_append]
    exact Nat.le_add_right _ _

end Sequence

/-! ### Class diagrams -/

namespace Class

theorem node_mem_contents_iff {fs : List Fragment} {id : String} :
    .node id ∈ contents fs ↔ id ∈ classIds fs := by
  have hcontent : ∀ f : Fragment, f.content? = some (.node id) ↔
      (∃ d, f.declaration? = some d ∧ d.id = id) ∨ ∃ m, f.member? = some m ∧ m.1 = id := by
    intro f
    cases f <;> simp [Fragment.content?, Fragment.declaration?, Fragment.member?]
  have hids : id ∈ classIds fs ↔
      (∃ d ∈ declarations fs, d.id = id) ∨ ∃ m ∈ members fs, m.1 = id := by
    simp [mem_classIds_iff, allDeclarations, memberDeclaration]
  rw [hids]
  simp only [contents, declarations, members, List.mem_filterMap, hcontent]
  grind

theorem count_edge_contents (fs : List Fragment) (ends : String × String) :
    (contents fs).count (.edge ends) =
      (((relations fs).map Relation.edge).map Edge.ends).count ends := by
  induction fs with
  | nil => rfl
  | cons f fs ih =>
      have hcons : contents (f :: fs) = f.content?.toList ++ contents fs := by
        cases f <;> rfl
      have hrelations : relations (f :: fs) = f.relation?.toList ++ relations fs := by
        cases f <;> rfl
      have hfirst : f.content?.toList.count (.edge ends) =
          ((f.relation?.toList.map Relation.edge).map Edge.ends).count ends := by
        cases f with
        | relation r =>
            have hinjective : Function.Injective Content.edge := fun _ _ => Content.edge.inj
            exact List.count_map_of_injective [r.edge.ends] Content.edge hinjective ends
        | directive | declaration _ | stereotyped _ _ | member _ _ => rfl
      rw [hcons, hrelations, List.map_append, List.map_append, List.count_append,
        List.count_append, hfirst, ih]

theorem within_append_cons (s t : List Char) :
    (Dialect.classes.graph s).Within (Dialect.classes.graph (s ++ '\n' :: t)) := by
  have hprefix := contents_prefix s t
  refine Dialect.within_of_scan ?_ ?_
  · intro id hid
    rw [scan_eq_run, keys_run_steps, ← node_mem_contents_iff] at hid ⊢
    exact hprefix.subset hid
  · intro ends
    rw [scan_eq_run, scan_eq_run, edges_run_steps, edges_run_steps, ← count_edge_contents,
      ← count_edge_contents]
    exact hprefix.sublist.count_le _

end Class

/-- Text that is added behind a text never takes a node or an edge away from it. -/
theorem Parser.parse_append_within (d : Dialect) (s t : String) :
    ((forced d).parse s).Within ((forced d).parse (s ++ "\n" ++ t)) := by
  have htext : (s ++ "\n" ++ t).toList = s.toList ++ '\n' :: t.toList := by simp
  have hdialect : ∀ source, (forced d).dialectOf? source = some d := fun _ => rfl
  rw [parse_eq_graph (hdialect _), parse_eq_graph (hdialect _), htext]
  cases d with
  | flow => exact Flow.within_append_cons _ _
  | sequence => exact Sequence.within_append_cons _ _
  | classes => exact Class.within_append_cons _ _

/-- A role takes the id of the note, which gets another one. -/
example : let p := Parser.forced .sequence
    (p.parse "Note over A: x").nodes.map Node.id = ["note_0"] ∧
      (p.parse "Note over A: x\nactor note_0").nodes.map Node.id = ["note_0", "note_1"] := by
  decide +kernel

end TextDiagram
