import TextDiagram.Parser
import TextDiagram.Proofs.Coherence

/-!
# Parsed graphs are well formed

A text that yields nothing has the empty graph, which is also what closing its empty assembly gives.
So whatever the outcome, the graph of a text is its closed assembly, and no text breaks it.
-/

namespace TextDiagram

namespace Dialect

/-- Everything that a text says in a dialect, closed. -/
def graph (d : Dialect) (source : List Char) : Graph :=
  ((d.scan source).close d.implicitKind).toGraph

theorem coherent_scan (d : Dialect) (source : List Char) : (d.scan source).Coherent :=
  Assembly.coherent_run_empty _

theorem graph_edges (d : Dialect) (source : List Char) :
    (d.graph source).edges = (d.scan source).edges :=
  Assembly.edges_close ..

theorem graph_nodes (d : Dialect) (source : List Char) :
    (d.graph source).nodes = (d.scan source).nodes.values ++
      ((d.scan source).endpoints.removeAll (d.scan source).nodes.keys).eraseDups.map fun id =>
        Node.unlabeled id d.implicitKind :=
  Assembly.values_close ..

theorem node?_graph {d : Dialect} {source : List Char} {id : String} {n : Node}
    (hn : n ∈ (d.scan source).nodes.values) (hid : n.id = id) :
    (d.graph source).node? id = some n := by
  subst hid
  refine ((d.coherent_scan source).wellFormed_close d.implicitKind).node?_of_mem ?_
  rw [← graph, graph_nodes]
  exact List.mem_append_left _ hn

/-- An assembly in which every endpoint has a node is closed already. -/
theorem graph_eq_toGraph {d : Dialect} {source : List Char}
    (h : (d.scan source).endpoints.removeAll (d.scan source).nodes.keys = []) :
    d.graph source = (d.scan source).toGraph := by
  have hnodes := d.graph_nodes source
  rw [h, List.eraseDups_nil, List.map_nil, List.append_nil] at hnodes
  rw [Assembly.toGraph, ← hnodes, ← d.graph_edges source]

theorem graph_eq_empty {d : Dialect} {source : List Char} (h : (d.scan source).isEmpty = true) :
    d.graph source = .empty := by
  obtain ⟨hnodes, hedges⟩ := Bool.and_eq_true_iff.mp h
  rw [List.isEmpty_iff] at hnodes hedges
  have hvalues : (d.graph source).nodes = [] := by
    rw [graph_nodes, Assembly.endpoints, hedges]
    simp [OrderedMap.values, hnodes]
  have hnone : (d.graph source).edges = [] := by rw [graph_edges, hedges]
  rw [← Graph.isEmpty_iff, Graph.isEmpty, hvalues, hnone]
  rfl

end Dialect

namespace Parser

theorem parse_eq_graph {p : Parser} {source : String} {d : Dialect}
    (h : p.dialectOf? source = some d) : p.parse source = d.graph source.toList := by
  simp only [parse, tryParse, h, Dialect.graph?]
  cases hempty : (d.scan source.toList).isEmpty with
  | true => simp [Dialect.graph_eq_empty hempty]
  | false => simp [Dialect.graph]

/-- Without a dialect there is nothing to read. -/
theorem parse_of_dialectOf?_eq_none {p : Parser} {source : String}
    (h : p.dialectOf? source = none) : p.parse source = .empty := by
  simp [parse, tryParse, h]

theorem parse_of_tryParse {p : Parser} {source : String} {g : Graph}
    (h : p.tryParse source = .ok g) : p.parse source = g := by
  rw [parse, h]

/-- Whatever the text, the nodes of its graph have distinct ids and its edges dangle nowhere. -/
theorem parse_wellFormed (p : Parser) (source : String) :
    (p.parse source).WellFormed ∧ ∀ g, p.tryParse source = .ok g → g.WellFormed := by
  have hparse : (p.parse source).WellFormed := by
    cases hdialect : p.dialectOf? source with
    | none =>
        have hempty : p.parse source = .empty := by simp [parse, tryParse, hdialect]
        rw [hempty]
        exact Graph.wellFormed_empty
    | some d =>
        rw [parse_eq_graph hdialect]
        exact (d.coherent_scan source.toList).wellFormed_close d.implicitKind
  refine ⟨hparse, ?_⟩
  intro g hg
  rw [← parse_of_tryParse hg]
  exact hparse

/-- A role has taken the first id of a note, and a line is garbage. -/
theorem parse_wellFormed_note_id_taken :
    ∃ g, detecting.tryParse "sequenceDiagram\nnote_0 <<-- B: hi\n???\nNote over B: x" = .ok g ∧
      g.nodes.map Node.id = ["note_0", "B", "note_1"] ∧ g.WellFormed := by
  have hparse : detecting.tryParse "sequenceDiagram\nnote_0 <<-- B: hi\n???\nNote over B: x" =
      .ok {
        nodes := [.unlabeled "note_0" .implicitParticipant, .unlabeled "B" .implicitParticipant,
          { id := "note_1", label := "x", kind := .noteOver, participants := ["B"] }]
        edges := [{ source := "B", target := "note_0", kind := .async, label := some "hi" }] } := by
    decide +kernel
  exact ⟨_, hparse, rfl, (parse_wellFormed _ _).2 _ hparse⟩

end Parser

end TextDiagram
