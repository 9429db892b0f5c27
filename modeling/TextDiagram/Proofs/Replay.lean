import TextDiagram.Proofs.Growth
import TextDiagram.Proofs.Markers
import TextDiagram.Proofs.Outcome

/-!
# Labels that are given twice

A text whose links all have labels can be repeated without changing the graph. The first time it
may add nodes and edges. The second time all of them are there, and every label that it sets is the
one that has been set last.
-/

namespace TextDiagram

open Text

theorem getLast?_append_append {α : Type} (xs ys : List α) :
    (xs ++ ys ++ ys).getLast? = (xs ++ ys).getLast? := by
  cases hys : ys.getLast? <;> simp [List.getLast?_append, hys]

theorem eraseDups_append_append {α : Type} [DecidableEq α] (xs ys : List α) :
    (xs ++ ys ++ ys).eraseDups = (xs ++ ys).eraseDups := by
  have hnone : ys.removeAll (xs ++ ys) = [] := by
    rw [List.removeAll, List.filter_eq_nil_iff]
    intro y hy
    simp [hy]
  rw [List.eraseDups_append, hnone, List.eraseDups_nil, List.append_nil]

theorem shownLabel_append_append (id : String) (xs ys : List String) :
    shownLabel id (xs ++ ys ++ ys) = shownLabel id (xs ++ ys) := by
  simp only [shownLabel, List.filter_append, getLast?_append_append]

theorem Edge.eq_of_ends {e f : Edge} (hends : e.ends = f.ends) (hkind : e.kind = f.kind)
    (hlabel : e.label = f.label) : e = f := by
  obtain ⟨hsource, htarget⟩ := Prod.mk.inj hends
  cases e
  cases f
  exact Edge.mk.injEq .. ▸ ⟨hsource, htarget, hkind, hlabel⟩

namespace Dialect

/-- A graph is known by the ids, the nodes and the edges of its assembly. -/
theorem graph_congr {d : Dialect} {s t : List Char}
    (hkeys : (d.scan s).nodes.keys = (d.scan t).nodes.keys)
    (hget : ∀ id ∈ (d.scan s).nodes.keys, (d.scan s).nodes.get? id = (d.scan t).nodes.get? id)
    (hedges : (d.scan s).edges = (d.scan t).edges) : d.graph s = d.graph t := by
  have hvalues := OrderedMap.values_congr (d.coherent_scan s).keys_nodup hkeys hget
  refine Graph.eq_of_nodes_of_edges ?_ ?_
  · rw [graph_nodes, graph_nodes, Assembly.endpoints, Assembly.endpoints, hvalues, hkeys, hedges]
  · rw [graph_edges, graph_edges, hedges]

end Dialect

namespace Flow

theorem lastLabel?_append_append (xs ys : List Link) (ends : String × String) :
    lastLabel? (xs ++ ys ++ ys) ends = lastLabel? (xs ++ ys) ends := by
  simp only [lastLabel?, List.filter_append, List.filterMap_append, getLast?_append_append]

/-- Links between nodes that labeled links join already are no further links. -/
theorem furtherLinks_append_of_subset {plain labeled more : List Link}
    (hmore : ∀ l ∈ more, l.ends ∈ labeled.map Link.ends) :
    furtherLinks plain (labeled ++ more) = furtherLinks plain labeled := by
  induction more using List.reverseRecOn with
  | nil => rw [List.append_nil]
  | append_singleton more l ih =>
      have hl : l.ends ∈ (labeled ++ more).map Link.ends := by
        rw [List.map_append]
        exact List.mem_append_left _ (hmore l (by simp))
      rw [← List.append_assoc, furtherLinks_concat, if_pos (.inr hl), List.append_nil]
      exact ih fun k hk => hmore k (List.mem_append_left _ hk)

theorem furtherLinks_append_append (plain xs ys : List Link) :
    furtherLinks plain (xs ++ ys ++ ys) = furtherLinks plain (xs ++ ys) := by
  apply furtherLinks_append_of_subset
  intro l hl
  exact List.mem_map_of_mem (List.mem_append_right xs hl)

/-- The reading leaves no choice for the edges. -/
theorem EdgesRead.eq {plain labeled more : List Link} {edges others : List Edge}
    (h : EdgesRead plain labeled edges) (hothers : EdgesRead plain more others)
    (hfurther : furtherLinks plain labeled = furtherLinks plain more)
    (hlast : ∀ ends, lastLabel? labeled ends = lastLabel? more ends) : edges = others := by
  have hlinks : edges.map (fun e => (e.ends, e.kind)) = others.map fun e => (e.ends, e.kind) := by
    rw [h.links, hothers.links, hfurther]
  have hends : edges.map Edge.ends = others.map Edge.ends := by
    simpa [List.map_map, Function.comp_def] using congrArg (List.map Prod.fst) hlinks
  have hlength : edges.length = others.length := by simpa using congrArg List.length hends
  apply List.ext_getElem hlength
  intro i hi hi'
  have hpair := List.getElem_of_eq hlinks (by simpa using hi)
  rw [List.getElem_map, List.getElem_map, Prod.mk.injEq] at hpair
  obtain ⟨hpairEnds, hkind⟩ := hpair
  have hlabel : edges[i].label = others[i].label := by
    rw [h.labels i _ (List.getElem?_eq_getElem hi),
      hothers.labels i _ (List.getElem?_eq_getElem hi'), List.map_take, List.map_take, hends,
      hpairEnds, hlast]
  exact Edge.eq_of_ends hpairEnds hkind hlabel

/-! ### Texts -/

theorem graph_append_twice {s l : List Char} (hl : plainLinks (chains l) = []) :
    Dialect.flow.graph (s ++ '\n' :: l ++ '\n' :: l) = Dialect.flow.graph (s ++ '\n' :: l) := by
  have honce : chains (s ++ '\n' :: l) = chains s ++ chains l := chains_append_cons s l
  have htwice : chains (s ++ '\n' :: l ++ '\n' :: l) = chains s ++ chains l ++ chains l := by
    rw [chains_append_cons, honce]
  have hkeys : (Dialect.flow.scan (s ++ '\n' :: l ++ '\n' :: l)).nodes.keys =
      (Dialect.flow.scan (s ++ '\n' :: l)).nodes.keys := by
    simp only [keys_scan, htwice, honce, labeledNodes_append, List.map_append,
      eraseDups_append_append]
  refine Dialect.graph_congr hkeys ?_ ?_
  · intro id hid
    have hid' := hkeys ▸ hid
    rw [keys_scan, List.mem_eraseDups] at hid hid'
    rw [get?_scan hid, get?_scan hid']
    simp only [htwice, honce, labeledNodes_append, List.filter_append, List.map_append,
      shownLabel_append_append]
  · have hread := edgesRead_scan (s ++ '\n' :: l ++ '\n' :: l)
    have hread' := edgesRead_scan (s ++ '\n' :: l)
    simp only [htwice, honce, plainLinks_append, labeledLinks_append, hl, List.append_nil]
      at hread hread'
    exact hread.eq hread' (furtherLinks_append_append ..) (lastLabel?_append_append _ _)

end Flow

/-- Repeating a line whose links all have labels does not change the graph. The line may as well be
a text of more lines. -/
theorem Parser.parse_repeated_labels {p : Parser} {s l : String}
    (hflow : p.dialectOf? (s ++ "\n" ++ l) = some .flow)
    (hlabeled : ∀ link ∈ (Flow.chains l.toList).flatMap Flow.Chain.links,
      link.arrow.label.isSome = true) :
    p.parse (s ++ "\n" ++ l ++ "\n" ++ l) = p.parse (s ++ "\n" ++ l) ∧
      p.tryParse (s ++ "\n" ++ l ++ "\n" ++ l) = p.tryParse (s ++ "\n" ++ l) := by
  have honce : (s ++ "\n" ++ l).toList = s.toList ++ '\n' :: l.toList := by simp
  have htwice : (s ++ "\n" ++ l ++ "\n" ++ l).toList =
      s.toList ++ '\n' :: l.toList ++ '\n' :: l.toList := by simp
  have hdialect : p.dialectOf? (s ++ "\n" ++ l ++ "\n" ++ l) = some .flow := by
    rw [← hflow]
    refine dialectOf?_congr fun _ d m hm => ?_
    have hbreak := occurs_append_cons (Dialect.notMem_marker hm '\n' (by decide))
      (Dialect.marker_ne_nil hm)
    rw [htwice, honce, hbreak, hbreak, Bool.or_assoc, Bool.or_self]
  have hplain : Flow.plainLinks (Flow.chains l.toList) = [] := by
    rw [Flow.plainLinks, List.filter_eq_nil_iff]
    intro link hlink
    simp [Option.isNone_iff_eq_none, Option.isSome_iff_ne_none.mp (hlabeled link hlink)]
  have hgraph := Flow.graph_append_twice (s := s.toList) hplain
  refine ⟨?_, ?_⟩
  · rw [parse_eq_graph hdialect, parse_eq_graph hflow, htwice, honce, hgraph]
  · rw [tryParse_eq_graph? hdialect, tryParse_eq_graph? hflow, htwice, honce, Dialect.graph?_eq,
      Dialect.graph?_eq, hgraph]

/-- The repeated line adds an edge and changes two labels in its course. -/
theorem Parser.parse_repeated_statements :
    let s := "flowchart\nA --> B"
    let l := "A[x] -- y --> B[b]; A -->|z| B[c] -->|w| D"
    detecting.dialectOf? (s ++ "\n" ++ l) = some .flow ∧
      (∀ link ∈ (Flow.chains l.toList).flatMap Flow.Chain.links,
        link.arrow.label.isSome = true) ∧
      detecting.parse (s ++ "\n" ++ l ++ "\n" ++ l) = detecting.parse (s ++ "\n" ++ l) ∧
      detecting.tryParse (s ++ "\n" ++ l ++ "\n" ++ l) = detecting.tryParse (s ++ "\n" ++ l) := by
  intro s l
  have hflow : detecting.dialectOf? (s ++ "\n" ++ l) = some .flow := by decide +kernel
  have hlabeled : ∀ link ∈ (Flow.chains l.toList).flatMap Flow.Chain.links,
      link.arrow.label.isSome = true := by decide +kernel
  exact ⟨hflow, hlabeled, Parser.parse_repeated_labels hflow hlabeled⟩

end TextDiagram
