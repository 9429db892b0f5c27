import Mathlib.Data.List.Basic
import TextDiagram.Proofs.Declarations
import TextDiagram.Proofs.Parse

/-!
# The graph of a flowchart

What a flowchart says can be read off its chains without running any step: the labeled nodes, the
links without a label and the links with one, each in the order of the text. The passes of the
assembly agree with that reading, in whatever way the three are mixed in the text.
-/

namespace TextDiagram.Flow

def chainsOf (fragments : List Fragment) : List Chain :=
  fragments.filterMap Fragment.chain?

def chains (source : List Char) : List Chain :=
  chainsOf ((statements source).filterMap (Rule.meaning? rules))

def Link.ends (l : Link) : String × String :=
  (l.source, l.target)

def Link.edge (l : Link) (label : Option String) : Edge :=
  { source := l.source, target := l.target, kind := l.arrow.style, label }

/-- The nodes that have a label, each as its id and the label. -/
def labeledNodes (cs : List Chain) : List (String × String) :=
  (cs.flatMap Chain.nodes).filterMap fun n => n.label.map fun label => (n.id, label)

def plainLinks (cs : List Chain) : List Link :=
  (cs.flatMap Chain.links).filter fun l => l.arrow.label.isNone

def labeledLinks (cs : List Chain) : List Link :=
  (cs.flatMap Chain.links).filter fun l => l.arrow.label.isSome

theorem labeledNodes_append (cs ds : List Chain) :
    labeledNodes (cs ++ ds) = labeledNodes cs ++ labeledNodes ds := by
  rw [labeledNodes, List.flatMap_append, List.filterMap_append, labeledNodes, labeledNodes]

theorem plainLinks_append (cs ds : List Chain) :
    plainLinks (cs ++ ds) = plainLinks cs ++ plainLinks ds := by
  rw [plainLinks, List.flatMap_append, List.filter_append, plainLinks, plainLinks]

theorem labeledLinks_append (cs ds : List Chain) :
    labeledLinks (cs ++ ds) = labeledLinks cs ++ labeledLinks ds := by
  rw [labeledLinks, List.flatMap_append, List.filter_append, labeledLinks, labeledLinks]

/-- The first labeled link of each pair of nodes that no plain link joins. -/
def furtherLinks (plain labeled : List Link) : List Link :=
  (labeled.filter fun l => l.ends ∉ plain.map Link.ends).eraseDupsBy fun l k => l.ends = k.ends

/-- The last label that links between the two nodes have. -/
def lastLabel? (links : List Link) (ends : String × String) : Option String :=
  ((links.filter fun l => l.ends = ends).filterMap fun l => l.arrow.label).getLast?

/-- One edge for each plain link, then one for each further pair. The first edge of a pair carries
the last label of the pair, and no other edge has a label. -/
structure EdgesRead (plain labeled : List Link) (edges : List Edge) : Prop where
  links : edges.map (fun e => (e.ends, e.kind)) =
    (plain ++ furtherLinks plain labeled).map fun l => (l.ends, l.arrow.style)
  labels : ∀ i e, edges[i]? = some e →
    e.label = if e.ends ∈ (edges.take i).map Edge.ends then none else lastLabel? labeled e.ends

/-- The graph that the chains describe: one node for each labeled id, in the order of first
occurrences, then one for each endpoint of an edge that has no label anywhere. -/
structure Reads (cs : List Chain) (g : Graph) : Prop where
  edges : EdgesRead (plainLinks cs) (labeledLinks cs) g.edges
  nodes : g.nodes =
    ((labeledNodes cs).map Prod.fst).eraseDups.map (fun id =>
      { id
        label := shownLabel id (((labeledNodes cs).filter fun n => n.1 = id).map Prod.snd)
        kind := .node }) ++
    ((g.edges.flatMap fun e => [e.source, e.target]).removeAll
      ((labeledNodes cs).map Prod.fst)).eraseDups.map fun id => Node.unlabeled id .implicit

/-! ### Edges -/

theorem eraseDupsBy_concat {α κ : Type} [DecidableEq κ] (key : α → κ) (xs : List α) (x : α) :
    (xs ++ [x]).eraseDupsBy (fun a b => key a = key b) =
      xs.eraseDupsBy (fun a b => key a = key b) ++
        if key x ∈ xs.map key then [] else [x] := by
  induction h : xs.length using Nat.strongRecOn generalizing xs with
  | ind n ih =>
      cases xs with
      | nil => simp [List.eraseDupsBy_cons]
      | cons y xs =>
          have hshorter : (xs.filter fun z => decide (key z = key y) = false).length < n := by
            have := List.length_filter_le (fun z => decide (decide (key z = key y) = false)) xs
            simp only [List.length_cons] at h
            omega
          rw [List.cons_append, List.eraseDupsBy_cons, List.eraseDupsBy_cons, List.filter_append,
            List.cons_append]
          by_cases hxy : key x = key y
          · simp [hxy]
          · have hmem : key x ∈ (xs.filter fun z => decide (key z = key y) = false).map key ↔
                key x ∈ (y :: xs).map key := by
              simp only [List.map_cons, List.mem_cons, hxy, false_or, List.mem_map, List.mem_filter]
              constructor
              · rintro ⟨z, ⟨hz, _⟩, hzx⟩
                exact ⟨z, hz, hzx⟩
              · rintro ⟨z, hz, hzx⟩
                exact ⟨z, ⟨hz, by simp [hzx, hxy]⟩, hzx⟩
            have hone : [x].filter (fun z => decide (key z = key y) = false) = [x] := by simp [hxy]
            rw [hone, ih _ hshorter _ rfl]
            simp only [hmem]

theorem furtherLinks_concat (plain labeled : List Link) (l : Link) :
    furtherLinks plain (labeled ++ [l]) = furtherLinks plain labeled ++
      if l.ends ∈ plain.map Link.ends ∨ l.ends ∈ labeled.map Link.ends then [] else [l] := by
  unfold furtherLinks
  by_cases hplain : l.ends ∈ plain.map Link.ends
  · have hnone : [l].filter (fun l => l.ends ∉ plain.map Link.ends) = [] := by
      simp only [List.filter, hplain, not_true_eq_false, decide_false]
    rw [List.filter_append, hnone, List.append_nil, if_pos (Or.inl hplain), List.append_nil]
  · have hone : [l].filter (fun l => l.ends ∉ plain.map Link.ends) = [l] := by
      simp only [List.filter, hplain, not_false_eq_true, decide_true]
    rw [List.filter_append, hone, eraseDupsBy_concat Link.ends]
    have hmem : l.ends ∈ (labeled.filter fun l => l.ends ∉ plain.map Link.ends).map Link.ends ↔
        l.ends ∈ labeled.map Link.ends := by
      simp only [List.mem_map, List.mem_filter]
      constructor
      · rintro ⟨k, ⟨hk, _⟩, hkl⟩
        exact ⟨k, hk, hkl⟩
      · rintro ⟨k, hk, hkl⟩
        refine ⟨k, ⟨hk, ?_⟩, hkl⟩
        rw [hkl]
        simpa using hplain
    simp only [hmem, hplain, false_or]

theorem mem_ends_furtherLinks (plain labeled : List Link) (ends : String × String) :
    ends ∈ (plain ++ furtherLinks plain labeled).map Link.ends ↔
      ends ∈ plain.map Link.ends ∨ ends ∈ labeled.map Link.ends := by
  induction labeled using List.reverseRecOn with
  | nil => simp [furtherLinks]
  | append_singleton labeled l ih =>
      rw [furtherLinks_concat, ← List.append_assoc, List.map_append, List.mem_append, ih,
        List.map_append, List.mem_append]
      by_cases hknown : l.ends ∈ plain.map Link.ends ∨ l.ends ∈ labeled.map Link.ends
      · rw [if_pos hknown]
        simp only [List.map_nil, List.not_mem_nil, or_false, List.map_cons, List.mem_singleton]
        constructor
        · rintro (h | h)
          · exact Or.inl h
          · exact Or.inr (Or.inl h)
        · rintro (h | h | rfl)
          · exact Or.inl h
          · exact Or.inr h
          · exact hknown
      · rw [if_neg hknown, or_assoc]

theorem lastLabel?_concat {l : Link} {text : String} (hl : l.arrow.label = some text)
    (labeled : List Link) (ends : String × String) :
    lastLabel? (labeled ++ [l]) ends =
      if l.ends = ends then some text else lastLabel? labeled ends := by
  by_cases h : l.ends = ends <;> simp [lastLabel?, List.filter_append, h, hl]

namespace EdgesRead

variable {plain labeled : List Link} {edges : List Edge}

theorem map_ends (h : EdgesRead plain labeled edges) :
    edges.map Edge.ends = (plain ++ furtherLinks plain labeled).map Link.ends := by
  have hlinks := congrArg (List.map Prod.fst) h.links
  simpa only [List.map_map, Function.comp_def] using hlinks

theorem mem_ends_iff (h : EdgesRead plain labeled edges) (ends : String × String) :
    ends ∈ edges.map Edge.ends ↔ ends ∈ plain.map Link.ends ∨ ends ∈ labeled.map Link.ends := by
  rw [h.map_ends, mem_ends_furtherLinks]

theorem of_plain (plain : List Link) :
    EdgesRead plain [] (plain.map fun l => l.edge none) where
  links := by simp [furtherLinks, Edge.ends, Link.ends, Link.edge]
  labels := by
    intro i e he
    obtain ⟨l, _, rfl⟩ := List.mem_map.mp (List.mem_of_getElem? he)
    simp [lastLabel?, Link.edge]

/-- A pair of nodes occurs in front of a place exactly if its first edge does. -/
theorem mem_ends_take_iff {ends : String × String} {k : Nat}
    (hk : (edges.findIdx? fun e => e.ends = ends) = some k) (i : Nat) :
    ends ∈ (edges.take i).map Edge.ends ↔ k < i := by
  obtain ⟨hlt, hends, hfirst⟩ := List.findIdx?_eq_some_iff_getElem.mp hk
  simp only [decide_eq_true_eq] at hends hfirst
  constructor
  · intro hmem
    obtain ⟨e, he, heq⟩ := List.mem_map.mp hmem
    obtain ⟨j, hj, rfl⟩ := List.mem_take_iff_getElem.mp he
    have hkj : k ≤ j := Nat.le_of_not_lt fun hjk => hfirst j hjk heq
    omega
  · intro hki
    have hmem : edges[k] ∈ edges.take i :=
      List.mem_take_iff_getElem.mpr ⟨k, by omega, rfl⟩
    exact List.mem_map.mpr ⟨edges[k], hmem, hends⟩

/-- The new label goes to the first edge of its pair and leaves all other labels alone. -/
theorem labels_modify {l : Link} {text : String} (h : EdgesRead plain labeled edges)
    (hl : l.arrow.label = some text) {k : Nat}
    (hk : (edges.findIdx? fun e => e.ends = l.ends) = some k) {i : Nat} {e : Edge}
    (he : (edges.modify k fun e => e.setLabel text)[i]? = some e) :
    e.label = if e.ends ∈ (edges.take i).map Edge.ends then none
      else lastLabel? (labeled ++ [l]) e.ends := by
  obtain ⟨hlt, hkends, _⟩ := List.findIdx?_eq_some_iff_getElem.mp hk
  simp only [decide_eq_true_eq] at hkends
  rw [List.getElem?_modify] at he
  obtain ⟨old, hold, rfl⟩ := Option.map_eq_some_iff.mp he
  by_cases hki : k = i
  · subst hki
    rw [List.getElem?_eq_getElem hlt, Option.some.injEq] at hold
    have hends : (old.setLabel text).ends = l.ends := by
      rw [Edge.ends_setLabel, ← hold, hkends]
    have hfirst : l.ends ∉ (edges.take k).map Edge.ends := by
      rw [mem_ends_take_iff hk]
      exact Nat.lt_irrefl k
    rw [if_pos rfl, hends, if_neg hfirst, lastLabel?_concat hl, if_pos rfl]
    rfl
  · rw [if_neg hki, h.labels i old hold, lastLabel?_concat hl]
    by_cases hends : l.ends = old.ends
    · obtain ⟨hi, heq⟩ := List.getElem?_eq_some_iff.mp hold
      have hmem : l.ends ∈ (edges.take (i + 1)).map Edge.ends := by
        rw [hends, ← heq]
        exact List.mem_map_of_mem (List.mem_take_iff_getElem.mpr ⟨i, by omega, rfl⟩)
      have hearlier : old.ends ∈ (edges.take i).map Edge.ends := by
        rw [← hends, mem_ends_take_iff hk]
        have := (mem_ends_take_iff hk (i + 1)).mp hmem
        omega
      rw [if_pos hearlier, if_pos hearlier]
    · rw [if_neg hends]

/-- An edge of a new pair comes last and is the first of its pair. -/
theorem labels_concat {l : Link} {text : String} (h : EdgesRead plain labeled edges)
    (hl : l.arrow.label = some text) (hnew : l.ends ∉ edges.map Edge.ends) {i : Nat} {e : Edge}
    (he : (edges ++ [l.edge (some text)])[i]? = some e) :
    e.label = if e.ends ∈ ((edges ++ [l.edge (some text)]).take i).map Edge.ends then none
      else lastLabel? (labeled ++ [l]) e.ends := by
  rw [lastLabel?_concat hl]
  by_cases hi : i < edges.length
  · rw [List.getElem?_append_left hi] at he
    have hends : l.ends ≠ e.ends := by
      intro heq
      exact hnew (heq ▸ List.mem_map_of_mem (List.mem_of_getElem? he))
    rw [List.take_append_of_le_length (Nat.le_of_lt hi), if_neg hends]
    exact h.labels i e he
  · rw [List.getElem?_append_right (Nat.le_of_not_lt hi), List.getElem?_singleton] at he
    obtain ⟨hzero, heq⟩ := Option.ite_none_right_eq_some.mp he
    obtain rfl := Option.some.inj heq
    have hlast : i = edges.length := by omega
    have hends : (l.edge (some text)).ends = l.ends := rfl
    rw [hlast, List.take_left, hends, if_neg hnew, if_pos rfl]
    rfl

/-- Labeling the first edge of a pair, or else adding it, reads one labeled link more. -/
theorem onEdges_label {l : Link} {text : String} (h : EdgesRead plain labeled edges)
    (hl : l.arrow.label = some text) :
    EdgesRead plain (labeled ++ [l])
      ((Step.label l.source l.target text l.arrow.style).onEdges edges) := by
  have hends : (l.source, l.target) = l.ends := rfl
  simp only [Step.onEdges, hends]
  cases hfind : edges.findIdx? fun e => e.ends = l.ends with
  | some k =>
      obtain ⟨hk, hkends, _⟩ := List.findIdx?_eq_some_iff_getElem.mp hfind
      have hmem : l.ends ∈ edges.map Edge.ends :=
        List.mem_map.mpr ⟨edges[k], List.getElem_mem hk, by simpa using hkends⟩
      refine ⟨?_, ?_⟩
      · rw [map_ends_kind_modify, h.links, furtherLinks_concat,
          if_pos ((h.mem_ends_iff l.ends).mp hmem), List.append_nil]
      · intro i e he
        have htake : ((edges.modify k fun e => e.setLabel text).take i).map Edge.ends =
            (edges.take i).map Edge.ends := by
          rw [List.map_take, List.map_take, map_modify_eq fun e => Edge.ends_setLabel e text]
        rw [htake]
        exact h.labels_modify hl hfind he
  | none =>
      have hnew : l.ends ∉ edges.map Edge.ends := by
        intro hmem
        obtain ⟨e, he, heq⟩ := List.mem_map.mp hmem
        have := List.findIdx?_eq_none_iff.mp hfind e he
        simp [heq] at this
      refine ⟨?_, fun i e he => h.labels_concat hl hnew he⟩
      have hunknown := (not_congr (h.mem_ends_iff l.ends)).mp hnew
      rw [List.map_append, h.links, furtherLinks_concat, if_neg hunknown]
      simp only [List.map_append, List.append_assoc]
      rfl

theorem foldl_label {seen : List Link} (h : EdgesRead plain seen edges) (labeled : List Link)
    (hlabeled : ∀ l ∈ labeled, l.arrow.label.isSome = true) :
    EdgesRead plain (seen ++ labeled)
      ((labeled.filterMap labelLink?).foldl (fun edges step => step.onEdges edges) edges) := by
  induction labeled generalizing seen edges with
  | nil => simpa using h
  | cons l labeled ih =>
      obtain ⟨text, hl⟩ := Option.isSome_iff_exists.mp (hlabeled l (by simp))
      have hstep : labelLink? l = some (.label l.source l.target text l.arrow.style) := by
        simp [labelLink?, hl]
      have hrest := ih (h.onEdges_label hl) fun k hk => hlabeled k (by simp [hk])
      rw [List.filterMap_cons_some hstep, List.foldl_cons]
      simpa using hrest

end EdgesRead

/-! ### Steps -/

def labeledNode (n : String × String) : Node :=
  { id := n.1, label := n.2, kind := .node }

theorem joined_labeledNode (first : String × String) (ns : List (String × String)) :
    (labeledNode first).joined (ns.map labeledNode) =
      { id := first.1, label := shownLabel first.1 (ns.map Prod.snd), kind := .node } := by
  have hlabel : ∀ n ∈ ns, (labeledNode n).label = (some n.2).getD (labeledNode first).id := by
    intro n _
    rfl
  have hlabels : ns.filterMap (fun n => some n.2) = ns.map Prod.snd :=
    congrFun List.filterMap_eq_map' ns
  have hnone : ns.flatMap (fun _ => ([] : List Member)) = [] := by simp
  rw [Node.joined_map hlabel fun _ => rfl, hlabels]
  simp only [labeledNode, hnone]

/-- The steps of a flowchart, from the three lists that make up its reading. -/
theorem steps_eq (fragments : List Fragment) :
    steps fragments =
      (((labeledNodes (chainsOf fragments)).map labeledNode).map Step.declare ++
        ((plainLinks (chainsOf fragments)).map fun l => l.edge none).map
          Step.connect) ++
        (labeledLinks (chainsOf fragments)).filterMap labelLink? := by
  have hplain : ∀ links : List Link, links.filterMap connectLink? =
      ((links.filter fun l => l.arrow.label.isNone).map fun l => l.edge none).map Step.connect := by
    intro links
    induction links with
    | nil => rfl
    | cons l links ih => cases hl : l.arrow.label <;> simp [connectLink?, hl, ih, Link.edge]
  have hlabeled : ∀ links : List Link, links.filterMap labelLink? =
      (links.filter fun l => l.arrow.label.isSome).filterMap labelLink? := by
    intro links
    induction links with
    | nil => rfl
    | cons l links ih => cases hl : l.arrow.label <;> simp [labelLink?, hl, ih]
  have hnodes : ∀ nodes : List NodeRef, nodes.filterMap declareNode? =
      ((nodes.filterMap fun n => n.label.map fun label => (n.id, label)).map labeledNode).map
        Step.declare := by
    intro nodes
    induction nodes with
    | nil => rfl
    | cons n nodes ih => cases hn : n.label <;> simp [declareNode?, labeledNode, hn, ih]
  simp only [steps]
  rw [hnodes, hplain, hlabeled]
  rfl

theorem nodeId?_of_labelLink? {l : Link} {step : Step} (h : labelLink? l = some step) :
    step.nodeId? = none ∧ ∀ id node?, step.onNode id node? = node? := by
  obtain ⟨text, _, rfl⟩ := Option.map_eq_some_iff.mp h
  exact ⟨rfl, fun _ _ => rfl⟩

theorem keys_run_steps (fragments : List Fragment) :
    (Assembly.empty.run (steps fragments)).nodes.keys =
      ((labeledNodes (chainsOf fragments)).map Prod.fst).eraseDups := by
  have hlabels : ∀ links : List Link,
      (links.filterMap labelLink?).filterMap Step.nodeId? = [] := by
    intro links
    rw [List.filterMap_eq_nil_iff]
    intro step hstep
    obtain ⟨l, _, hl⟩ := List.mem_filterMap.mp hstep
    exact (nodeId?_of_labelLink? hl).1
  rw [Assembly.keys_run_empty, steps_eq, List.filterMap_append, hlabels, List.append_nil]
  simp [List.filterMap_map, Function.comp_def, Step.nodeId?, labeledNode]

theorem get?_run_steps (fragments : List Fragment) (id : String)
    (hid : id ∈ (labeledNodes (chainsOf fragments)).map Prod.fst) :
    (Assembly.empty.run (steps fragments)).nodes.get? id =
      some {
        id
        label := shownLabel id (((labeledNodes (chainsOf fragments)).filter
          fun n => n.1 = id).map Prod.snd)
        kind := .node } := by
  rw [Assembly.get?_run, steps_eq]
  generalize labeledNodes (chainsOf fragments) = nodes at hid ⊢
  generalize plainLinks (chainsOf fragments) = plain
  generalize labeledLinks (chainsOf fragments) = labeled
  have hidle : ∀ (node? : Option Node), ∀ step ∈ labeled.filterMap labelLink?,
      step.onNode id node? = node? := by
    intro node? step hstep
    obtain ⟨l, _, hl⟩ := List.mem_filterMap.mp hstep
    exact (nodeId?_of_labelLink? hl).2 id node?
  have hnone : Assembly.empty.nodes.get? id = none := rfl
  obtain ⟨first, hfirst, hdeclared⟩ := Step.foldl_onNode_declare_of_mem
    labeledNode Prod.fst (fun _ => rfl) (fun _ => rfl) hid
  have hfirstId : first.1 = id := by simpa using List.find?_some hfirst
  rw [List.foldl_append, List.foldl_append, Step.foldl_onNode_of_idle (hidle _),
    Step.foldl_onNode_connect, hnone, hdeclared, joined_labeledNode, hfirstId]

theorem edgesRead_run_steps (fragments : List Fragment) :
    EdgesRead (plainLinks (chainsOf fragments))
      (labeledLinks (chainsOf fragments))
      (Assembly.empty.run (steps fragments)).edges := by
  rw [Assembly.edges_run Assembly.coherent_empty, steps_eq]
  generalize labeledNodes (chainsOf fragments) = nodes
  have hlabeled : ∀ l ∈ labeledLinks (chainsOf fragments),
      l.arrow.label.isSome = true := fun l hl => (List.mem_filter.mp hl).2
  have hnone : Assembly.empty.edges = [] := rfl
  rw [List.foldl_append, List.foldl_append, Step.foldl_onEdges_declare,
    Step.foldl_onEdges_connect, hnone, List.nil_append]
  simpa using (EdgesRead.of_plain _).foldl_label _ hlabeled

/-! ### Texts -/

theorem keys_scan (source : List Char) :
    (Dialect.flow.scan source).nodes.keys =
      ((labeledNodes (chains source)).map Prod.fst).eraseDups :=
  keys_run_steps _

theorem get?_scan {source : List Char} {id : String}
    (hid : id ∈ (labeledNodes (chains source)).map Prod.fst) :
    (Dialect.flow.scan source).nodes.get? id =
      some {
        id
        label := shownLabel id (((labeledNodes (chains source)).filter
          fun n => n.1 = id).map Prod.snd)
        kind := .node } :=
  get?_run_steps _ id hid

theorem edgesRead_scan (source : List Char) :
    EdgesRead (plainLinks (chains source)) (labeledLinks (chains source))
      (Dialect.flow.scan source).edges :=
  edgesRead_run_steps _

/-- A text that is parsed as a flowchart has the graph that its chains describe. -/
theorem parse_reads_chains {p : Parser} {source : String}
    (h : p.dialectOf? source = some .flow) : Reads (chains source.toList) (p.parse source) := by
  have hscan : Dialect.flow.scan source.toList = Assembly.empty.run
      (steps ((statements source.toList).filterMap (Rule.meaning? rules))) := rfl
  have hkeys := keys_run_steps ((statements source.toList).filterMap (Rule.meaning? rules))
  rw [← hscan] at hkeys
  rw [Parser.parse_eq_graph h]
  refine ⟨?_, ?_⟩
  · rw [Dialect.graph_edges, hscan]
    exact edgesRead_run_steps _
  · have hvalues : (Dialect.flow.scan source.toList).nodes.values = _ :=
      OrderedMap.values_eq_map (Dialect.flow.coherent_scan source.toList).keys_nodup (by
        intro id hid
        rw [hkeys, List.mem_eraseDups] at hid
        exact get?_run_steps _ id hid)
    rw [Dialect.graph_nodes, hvalues, hkeys, Dialect.graph_edges, removeAll_eraseDups]
    rfl

/-- Labels come before and after the edges that they belong to, two of them for one edge. -/
theorem parse_reads_chains_labels_first :
    Parser.detecting.dialectOf? "flowchart LR\nA -- x --> B\nA[a] --> B ==> B\nA -->|z| B[b]" =
        some .flow ∧
      Reads (chains "flowchart LR\nA -- x --> B\nA[a] --> B ==> B\nA -->|z| B[b]".toList)
        (Parser.detecting.parse "flowchart LR\nA -- x --> B\nA[a] --> B ==> B\nA -->|z| B[b]") :=
  ⟨by decide +kernel, parse_reads_chains (by decide +kernel)⟩

end TextDiagram.Flow
