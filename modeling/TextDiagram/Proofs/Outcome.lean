import TextDiagram.Proofs.FlowAssembly
import TextDiagram.Proofs.NoteIds

/-!
# Outcomes of parsing

Every statement that counts leaves a node or an edge behind, and no other statement ever does. So a
text is parsed with success exactly if one of its statements counts in the dialect, and the graph of
a success has a node.
-/

namespace TextDiagram

open Text

/-! ### Steps that leave something behind -/

/-- Whether the step adds to an assembly in which there is nothing yet. -/
def Step.adds : Step → Bool
  | stereotype .. => false
  | _ => true

theorem Step.onEdges_eq_nil_iff (step : Step) (edges : List Edge) :
    step.onEdges edges = [] ↔ edges = [] ∧ (step.adds = false ∨ step.nodeId?.isSome) := by
  cases step with
  | declare n => simp [onEdges, adds, nodeId?]
  | synthesize id kind => simp [onEdges, adds, nodeId?]
  | connect e => simp [onEdges, adds, nodeId?]
  | label source target text kind =>
      cases edges with
      | nil => simp [onEdges, adds, nodeId?]
      | cons e edges =>
          simp only [onEdges, reduceCtorEq, false_and, iff_false]
          split
          · rw [← List.length_eq_zero_iff, List.length_modify]
            simp
          · simp
  | stereotype id text => simp [onEdges, adds]

theorem Step.foldl_onEdges_eq_nil_iff (steps : List Step) (edges : List Edge) :
    steps.foldl (fun edges step => step.onEdges edges) edges = [] ↔
      edges = [] ∧ ∀ step ∈ steps, step.adds = false ∨ step.nodeId?.isSome := by
  induction steps generalizing edges with
  | nil => simp
  | cons step steps ih =>
      rw [List.foldl_cons, ih, onEdges_eq_nil_iff, List.forall_mem_cons, and_assoc]

namespace Assembly

theorem isEmpty_iff (a : Assembly) : a.isEmpty = true ↔ a.nodes.keys = [] ∧ a.edges = [] := by
  simp [isEmpty, OrderedMap.keys]

theorem keys_run_empty_eq_nil_iff (steps : List Step) :
    (empty.run steps).nodes.keys = [] ↔ ∀ step ∈ steps, step.nodeId? = none := by
  rw [keys_run_empty, List.eq_nil_iff_forall_not_mem]
  simp only [List.mem_eraseDups]
  rw [← List.eq_nil_iff_forall_not_mem, List.filterMap_eq_nil_iff]

theorem edges_run_empty_eq_nil_iff (steps : List Step) :
    (empty.run steps).edges = [] ↔ ∀ step ∈ steps, step.adds = false ∨ step.nodeId?.isSome := by
  have hnone : empty.edges = [] := rfl
  rw [edges_run coherent_empty, Step.foldl_onEdges_eq_nil_iff, hnone]
  exact and_iff_right rfl

/-- A run from nothing leaves something behind exactly if one of its steps adds. -/
theorem isEmpty_run_empty (steps : List Step) :
    (empty.run steps).isEmpty = false ↔ ∃ step ∈ steps, step.adds = true := by
  rw [← Bool.not_eq_true, isEmpty_iff, keys_run_empty_eq_nil_iff, edges_run_empty_eq_nil_iff]
  constructor
  · intro h
    by_contra hnone
    have hidle : ∀ step ∈ steps, step.adds = false := by
      intro step hstep
      by_contra hadds
      exact hnone ⟨step, hstep, by simpa using hadds⟩
    refine h ⟨?_, fun step hstep => Or.inl (hidle step hstep)⟩
    intro step hstep
    cases step with
    | stereotype id text => rfl
    | _ => exact absurd (hidle _ hstep) (by simp [Step.adds])
  · rintro ⟨step, hstep, hadds⟩ ⟨hids, hedges⟩
    rcases hedges step hstep with hidle | hsome
    · rw [hidle] at hadds
      exact Bool.false_ne_true hadds
    · rw [hids step hstep] at hsome
      exact Bool.false_ne_true hsome

end Assembly

/-! ### Statements that count -/

namespace Flow

/-- Only chains count. -/
def Fragment.counts : Fragment → Bool
  | directive => false
  | chain _ => true

theorem chain_of_meaning? {s : List Char} {c : Chain}
    (h : Rule.meaning? rules s = some (.chain c)) : ∃ rest, chain s = some (c, rest) := by
  obtain ⟨⟨name, f⟩, hrule, rfl⟩ := Option.map_eq_some_iff.mp h
  obtain ⟨rule, hmem, hread⟩ := List.exists_of_findSome?_eq_some hrule
  obtain ⟨g, hg, hpair⟩ := Option.map_eq_some_iff.mp hread
  obtain rfl := (Prod.mk.inj hpair).2
  simp only [rules, List.mem_cons, List.not_mem_nil, or_false] at hmem
  rcases hmem with rfl | rfl | rfl
  · obtain ⟨_, _, hdirective⟩ := Option.map_eq_some_iff.mp hg
    exact absurd hdirective (by simp)
  · obtain ⟨_, _, hdirective⟩ := Option.map_eq_some_iff.mp hg
    exact absurd hdirective (by simp)
  · simp only [Rule.ofMatcher, Option.map_map, Option.map_eq_some_iff, Function.comp_apply] at hg
    obtain ⟨⟨d, rest⟩, hd, hcd⟩ := hg
    obtain rfl := Fragment.chain.inj hcd
    exact ⟨rest, hd⟩

/-- A chain has a link, or else its only node has a label. -/
theorem links_ne_nil_or_label_isSome {s rest : List Char} {c : Chain}
    (h : chain s = some (c, rest)) : c.links ≠ [] ∨ c.first.label.isSome = true := by
  obtain ⟨⟨first, t⟩, _, h⟩ := Option.bind_eq_some_iff.mp h
  simp only [Option.ite_none_left_eq_some, Option.some.injEq, Prod.mk.injEq] at h
  obtain ⟨hcounts, rfl, _⟩ := h
  cases hsteps : (chainSteps t).1 with
  | nil => exact Or.inr (by simpa [hsteps, Option.isSome_iff_ne_none] using hcounts)
  | cons step steps => exact Or.inl (by simp [Chain.links, Chain.linksFrom])

theorem exists_adds_steps_iff {fs : List Fragment}
    (hchains : ∀ c ∈ chainsOf fs, c.links ≠ [] ∨ c.first.label.isSome = true) :
    (∃ step ∈ steps fs, step.adds = true) ↔ ∃ f ∈ fs, f.counts = true := by
  constructor
  · rintro ⟨step, hstep, _⟩
    by_contra hnone
    have hchainsOf : fs.filterMap Fragment.chain? = [] := by
      rw [List.filterMap_eq_nil_iff]
      intro f hf
      cases f with
      | directive => rfl
      | chain c => exact absurd ⟨_, hf, rfl⟩ hnone
    simp [steps, hchainsOf] at hstep
  · rintro ⟨f, hf, hcounts⟩
    cases f with
    | directive => exact absurd hcounts (by decide)
    | chain c =>
        have hc : c ∈ chainsOf fs := List.mem_filterMap.mpr ⟨_, hf, rfl⟩
        rcases hchains c hc with hlinks | hlabel
        · obtain ⟨l, hl⟩ := List.exists_mem_of_ne_nil _ hlinks
          have hlink : l ∈ (chainsOf fs).flatMap Chain.links := List.mem_flatMap.mpr ⟨c, hc, hl⟩
          cases harrow : l.arrow.label with
          | none =>
              refine ⟨.connect (l.edge none), ?_, rfl⟩
              apply List.mem_append_left
              apply List.mem_append_right
              exact List.mem_filterMap.mpr ⟨l, hlink, by simp [connectLink?, harrow, Link.edge]⟩
          | some text =>
              refine ⟨.label l.source l.target text l.arrow.style, ?_, rfl⟩
              apply List.mem_append_right
              exact List.mem_filterMap.mpr ⟨l, hlink, by simp [labelLink?, harrow]⟩
        · obtain ⟨label, hlabel⟩ := Option.isSome_iff_exists.mp hlabel
          have hnode : c.first ∈ (chainsOf fs).flatMap Chain.nodes :=
            List.mem_flatMap.mpr ⟨c, hc, List.mem_cons_self⟩
          refine ⟨.declare { id := c.first.id, label, kind := .node }, ?_, rfl⟩
          apply List.mem_append_left
          apply List.mem_append_left
          exact List.mem_filterMap.mpr ⟨c.first, hnode, by simp [declareNode?, hlabel]⟩

end Flow

namespace Sequence

/-- Declarations, messages and notes count. -/
def Fragment.counts : Fragment → Bool
  | directive => false
  | declaration _ | message _ | note _ => true

theorem counts_of_mem_filterMap {α : Type} {part? : Fragment → Option α} {fs : List Fragment} {a : α}
    (hpart : part? .directive = none) (ha : a ∈ fs.filterMap part?) :
    ∃ f ∈ fs, f.counts = true := by
  obtain ⟨f, hf, hfa⟩ := List.mem_filterMap.mp ha
  refine ⟨f, hf, ?_⟩
  cases f with
  | directive => simp [hpart] at hfa
  | _ => rfl

theorem exists_adds_steps_iff (fs : List Fragment) :
    (∃ step ∈ steps fs, step.adds = true) ↔ ∃ f ∈ fs, f.counts = true := by
  constructor
  · rintro ⟨step, hstep, _⟩
    simp only [steps, List.mem_append] at hstep
    rcases hstep with (hstep | hstep) | hstep
    · obtain ⟨d, hd, _⟩ := List.mem_map.mp hstep
      rcases List.mem_append.mp hd with hd | hd
      · exact counts_of_mem_filterMap rfl (List.mem_of_mem_filter hd)
      · exact counts_of_mem_filterMap rfl (List.mem_of_mem_filter hd)
    · obtain ⟨m, hm, _⟩ := List.mem_flatMap.mp hstep
      exact counts_of_mem_filterMap rfl hm
    · obtain ⟨p, hp, _⟩ := List.mem_map.mp hstep
      have hn : p.2 ∈ (numberNotes (roles fs) 0 (notes fs)).map Prod.snd := List.mem_map_of_mem hp
      rw [map_snd_numberNotes] at hn
      exact counts_of_mem_filterMap rfl hn
  · rintro ⟨f, hf, hcounts⟩
    cases f with
    | directive => exact absurd hcounts (by decide)
    | declaration d =>
        have hd : d ∈ fs.filterMap Fragment.declaration? := List.mem_filterMap.mpr ⟨_, hf, rfl⟩
        have hdeclared : d ∈ declarations fs := by
          cases hrole : d.role <;> simp [declarations, hd, hrole]
        refine ⟨.declare d.node, ?_, rfl⟩
        apply List.mem_append_left
        apply List.mem_append_left
        exact List.mem_map_of_mem hdeclared
    | message m =>
        have hm : m ∈ messages fs := List.mem_filterMap.mpr ⟨_, hf, rfl⟩
        refine ⟨.synthesize m.left .implicitParticipant, ?_, rfl⟩
        apply List.mem_append_left
        apply List.mem_append_right
        exact List.mem_flatMap.mpr ⟨m, hm, List.mem_cons_self⟩
    | note n =>
        have hn : n ∈ notes fs := List.mem_filterMap.mpr ⟨_, hf, rfl⟩
        rw [← map_snd_numberNotes (roles fs) 0 (notes fs)] at hn
        obtain ⟨p, hp, rfl⟩ := List.mem_map.mp hn
        refine ⟨.declare (p.2.node (noteId p.1)), ?_, rfl⟩
        apply List.mem_append_right
        exact List.mem_map.mpr ⟨p, hp, rfl⟩

end Sequence

namespace Class

/-- Classes, relations and members count. -/
def Fragment.counts : Fragment → Bool
  | directive | stereotyped .. => false
  | declaration _ | relation _ | member .. => true

theorem counts_of_mem_filterMap {α : Type} {part? : Fragment → Option α} {fs : List Fragment} {a : α}
    (hdirective : part? .directive = none) (hstereotyped : ∀ id text, part? (.stereotyped id text) = none)
    (ha : a ∈ fs.filterMap part?) : ∃ f ∈ fs, f.counts = true := by
  obtain ⟨f, hf, hfa⟩ := List.mem_filterMap.mp ha
  refine ⟨f, hf, ?_⟩
  cases f with
  | directive => simp [hdirective] at hfa
  | stereotyped id text => simp [hstereotyped] at hfa
  | _ => rfl

theorem exists_adds_steps_iff (fs : List Fragment) :
    (∃ step ∈ steps fs, step.adds = true) ↔ ∃ f ∈ fs, f.counts = true := by
  constructor
  · rintro ⟨step, hstep, hadds⟩
    simp only [steps, List.mem_append] at hstep
    rcases hstep with ((hstep | hstep) | hstep) | hstep
    · obtain ⟨d, hd, _⟩ := List.mem_map.mp hstep
      exact counts_of_mem_filterMap rfl (fun _ _ => rfl) hd
    · obtain ⟨r, hr, _⟩ := List.mem_map.mp hstep
      exact counts_of_mem_filterMap rfl (fun _ _ => rfl) hr
    · obtain ⟨m, hm, _⟩ := List.mem_map.mp hstep
      exact counts_of_mem_filterMap rfl (fun _ _ => rfl) hm
    · obtain ⟨s, _, rfl⟩ := List.mem_map.mp hstep
      exact absurd hadds (by simp [Step.adds])
  · rintro ⟨f, hf, hcounts⟩
    cases f with
    | directive => exact absurd hcounts (by decide)
    | stereotyped id text => exact absurd hcounts (by simp [Fragment.counts])
    | declaration d =>
        have hd : d ∈ declarations fs := List.mem_filterMap.mpr ⟨_, hf, rfl⟩
        refine ⟨.declare d.node, ?_, rfl⟩
        apply List.mem_append_left
        apply List.mem_append_left
        apply List.mem_append_left
        exact List.mem_map.mpr ⟨d, hd, rfl⟩
    | relation r =>
        have hr : r ∈ relations fs := List.mem_filterMap.mpr ⟨_, hf, rfl⟩
        refine ⟨.connect r.edge, ?_, rfl⟩
        apply List.mem_append_left
        apply List.mem_append_left
        apply List.mem_append_right
        exact List.mem_map.mpr ⟨r, hr, rfl⟩
    | member id item =>
        have hm : (id, item) ∈ members fs := List.mem_filterMap.mpr ⟨_, hf, rfl⟩
        refine ⟨.declare (classNode id id [item]), ?_, rfl⟩
        apply List.mem_append_left
        apply List.mem_append_right
        exact List.mem_map.mpr ⟨(id, item), hm, rfl⟩

end Class

namespace Dialect

/-- Some statement of the text is recognized as one that counts. -/
def HasContent (d : Dialect) (source : List Char) : Prop :=
  match d with
  | flow => ∃ s ∈ Flow.statements source,
      ∃ f, Rule.meaning? Flow.rules s = some f ∧ f.counts = true
  | sequence => ∃ s ∈ Sequence.statements source,
      ∃ f, Rule.meaning? Sequence.rules s = some f ∧ f.counts = true
  | classes => ∃ s ∈ Class.statements source,
      ∃ f, Rule.meaning? Class.rules s = some f ∧ f.counts = true

theorem exists_meaning?_iff {α : Type} (rules : List (Rule α)) (counts : α → Bool)
    (statements : List (List Char)) :
    (∃ f ∈ statements.filterMap (Rule.meaning? rules), counts f = true) ↔
      ∃ s ∈ statements, ∃ f, Rule.meaning? rules s = some f ∧ counts f = true := by
  simp only [List.mem_filterMap]
  constructor
  · rintro ⟨f, ⟨s, hs, hf⟩, hcounts⟩
    exact ⟨s, hs, f, hf, hcounts⟩
  · rintro ⟨s, hs, f, hf, hcounts⟩
    exact ⟨f, ⟨s, hs, hf⟩, hcounts⟩

/-- The scan of a text leaves something behind exactly if the text has content. -/
theorem isEmpty_scan_iff (d : Dialect) (source : List Char) :
    (d.scan source).isEmpty = false ↔ d.HasContent source := by
  rw [scan, Assembly.isEmpty_run_empty]
  cases d with
  | flow =>
      refine (Flow.exists_adds_steps_iff ?_).trans (exists_meaning?_iff ..)
      intro c hc
      obtain ⟨f, hf, hfc⟩ := List.mem_filterMap.mp hc
      obtain ⟨s, _, hs⟩ := List.mem_filterMap.mp hf
      cases f with
      | directive => exact absurd hfc (by simp [Flow.Fragment.chain?])
      | chain _ =>
          obtain rfl := Option.some.inj hfc
          obtain ⟨_, hchain⟩ := Flow.chain_of_meaning? hs
          exact Flow.links_ne_nil_or_label_isSome hchain
  | sequence => exact (Sequence.exists_adds_steps_iff _).trans (exists_meaning?_iff ..)
  | classes => exact (Class.exists_adds_steps_iff _).trans (exists_meaning?_iff ..)

/-- Closing an assembly in which there is anything leaves a node in the graph. -/
theorem nodes_graph_ne_nil {d : Dialect} {source : List Char}
    (h : (d.scan source).isEmpty = false) : (d.graph source).nodes ≠ [] := by
  intro hnodes
  rw [graph_nodes, List.append_eq_nil_iff, List.map_eq_nil_iff] at hnodes
  obtain ⟨hvalues, hclosing⟩ := hnodes
  have hentries : (d.scan source).nodes.entries = [] := List.map_eq_nil_iff.mp hvalues
  have hkeys : (d.scan source).nodes.keys = [] := by rw [OrderedMap.keys, hentries, List.map_nil]
  cases hedges : (d.scan source).edges with
  | nil => simp [Assembly.isEmpty, hentries, hedges] at h
  | cons e edges =>
      have hsource : e.source ∈
          ((d.scan source).endpoints.removeAll (d.scan source).nodes.keys).eraseDups := by
        simp [List.mem_eraseDups, List.removeAll, hkeys, Assembly.endpoints, hedges]
      rw [hclosing] at hsource
      exact List.not_mem_nil hsource

/-- Whether there is a graph can be seen on the closed assembly. -/
theorem graph?_eq (d : Dialect) (source : List Char) :
    d.graph? source =
      if (d.graph source).nodes = [] then .error (.emptyExtraction d) else .ok (d.graph source) := by
  cases hempty : (d.scan source).isEmpty with
  | true => simp [graph?, hempty, graph_eq_empty hempty, Graph.empty]
  | false =>
      rw [if_neg (nodes_graph_ne_nil hempty)]
      simp [graph?, hempty, graph]

theorem detect?_eq_none_iff (source : List Char) :
    detect? source = none ↔ ∀ d, ∀ m ∈ markers d, occurs m.toList source = false := by
  rw [detect?_eq_find?_marker?, List.find?_eq_none]
  constructor
  · intro h d m hm
    by_contra hoccurs
    exact h d d.mem_all (marker?_isSome_iff.mpr ⟨m, hm, by simpa using hoccurs⟩)
  · intro h d _ hsome
    obtain ⟨m, hm, hoccurs⟩ := marker?_isSome_iff.mp hsome
    rw [h d m hm] at hoccurs
    exact Bool.false_ne_true hoccurs

end Dialect

namespace Parser

variable {p : Parser} {source : String}

theorem tryParse_eq_graph? {d : Dialect} (hd : p.dialectOf? source = some d) :
    p.tryParse source = d.graph? source.toList := by
  rw [tryParse, hd]

theorem tryParse_of_isEmpty {d : Dialect} (hd : p.dialectOf? source = some d)
    (h : (d.scan source.toList).isEmpty = true) :
    p.tryParse source = .error (.emptyExtraction d) := by
  simp [tryParse, hd, Dialect.graph?, h]

theorem tryParse_of_not_isEmpty {d : Dialect} (hd : p.dialectOf? source = some d)
    (h : (d.scan source.toList).isEmpty = false) :
    p.tryParse source = .ok (d.graph source.toList) := by
  simp [tryParse, hd, Dialect.graph?, h, Dialect.graph]

theorem tryParse_eq_ok_iff {d : Dialect} (hd : p.dialectOf? source = some d) :
    (∃ g, p.tryParse source = .ok g) ↔ d.HasContent source.toList := by
  rw [← Dialect.isEmpty_scan_iff]
  cases hempty : (d.scan source.toList).isEmpty with
  | true => simp [tryParse_of_isEmpty hd hempty]
  | false => simp [tryParse_of_not_isEmpty hd hempty]

theorem tryParse_eq_emptyExtraction_iff {d : Dialect} (hd : p.dialectOf? source = some d) :
    p.tryParse source = .error (.emptyExtraction d) ↔ ¬ d.HasContent source.toList := by
  rw [← Dialect.isEmpty_scan_iff]
  cases hempty : (d.scan source.toList).isEmpty with
  | true => simp [tryParse_of_isEmpty hd hempty]
  | false => simp [tryParse_of_not_isEmpty hd hempty]

theorem tryParse_eq_unsupportedDialect_iff :
    p.tryParse source = .error .unsupportedDialect ↔ p.dialectOf? source = none := by
  cases hd : p.dialectOf? source with
  | none => simp [tryParse, hd]
  | some d =>
      cases hempty : (d.scan source.toList).isEmpty with
      | true => simp [tryParse_of_isEmpty hd hempty]
      | false => simp [tryParse_of_not_isEmpty hd hempty]

theorem dialectOf?_eq_none_iff :
    p.dialectOf? source = none ↔ p.dialect? = none ∧
      ∀ d, ∀ m ∈ Dialect.markers d, occurs m.toList source.toList = false := by
  rw [dialectOf?, Option.or_eq_none_iff, Dialect.detect?_eq_none_iff]

theorem nodes_ne_nil_of_tryParse {g : Graph} (h : p.tryParse source = .ok g) : g.nodes ≠ [] := by
  cases hd : p.dialectOf? source with
  | none => simp [tryParse, hd] at h
  | some d =>
      cases hempty : (d.scan source.toList).isEmpty with
      | true => simp [tryParse_of_isEmpty hd hempty] at h
      | false =>
          rw [tryParse_of_not_isEmpty hd hempty] at h
          obtain rfl := Except.ok.inj h
          exact Dialect.nodes_graph_ne_nil hempty

theorem parse_eq_empty_iff :
    p.parse source = .empty ↔ ∃ reason, p.tryParse source = .error reason := by
  cases hresult : p.tryParse source with
  | error reason => simp [parse, hresult]
  | ok g =>
      have hnodes := nodes_ne_nil_of_tryParse hresult
      have hne : g ≠ .empty := by
        rintro rfl
        exact hnodes rfl
      simp [parse, hresult, hne]

theorem tryParse_detecting {d : Dialect} (h : Dialect.detect? source.toList = some d) :
    detecting.tryParse source = (forced d).tryParse source := by
  have hdetecting : detecting.dialectOf? source = some d := h
  have hforced : (forced d).dialectOf? source = some d := rfl
  rw [tryParse, tryParse, hdetecting, hforced]

/-- What comes of a text. Without a dialect it is unsupported. In its dialect it has a graph if it
has content, and is an empty extraction if not. The graph of a success is not empty, and detection
is as good as forcing the detected dialect. -/
theorem tryParse_outcome (p : Parser) (source : String) :
    (p.tryParse source = .error .unsupportedDialect ↔ p.dialect? = none ∧
      ∀ d, ∀ m ∈ Dialect.markers d, occurs m.toList source.toList = false) ∧
    (∀ d, p.dialectOf? source = some d →
      ((∃ g, p.tryParse source = .ok g) ↔ d.HasContent source.toList) ∧
      (p.tryParse source = .error (.emptyExtraction d) ↔ ¬ d.HasContent source.toList)) ∧
    (∀ g, p.tryParse source = .ok g → g.nodes ≠ []) ∧
    (p.parse source = .empty ↔ ∃ reason, p.tryParse source = .error reason) ∧
    ∀ d, Dialect.detect? source.toList = some d →
      detecting.tryParse source = (forced d).tryParse source ∧
        detecting.parse source = (forced d).parse source := by
  refine ⟨?_, ?_, ?_, parse_eq_empty_iff, ?_⟩
  · rw [tryParse_eq_unsupportedDialect_iff, dialectOf?_eq_none_iff]
  · intro d hd
    exact ⟨tryParse_eq_ok_iff hd, tryParse_eq_emptyExtraction_iff hd⟩
  · intro g hg
    exact nodes_ne_nil_of_tryParse hg
  · intro d hd
    have hsame := tryParse_detecting hd
    exact ⟨hsame, by rw [parse, parse, hsame]⟩

/-- A header, an annotation and a note for a class are all that the text says. -/
example : detecting.tryParse "classDiagram\n<<late>> A\nnote for A" =
    .error (.emptyExtraction .classes) := by
  decide +kernel

end Parser

end TextDiagram
