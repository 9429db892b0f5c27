import TextDiagram.Proofs.History
import TextDiagram.Proofs.Outcome
import TextDiagram.Proofs.SequenceAssembly

/-!
# The log tells the truth

A log has four stages: how the dialect was found, one record for each statement, what the assembly
did, and the result. The assembly reports every node that it makes up and every link that adds no
edge. So the nodes that stand for references can be read off the log, and the edges can be counted
by it.
-/

namespace TextDiagram

/-! ### Records -/

/-- The part of a parse that a record comes from. -/
inductive Stage where
  | opening
  | recognition
  | assembly
  | result
  deriving DecidableEq

namespace Event

def stage : Event → Stage
  | markerFound .. | dialectDetected _ | noMarkerFound | parsingStarted .. => .opening
  | statementRecognized .. | statementSkipped _ => .recognition
  | nodeAugmented _ | nodeSynthesized .. | labelMerged .. | stereotypeDropped .. => .assembly
  | diagramParsed .. | nothingExtracted _ => .result

/-- The id and the kind of a node that is reported to be made up. -/
def synthesized? : Event → Option (String × NodeKind)
  | nodeSynthesized id kind => some (id, kind)
  | _ => none

def isMerge : Event → Bool
  | labelMerged .. => true
  | _ => false

theorem synthesized?_of_stage {e : Event} (h : e.stage ≠ .assembly) : e.synthesized? = none := by
  cases e with
  | nodeSynthesized id kind => exact absurd rfl h
  | _ => rfl

theorem isMerge_of_stage {e : Event} (h : e.stage ≠ .assembly) : e.isMerge = false := by
  cases e with
  | labelMerged source target label => exact absurd rfl h
  | _ => rfl

theorem filterMap_synthesized?_of_stage {log : List Event} (h : ∀ e ∈ log, e.stage ≠ .assembly) :
    log.filterMap synthesized? = [] :=
  List.filterMap_eq_nil_iff.mpr fun e he => synthesized?_of_stage (h e he)

theorem countP_isMerge_of_stage {log : List Event} (h : ∀ e ∈ log, e.stage ≠ .assembly) :
    log.countP isMerge = 0 := by
  rw [List.countP_eq_zero]
  intro e he
  simp [isMerge_of_stage (h e he)]

end Event

/-- The id and the kind of a node that stands for a reference. -/
def Node.reference? (n : Node) : Option (String × NodeKind) :=
  if n.kind.isImplicit then some (n.id, n.kind) else none

theorem Node.filterMap_reference? (nodes : List Node) :
    nodes.filterMap Node.reference? =
      (nodes.filter fun n => n.kind.isImplicit).map fun n => (n.id, n.kind) := by
  induction nodes with
  | nil => rfl
  | cons n nodes ih => cases hkind : n.kind.isImplicit <;> simp [Node.reference?, hkind, ih]

/-! ### Nodes that are made up -/

namespace Step

/-- The step is about an edge. -/
def isLink : Step → Bool
  | connect _ | label .. => true
  | _ => false

/-- A step that makes up no node, and declares none as if it were made up. -/
def IsExplicit : Step → Prop
  | declare n => n.kind.isImplicit = false
  | synthesize .. => False
  | _ => True

/-- Made-up nodes have kinds of their own, and no id is declared after its node has been made up. -/
structure Orderly (steps : List Step) : Prop where
  declared : ∀ n, declare n ∈ steps → n.kind.isImplicit = false
  synthesized : ∀ id kind, synthesize id kind ∈ steps → kind.isImplicit = true
  later : steps.Pairwise fun earlier later =>
    ∀ id kind n, earlier = synthesize id kind → later = declare n → n.id ≠ id

theorem orderly_append_iff {xs ys : List Step} :
    Orderly (xs ++ ys) ↔ Orderly xs ∧ Orderly ys ∧
      ∀ id kind n, synthesize id kind ∈ xs → declare n ∈ ys → n.id ≠ id := by
  constructor
  · rintro ⟨hdeclared, hsynthesized, hlater⟩
    obtain ⟨hxs, hys, hcross⟩ := List.pairwise_append.mp hlater
    refine ⟨⟨?_, ?_, hxs⟩, ⟨?_, ?_, hys⟩, ?_⟩
    · exact fun n hn => hdeclared n (List.mem_append_left _ hn)
    · exact fun id kind hid => hsynthesized id kind (List.mem_append_left _ hid)
    · exact fun n hn => hdeclared n (List.mem_append_right _ hn)
    · exact fun id kind hid => hsynthesized id kind (List.mem_append_right _ hid)
    · exact fun id kind n hid hn => hcross _ hid _ hn id kind n rfl rfl
  · rintro ⟨hxs, hys, hcross⟩
    refine ⟨?_, ?_, List.pairwise_append.mpr ⟨hxs.later, hys.later, ?_⟩⟩
    · exact fun n hn => (List.mem_append.mp hn).elim (hxs.declared n) (hys.declared n)
    · exact fun id kind hid =>
        (List.mem_append.mp hid).elim (hxs.synthesized id kind) (hys.synthesized id kind)
    · rintro _ hid _ hn id kind n rfl rfl
      exact hcross id kind n hid hn

theorem orderly_of_explicit {steps : List Step} (h : ∀ step ∈ steps, step.IsExplicit) :
    Orderly steps where
  declared n hn := h _ hn
  synthesized id kind hid := (h _ hid).elim
  later := by
    refine List.Pairwise.imp_of_mem ?_ (List.pairwise_of_forall fun _ _ => trivial)
    rintro _ _ hid _ - id kind n rfl rfl
    exact (h _ hid).elim

theorem orderly_of_references {steps : List Step} {kind : NodeKind}
    (hkind : kind.isImplicit = true) (h : ∀ step ∈ steps, step.IsReference kind) :
    Orderly steps where
  declared n hn := (h _ hn).elim
  synthesized id k hid := by
    obtain rfl : k = kind := h _ hid
    exact hkind
  later := by
    refine List.Pairwise.imp_of_mem ?_ (List.pairwise_of_forall fun _ _ => trivial)
    rintro _ _ _ hn - id kind n rfl rfl
    exact (h _ hn).elim

/-- A node that stands for a reference is made up, or it stood for one before. -/
theorem synthesize_or_of_onNode {step : Step} {id : String} {node? : Option Node} {n : Node}
    (hdeclared : ∀ new, step = declare new → new.kind.isImplicit = false)
    (hid : ∀ old, node? = some old → old.id = id) (h : step.onNode id node? = some n)
    (hkind : n.kind.isImplicit = true) :
    (∃ kind, step = synthesize id kind) ∨ ∃ old, node? = some old ∧ old.kind.isImplicit = true := by
  cases hold : node? with
  | some old =>
      obtain ⟨m, hm, hgrows⟩ := step.exists_onNode_growsTo (hid old hold)
      rw [hold, hm] at h
      obtain rfl := Option.some.inj h
      refine .inr ⟨old, rfl, ?_⟩
      by_contra hdeclared
      rw [Bool.not_eq_true] at hdeclared
      rw [hgrows.kind_eq hdeclared, hdeclared] at hkind
      exact Bool.false_ne_true hkind
  | none =>
      rw [hold] at h
      cases step with
      | declare new =>
          obtain ⟨-, hnew⟩ := Option.ite_none_right_eq_some.mp h
          obtain rfl : new = n := Option.some.inj hnew
          rw [hdeclared _ rfl] at hkind
          exact absurd hkind Bool.false_ne_true
      | synthesize i kind =>
          obtain ⟨rfl, -⟩ := Option.ite_none_right_eq_some.mp h
          exact .inl ⟨kind, rfl⟩
      | connect e => exact absurd h (Option.some_ne_none n).symm
      | label source target text kind => exact absurd h (Option.some_ne_none n).symm
      | stereotype i text => simp [onNode] at h

end Step

theorem Assembly.synthesize_mem_of_get? {steps : List Step} {id : String} {n : Node}
    (hdeclared : ∀ new, .declare new ∈ steps → new.kind.isImplicit = false)
    (hn : (empty.run steps).nodes.get? id = some n) (hkind : n.kind.isImplicit = true) :
    ∃ kind, .synthesize id kind ∈ steps := by
  induction steps using List.reverseRecOn generalizing n with
  | nil => exact absurd hn (Option.some_ne_none n).symm
  | append_singleton steps step ih =>
      rw [run_append, run_cons, run_nil, get?_apply] at hn
      have hstep : ∀ new, step = .declare new → new.kind.isImplicit = false := by
        rintro new rfl
        exact hdeclared new (by simp)
      have hid := (coherent_run_empty steps).node_id id
      rcases Step.synthesize_or_of_onNode hstep hid hn hkind with ⟨kind, rfl⟩ | ⟨old, hold, hold'⟩
      · exact ⟨kind, by simp⟩
      · obtain ⟨kind, hmem⟩ := ih (fun new hnew => hdeclared new (by simp [hnew])) hold hold'
        exact ⟨kind, List.mem_append_left _ hmem⟩

/-- In an orderly run, what is declared again has been declared before. -/
theorem Step.Orderly.isImplicit_of_get? {before after : List Step} {new old : Node}
    (h : Orderly (before ++ declare new :: after))
    (hold : (Assembly.empty.run before).nodes.get? new.id = some old) :
    old.kind.isImplicit = false := by
  obtain ⟨hbefore, -, hlater⟩ := orderly_append_iff.mp h
  by_contra hkind
  rw [Bool.not_eq_false] at hkind
  obtain ⟨kind, hid⟩ := Assembly.synthesize_mem_of_get? hbefore.declared hold hkind
  exact hlater new.id kind new hid List.mem_cons_self rfl

theorem OrderedMap.filterMap_values_modify {κ α β : Type} [DecidableEq κ] {m : OrderedMap κ α}
    {k : κ} {f : α → α} {g : α → Option β} (h : ∀ e ∈ m.entries, e.1 = k → g (f e.2) = g e.2) :
    (m.modify k f).values.filterMap g = m.values.filterMap g := by
  simp only [values, modify, List.map_map, List.filterMap_map]
  apply List.filterMap_congr
  intro e he
  by_cases hk : e.1 = k
  · simpa [hk] using h e he hk
  · simp [hk]

namespace Assembly

/-- The ids and the kinds of the nodes that stand for references. -/
def references (a : Assembly) : List (String × NodeKind) :=
  a.nodes.values.filterMap Node.reference?

/-- A declaration of an id that no made-up node has leaves these nodes alone. -/
theorem references_declare {a : Assembly} {n : Node} (hkind : n.kind.isImplicit = false)
    (hid : ∀ e ∈ a.nodes.entries, e.1 = n.id → e.2.kind.isImplicit = false) :
    (a.declare n).references = a.references := by
  unfold declare references
  by_cases hknown : n.id ∈ a.nodes.keys
  · rw [if_pos (OrderedMap.contains_iff.mpr hknown)]
    apply OrderedMap.filterMap_values_modify
    intro e he hk
    have hold := hid e he hk
    simp [Node.reference?, Node.redeclare, hold]
  · rw [if_neg (mt OrderedMap.contains_iff.mp hknown), OrderedMap.values_insertNew, if_neg hknown,
      List.filterMap_append]
    simp [Node.reference?, hkind]

theorem references_synthesize (a : Assembly) {id : String} {kind : NodeKind}
    (hkind : kind.isImplicit = true) :
    (a.synthesize id kind).2.references =
      a.references ++ if id ∈ a.nodes.keys then [] else [(id, kind)] := by
  have hnew : (Node.unlabeled id kind).reference? = some (id, kind) := by
    simp [Node.reference?, Node.unlabeled, hkind]
  rw [references, synthesize, OrderedMap.values_insertNew]
  split
  · rw [List.append_nil, references]
  · rw [List.filterMap_append, List.filterMap_cons_some hnew, List.filterMap_nil, references]

theorem references_stereotype (a : Assembly) (id text : String) :
    (a.stereotype id text).references = a.references := by
  unfold stereotype
  split
  · exact OrderedMap.filterMap_values_modify fun e _ _ => rfl
  · rfl

/-- A step adds a made-up node exactly if it reports one. -/
theorem references_apply {a : Assembly} {step : Step}
    (hdeclared : ∀ n, step = .declare n → n.kind.isImplicit = false ∧
      ∀ e ∈ a.nodes.entries, e.1 = n.id → e.2.kind.isImplicit = false)
    (hsynthesized : ∀ id kind, step = .synthesize id kind → kind.isImplicit = true) :
    (a.apply step).references =
      a.references ++ (a.event? step).toList.filterMap Event.synthesized? := by
  cases step with
  | declare n =>
      obtain ⟨hkind, hid⟩ := hdeclared n rfl
      rw [apply, references_declare hkind hid, event?]
      split <;> simp [Event.synthesized?]
  | synthesize id kind =>
      rw [apply, a.references_synthesize (hsynthesized id kind rfl), event?, answer_synthesize]
      by_cases hknown : id ∈ a.nodes.keys <;> simp [hknown, Event.synthesized?]
  | connect e => simp [apply, event?, references]
  | label source target text kind =>
      rw [event?]
      split <;> simp [apply, references, Event.synthesized?]
  | stereotype id text =>
      rw [apply, references_stereotype, event?]
      split <;> simp [Event.synthesized?]

/-- An orderly run reports the made-up nodes as they stand in the end. -/
theorem references_run {steps : List Step} (h : Step.Orderly steps) :
    (empty.run steps).references = (empty.events steps).filterMap Event.synthesized? := by
  induction steps using List.reverseRecOn with
  | nil => rfl
  | append_singleton steps step ih =>
      obtain ⟨hsteps, hstep, -⟩ := Step.orderly_append_iff.mp h
      have hrun := ih hsteps
      have hlast : (empty.run steps).events [step] = ((empty.run steps).event? step).toList :=
        List.append_nil _
      rw [run_append, run_cons, run_nil, events_append, List.filterMap_append, hlast, ← hrun]
      apply references_apply
      · rintro n rfl
        refine ⟨hstep.declared n (List.mem_singleton_self _), fun e he hid => ?_⟩
        have hold := OrderedMap.get?_of_mem (coherent_run_empty steps).keys_nodup he
        rw [hid] at hold
        exact h.isImplicit_of_get? hold
      · rintro id kind rfl
        exact hstep.synthesized id kind (List.mem_singleton_self _)

/-! ### Edges and merged labels -/

/-- A step that links two nodes adds an edge or reports a merged label, and no other step does. -/
theorem length_edges_apply (a : Assembly) (step : Step) :
    (a.apply step).edges.length + (a.event? step).toList.countP Event.isMerge =
      a.edges.length + [step].countP Step.isLink := by
  cases step with
  | declare n =>
      rw [apply, edges_declare, event?]
      split <;> simp [Event.isMerge, Step.isLink]
  | synthesize id kind =>
      rw [apply, event?]
      split <;> simp [synthesize, Event.isMerge, Step.isLink]
  | connect e => simp [apply, event?, Step.isLink]
  | label source target text kind =>
      rw [apply, event?, label]
      cases a.firstEdge.get? (source, target) <;> simp [Event.isMerge, Step.isLink]
  | stereotype id text =>
      rw [apply, edges_stereotype, event?]
      split <;> simp [Event.isMerge, Step.isLink]

theorem length_edges_run (a : Assembly) (steps : List Step) :
    (a.run steps).edges.length + (a.events steps).countP Event.isMerge =
      a.edges.length + steps.countP Step.isLink := by
  induction steps generalizing a with
  | nil => rfl
  | cons step steps ih =>
      have hstep := a.length_edges_apply step
      have hsteps := ih (a.apply step)
      rw [run_cons, events, List.countP_append, ← List.singleton_append, List.countP_append]
      omega

theorem stage_of_event? {a : Assembly} {step : Step} {e : Event} (h : a.event? step = some e) :
    e.stage = .assembly := by
  cases step with
  | declare n =>
      obtain ⟨-, he⟩ := Option.ite_none_right_eq_some.mp h
      obtain rfl := Option.some.inj he
      rfl
  | synthesize id kind =>
      obtain ⟨-, he⟩ := Option.ite_none_right_eq_some.mp h
      obtain rfl := Option.some.inj he
      rfl
  | connect e => exact absurd h (Option.some_ne_none _).symm
  | label source target text kind =>
      obtain ⟨-, he⟩ := Option.ite_none_right_eq_some.mp h
      obtain rfl := Option.some.inj he
      rfl
  | stereotype id text =>
      obtain ⟨-, he⟩ := Option.ite_none_left_eq_some.mp h
      obtain rfl := Option.some.inj he
      rfl

theorem stage_of_mem_events {a : Assembly} {steps : List Step} {e : Event}
    (h : e ∈ a.events steps) : e.stage = .assembly := by
  induction steps generalizing a with
  | nil => exact absurd h List.not_mem_nil
  | cons step steps ih =>
      rw [events, List.mem_append, Option.mem_toList] at h
      rcases h with hstep | hsteps
      · exact stage_of_event? hstep
      · exact ih hsteps

end Assembly

/-! ### The steps of the dialects -/

/-- Each link makes one step in one of the two passes. -/
theorem Flow.countP_isLink_steps (fs : List Fragment) :
    (steps fs).countP Step.isLink = ((chainsOf fs).flatMap Chain.links).length := by
  have hnodes : ∀ nodes : List NodeRef, (nodes.filterMap declareNode?).countP Step.isLink = 0 := by
    intro nodes
    rw [List.countP_eq_zero]
    intro step hstep
    obtain ⟨n, _, hn⟩ := List.mem_filterMap.mp hstep
    obtain ⟨label, _, rfl⟩ := Option.map_eq_some_iff.mp hn
    exact Bool.false_ne_true
  have hlinks : ∀ links : List Link, (links.filterMap connectLink?).countP Step.isLink +
      (links.filterMap labelLink?).countP Step.isLink = links.length := by
    intro links
    induction links with
    | nil => rfl
    | cons l links ih =>
        rw [List.filterMap_cons, List.filterMap_cons, List.length_cons, ← ih]
        cases hlabel : l.arrow.label with
        | none => simp [connectLink?, labelLink?, hlabel, Step.isLink, Nat.add_right_comm,
            List.countP_cons]
        | some text => simp [connectLink?, labelLink?, hlabel, Step.isLink, Nat.add_assoc,
            List.countP_cons]
  rw [steps, List.countP_append, List.countP_append, hnodes, Nat.zero_add, hlinks]
  rfl

theorem Flow.isExplicit_steps (fs : List Fragment) : ∀ step ∈ steps fs, step.IsExplicit := by
  intro step hstep
  simp only [steps_eq, List.mem_append] at hstep
  rcases hstep with (hnode | hplain) | hlabeled
  · obtain ⟨_, hn, rfl⟩ := List.mem_map.mp hnode
    obtain ⟨n, _, rfl⟩ := List.mem_map.mp hn
    rfl
  · obtain ⟨e, _, rfl⟩ := List.mem_map.mp hplain
    trivial
  · obtain ⟨l, _, hl⟩ := List.mem_filterMap.mp hlabeled
    obtain ⟨label, _, rfl⟩ := Option.map_eq_some_iff.mp hl
    trivial

theorem Class.isExplicit_steps (fs : List Fragment) : ∀ step ∈ steps fs, step.IsExplicit := by
  intro step hstep
  simp only [steps, List.mem_append] at hstep
  rcases hstep with ((hdeclared | hrelation) | hmember) | hstereotype
  · obtain ⟨d, _, rfl⟩ := List.mem_map.mp hdeclared
    rfl
  · obtain ⟨r, _, rfl⟩ := List.mem_map.mp hrelation
    trivial
  · obtain ⟨m, _, rfl⟩ := List.mem_map.mp hmember
    rfl
  · obtain ⟨s, _, rfl⟩ := List.mem_map.mp hstereotype
    trivial

theorem Sequence.Note.kind_isImplicit (n : Note) : n.kind.isImplicit = false := by
  unfold kind
  split <;> rfl

/-- Notes are declared after the roles, under ids that no role has. -/
theorem Sequence.Contents.orderly_steps (c : Contents) : Step.Orderly c.steps := by
  have hdeclare : Step.Orderly c.declareSteps := by
    apply Step.orderly_of_explicit
    intro step hstep
    obtain ⟨_, hn, rfl⟩ := List.mem_map.mp hstep
    obtain ⟨d, _, rfl⟩ := List.mem_map.mp hn
    exact nodeKind_isImplicit d.role
  have hnotes : Step.Orderly (c.noteNodes.map Step.declare) := by
    apply Step.orderly_of_explicit
    intro step hstep
    obtain ⟨_, hn, rfl⟩ := List.mem_map.mp hstep
    obtain ⟨p, _, rfl⟩ := List.mem_map.mp hn
    exact p.2.kind_isImplicit
  have hmessages := Step.orderly_of_references rfl c.isReference_messageSteps
  rw [steps, Step.orderly_append_iff, Step.orderly_append_iff]
  refine ⟨⟨hdeclare, hmessages, ?_⟩, hnotes, ?_⟩
  · intro id kind n hid _
    obtain ⟨_, _, hd⟩ := List.mem_map.mp hid
    exact Step.noConfusion hd
  · rintro _ kind n hid hn rfl
    obtain ⟨_, hnote, hdeclare⟩ := List.mem_map.mp hn
    obtain ⟨p, hp, rfl⟩ := List.mem_map.mp hnote
    obtain rfl := Step.declare.inj hdeclare
    have hrole : noteId p.1 ∈ (c.declareSteps ++ c.messageSteps).filterMap Step.nodeId? :=
      List.mem_filterMap.mpr ⟨_, hid, rfl⟩
    have hkeys := c.keys_run_roleSteps
    rw [Assembly.keys_run_empty] at hkeys
    rw [← List.mem_eraseDups, hkeys, List.mem_eraseDups] at hrole
    exact (mem_numberNotes hp).2 hrole

namespace Dialect

/-- What the log says about a statement. -/
def statementEvent : Dialect → List Char → Event
  | flow => Rule.event Flow.rules
  | sequence => Rule.event Sequence.rules
  | classes => Rule.event Class.rules

theorem statementEvents_eq (d : Dialect) (source : List Char) :
    d.statementEvents source = (d.statements source).map d.statementEvent := by
  cases d <;> rfl

theorem stage_statementEvent (d : Dialect) (s : List Char) :
    (d.statementEvent s).stage = .recognition := by
  cases d <;> simp only [statementEvent, Rule.event] <;> split <;> rfl

/-- All that is done for a text, the closing included. -/
def allSteps (d : Dialect) (source : List Char) : List Step :=
  d.steps source ++ (d.scan source).closing d.implicitKind

theorem run_allSteps (d : Dialect) (source : List Char) :
    (Assembly.empty.run (d.allSteps source)).toGraph = d.graph source := by
  rw [allSteps, Assembly.run_append]
  rfl

theorem isReference_closing (d : Dialect) (a : Assembly) :
    ∀ step ∈ a.closing d.implicitKind, step.IsReference d.implicitKind := by
  intro step hstep
  obtain ⟨id, _, rfl⟩ := List.mem_map.mp hstep
  rfl

theorem orderly_steps (d : Dialect) (source : List Char) : Step.Orderly (d.steps source) := by
  cases d with
  | flow => exact Step.orderly_of_explicit (Flow.isExplicit_steps _)
  | sequence =>
      rw [steps, Sequence.steps_eq]
      exact Sequence.Contents.orderly_steps _
  | classes => exact Step.orderly_of_explicit (Class.isExplicit_steps _)

theorem orderly_allSteps (d : Dialect) (source : List Char) : Step.Orderly (d.allSteps source) := by
  have hkind : d.implicitKind.isImplicit = true := by cases d <;> rfl
  have hclosing := d.isReference_closing (d.scan source)
  refine Step.orderly_append_iff.mpr
    ⟨d.orderly_steps source, Step.orderly_of_references hkind hclosing, ?_⟩
  intro id kind n _ hn
  exact (hclosing _ hn).elim

/-- What the assembly of a text reports. -/
def assemblyEvents (d : Dialect) (source : List Char) : List Event :=
  Assembly.empty.events (d.allSteps source)

theorem synthesized_assemblyEvents (d : Dialect) (source : List Char) :
    (d.assemblyEvents source).filterMap Event.synthesized? =
      (d.graph source).nodes.filterMap Node.reference? := by
  rw [assemblyEvents, ← Assembly.references_run (d.orderly_allSteps source), ← run_allSteps]
  rfl

theorem length_edges_graph_flow (source : List Char) :
    (flow.graph source).edges.length + (flow.assemblyEvents source).countP Event.isMerge =
      ((Flow.chains source).flatMap Flow.Chain.links).length := by
  have hclosing : ((flow.scan source).closing flow.implicitKind).countP Step.isLink = 0 := by
    rw [List.countP_eq_zero]
    intro step hstep
    obtain ⟨id, _, rfl⟩ := List.mem_map.mp hstep
    exact Bool.false_ne_true
  have hsteps : (flow.steps source).countP Step.isLink = _ := Flow.countP_isLink_steps _
  have hrun := Assembly.empty.length_edges_run (flow.allSteps source)
  have hnone : Assembly.empty.edges.length = 0 := rfl
  rw [allSteps, List.countP_append, hclosing, hsteps, hnone, Nat.add_zero, Nat.zero_add] at hrun
  rw [← run_allSteps]
  exact hrun

/-- A text from which nothing comes has no edge whose ends could be closed. -/
theorem allSteps_of_isEmpty {d : Dialect} {source : List Char}
    (h : (d.scan source).isEmpty = true) : d.allSteps source = d.steps source := by
  obtain ⟨-, hedges⟩ := (Assembly.isEmpty_iff _).mp h
  rw [allSteps, Assembly.closing, Assembly.endpoints, hedges, List.flatMap_nil, List.map_nil,
    List.append_nil]

theorem assemblyEvents_eq (d : Dialect) (source : List Char) :
    d.assemblyEvents source =
      Assembly.empty.events (d.steps source) ++ Parser.closingEvents d source := by
  rw [assemblyEvents, allSteps, Assembly.events_append]
  rfl

end Dialect

namespace Parser

variable {p : Parser} {source : String} {d : Dialect}

/-- One record for each statement, in the order of the text. -/
def statementRecords (p : Parser) (source : String) : List Event :=
  (p.dialectOf? source).elim [] fun d => (d.statements source.toList).map d.statementEvent

/-- The last record of a log: what the graph counts, or why there is none. -/
inductive Concludes (p : Parser) (source : String) : Event → Prop
  | parsed {d : Dialect} : p.dialectOf? source = some d → p.parse source ≠ .empty →
      Concludes p source
        (.diagramParsed d (p.parse source).nodes.length (p.parse source).edges.length)
  | nothing {reason : EmptyReason} : p.parse source = .empty →
      p.tryParse source = .error reason → Concludes p source (.nothingExtracted reason)

/-- What a log says is true of the text and of its graph. -/
structure Truthful (p : Parser) (source : String) (log : List Event) : Prop where
  stages : ∃ opening assembly last,
    log = opening ++ (p.statementRecords source ++ (assembly ++ [last])) ∧
      (∀ e ∈ opening, e.stage = .opening) ∧
      (∀ e ∈ p.statementRecords source, e.stage = .recognition) ∧
      (∀ e ∈ assembly, e.stage = .assembly) ∧ last.stage = .result ∧ p.Concludes source last
  synthesized : log.filterMap Event.synthesized? =
    (p.parse source).nodes.filterMap Node.reference?
  synthesized_once : ((log.filterMap Event.synthesized?).map Prod.fst).Nodup
  merged : p.dialectOf? source = some .flow →
    (p.parse source).edges.length + log.countP Event.isMerge =
      ((Flow.chains source.toList).flatMap Flow.Chain.links).length

theorem Concludes.stage {e : Event} (h : p.Concludes source e) : e.stage = .result := by
  cases h <;> rfl

theorem stage_of_mem_statementRecords {e : Event} (h : e ∈ p.statementRecords source) :
    e.stage = .recognition := by
  unfold statementRecords at h
  cases hd : p.dialectOf? source with
  | none => simp [hd] at h
  | some d =>
      simp only [hd, Option.elim_some] at h
      obtain ⟨s, _, rfl⟩ := List.mem_map.mp h
      exact d.stage_statementEvent s

theorem stage_of_mem_detectionEvents {chars : List Char} {e : Event}
    (h : e ∈ detectionEvents chars) : e.stage = .opening := by
  unfold detectionEvents at h
  split at h
  · rcases List.mem_pair.mp h with rfl | rfl <;> rfl
  · obtain rfl := List.mem_singleton.mp h
    rfl

/-- What the log has before the statements. -/
def openingEvents (p : Parser) (source : String) : List Event :=
  (if p.dialect?.isSome then [] else detectionEvents source.toList) ++
    ((p.dialectOf? source).map fun d => .parsingStarted d p.dialect?.isSome).toList

theorem stage_of_mem_openingEvents {e : Event} (h : e ∈ p.openingEvents source) :
    e.stage = .opening := by
  rcases List.mem_append.mp h with hdetection | hstarted
  · split at hdetection
    · exact absurd hdetection List.not_mem_nil
    · exact stage_of_mem_detectionEvents hdetection
  · obtain ⟨d, -, rfl⟩ := Option.map_eq_some_iff.mp (Option.mem_toList.mp hstarted)
    rfl

/-- The four stages of a log, one after the other. -/
theorem events_eq_stages (p : Parser) (source : String) :
    ∃ last, p.Concludes source last ∧
      p.events source = p.openingEvents source ++ (p.statementRecords source ++
        ((p.dialectOf? source).elim [] (fun d => d.assemblyEvents source.toList) ++ [last])) := by
  cases hd : p.dialectOf? source with
  | none =>
      have hresult : p.tryParse source = .error .unsupportedDialect :=
        tryParse_eq_unsupportedDialect_iff.mpr hd
      refine ⟨_, .nothing (parse_eq_empty_iff.mpr ⟨_, hresult⟩) hresult, ?_⟩
      simp [events, openingEvents, statementRecords, hd]
  | some d =>
      cases hempty : (d.scan source.toList).isEmpty with
      | true =>
          have hresult := tryParse_of_isEmpty hd hempty
          refine ⟨_, .nothing (parse_eq_empty_iff.mpr ⟨_, hresult⟩) hresult, ?_⟩
          have hgraph : d.graph? source.toList = _ := (tryParse_eq_graph? hd).symm.trans hresult
          simp [events, openingEvents, statementRecords, hd, hgraph, scanEvents,
            Dialect.statementEvents_eq, Dialect.assemblyEvents, Dialect.allSteps_of_isEmpty hempty]
      | false =>
          have hresult := tryParse_of_not_isEmpty hd hempty
          have hgraph : d.graph? source.toList = _ := (tryParse_eq_graph? hd).symm.trans hresult
          have hparse := parse_eq_graph hd
          have hne : p.parse source ≠ .empty := by
            rw [hparse]
            exact fun h => Dialect.nodes_graph_ne_nil hempty (congrArg Graph.nodes h)
          refine ⟨_, .parsed hd hne, ?_⟩
          simp [events, openingEvents, statementRecords, hd, hgraph, hparse, scanEvents,
            resultEvent, Dialect.statementEvents_eq, Dialect.assemblyEvents_eq]

/-- Only the assembly has a say in what is read off the log. -/
theorem readings_of_stages {opening records : List Event} (assembly : List Event) {last : Event}
    (hopening : ∀ e ∈ opening, e.stage = .opening)
    (hrecords : ∀ e ∈ records, e.stage = .recognition) (hlast : last.stage = .result) :
    (opening ++ (records ++ (assembly ++ [last]))).filterMap Event.synthesized? =
        assembly.filterMap Event.synthesized? ∧
      (opening ++ (records ++ (assembly ++ [last]))).countP Event.isMerge =
        assembly.countP Event.isMerge := by
  have hopening' : ∀ e ∈ opening, e.stage ≠ .assembly := fun e he => by simp [hopening e he]
  have hrecords' : ∀ e ∈ records, e.stage ≠ .assembly := fun e he => by simp [hrecords e he]
  have hlast' : ∀ e ∈ [last], e.stage ≠ .assembly := by simp [hlast]
  constructor
  · simp only [List.filterMap_append, Event.filterMap_synthesized?_of_stage hopening',
      Event.filterMap_synthesized?_of_stage hrecords',
      Event.filterMap_synthesized?_of_stage hlast', List.nil_append, List.append_nil]
  · simp only [List.countP_append, Event.countP_isMerge_of_stage hopening',
      Event.countP_isMerge_of_stage hrecords', Event.countP_isMerge_of_stage hlast',
      Nat.zero_add, Nat.add_zero]

theorem nodup_references {nodes : List Node} (h : (nodes.map Node.id).Nodup) :
    ((nodes.filterMap Node.reference?).map Prod.fst).Nodup := by
  rw [Node.filterMap_reference?, List.map_map]
  exact h.sublist (List.filter_sublist.map Node.id)

/-- The log of every parse is truthful. -/
theorem events_truthful (p : Parser) (source : String) : p.Truthful source (p.events source) := by
  obtain ⟨last, hlast, hlog⟩ := p.events_eq_stages source
  have hopening : ∀ e ∈ p.openingEvents source, e.stage = .opening :=
    fun _ => stage_of_mem_openingEvents
  have hrecords : ∀ e ∈ p.statementRecords source, e.stage = .recognition :=
    fun _ => stage_of_mem_statementRecords
  obtain ⟨hsynthesized, hmerged⟩ := readings_of_stages
    ((p.dialectOf? source).elim [] fun d => d.assemblyEvents source.toList) hopening hrecords
    hlast.stage
  rw [← hlog] at hsynthesized hmerged
  have hreferences : (p.events source).filterMap Event.synthesized? =
      (p.parse source).nodes.filterMap Node.reference? := by
    rw [hsynthesized]
    cases hd : p.dialectOf? source with
    | none => simp [parse_of_dialectOf?_eq_none hd, Graph.empty]
    | some d => rw [parse_eq_graph hd, Option.elim_some, d.synthesized_assemblyEvents]
  refine ⟨⟨_, _, last, hlog, hopening, hrecords, ?_, hlast.stage, hlast⟩, hreferences, ?_, ?_⟩
  · intro e he
    cases hd : p.dialectOf? source with
    | none => simp [hd] at he
    | some d =>
        rw [hd] at he
        exact Assembly.stage_of_mem_events he
  · rw [hreferences]
    apply nodup_references
    cases hd : p.dialectOf? source with
    | none => simp [parse_of_dialectOf?_eq_none hd, Graph.empty]
    | some d =>
        rw [parse_eq_graph hd]
        exact ((d.coherent_scan source.toList).wellFormed_close d.implicitKind).ids_nodup
  · intro hd
    rw [hmerged, parse_eq_graph hd, hd, Option.elim_some]
    exact Dialect.length_edges_graph_flow source.toList

/-- A label is merged, and a node is declared after links have named it. -/
example : (detecting.events "flowchart LR\nA --> B\nA -->|x| B\nB[y]").drop 3 =
    [.statementRecognized "header" "flowchart LR", .statementRecognized "chain" "A --> B",
      .statementRecognized "chain" "A -->|x| B", .statementRecognized "chain" "B[y]",
      .labelMerged "A" "B" "x", .nodeSynthesized "A" .implicit, .diagramParsed .flow 2 1] := by
  decide +kernel

end Parser

end TextDiagram
