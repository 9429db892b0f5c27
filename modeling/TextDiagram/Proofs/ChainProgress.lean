import TextDiagram.Proofs.FlowWriting
import TextDiagram.Proofs.TypedGraphs

/-!
# Reading a chain to its end

The links of a chain are read by a repetition that would fail if a link were read from nothing. No
link is shorter than three characters, so that never happens: the repetition comes to an end on
every text and gives the links of a well-formed chain.
-/

namespace TextDiagram

namespace Matcher

variable {α : Type} {m : Matcher α} {s rest : List Char} {a : α}

/-- A matcher is asked again and again, and what it read is handed on with the text that is left
where it does not fit any more. A matcher that fits without reading anything would do so for ever.
The repetition fails then, and its result is `none`. -/
inductive Repeats (m : Matcher α) : List Char → Option (List α × List Char) → Prop
  | stop {s : List Char} (h : m s = none) : Repeats m s (some ([], s))
  | stuck {s rest : List Char} {a : α} (h : m s = some (a, rest))
      (hlength : rest.length = s.length) : Repeats m s none
  | next {s rest : List Char} {a : α} {result : Option (List α × List Char)}
      (h : m s = some (a, rest)) (hlength : rest.length ≠ s.length)
      (hrest : Repeats m rest result) :
      Repeats m s (result.map fun (as, last) => (a :: as, last))

theorem Repeats.eq {result result' : Option (List α × List Char)} (h : Repeats m s result)
    (h' : Repeats m s result') : result = result' := by
  induction h generalizing result' with
  | stop hnone =>
      cases h' with
      | stop => rfl
      | stuck hsome => cases hnone.symm.trans hsome
      | next hsome => cases hnone.symm.trans hsome
  | stuck hsome hlength =>
      cases h' with
      | stop hnone => cases hnone.symm.trans hsome
      | stuck => rfl
      | next hnext hne =>
          cases hsome.symm.trans hnext
          exact absurd hlength hne
  | next hsome hne _ ih =>
      cases h' with
      | stop hnone => cases hnone.symm.trans hsome
      | stuck hstuck hlength =>
          cases hsome.symm.trans hstuck
          exact absurd hlength hne
      | next hnext _ hrest =>
          cases hsome.symm.trans hnext
          rw [ih hrest]

end Matcher

namespace Flow

open Text Matcher

/-! ### The links of a chain -/

theorem repeats_chainSteps (s : List Char) : Repeats chainStep s (some (chainSteps s)) := by
  induction s using chainSteps.induct with
  | case1 s hnone =>
      rw [chainSteps_of_eq_none hnone]
      exact .stop hnone
  | case2 s step rest hstep _ _ _ _ ih =>
      have hlength := chainStep_consumes hstep
      rw [chainSteps_of_eq_some hstep]
      exact .next hstep (by omega) ih

theorem repeats_chainStep_iff {s : List Char} {result : Option (List ChainStep × List Char)} :
    Repeats chainStep s result ↔ result = some (chainSteps s) := by
  constructor
  · exact fun h => h.eq (repeats_chainSteps s)
  · rintro rfl
    exact repeats_chainSteps s

theorem chainSteps_length (s : List Char) :
    (chainSteps s).2.length + 3 * (chainSteps s).1.length ≤ s.length := by
  induction s using chainSteps.induct with
  | case1 s hnone =>
      rw [chainSteps_of_eq_none hnone]
      exact Nat.le_refl _
  | case2 s step rest hstep _ _ _ _ ih =>
      have hlength := chainStep_consumes hstep
      simp only [chainSteps_of_eq_some hstep, List.length_cons]
      omega

/-! ### Well-formed chains -/

namespace Chain

theorem length_links (c : Chain) : c.links.length = c.steps.length := by
  have h := congrArg List.length c.map_arrow_links
  rwa [List.length_map, List.length_map] at h

/-- Each link joins the node before it with the node behind it. -/
theorem ends_of_links (c : Chain) {i : Nat} {l : Link} (hl : c.links[i]? = some l) :
    ∃ source target, c.nodes[i]? = some source ∧ c.nodes[i + 1]? = some target ∧
      l.source = source.id ∧ l.target = target.id := by
  have hzip := congrArg (·[i]?) c.map_links_eq_zip
  simp only [List.getElem?_map, hl, Option.map_some] at hzip
  obtain ⟨hsource, htarget⟩ := List.getElem?_zip_eq_some.mp hzip.symm
  rw [List.getElem?_tail] at htarget
  rw [List.getElem?_map, Option.map_eq_some_iff] at hsource htarget
  obtain ⟨source, hsource, hsourceId⟩ := hsource
  obtain ⟨target, htarget, htargetId⟩ := htarget
  exact ⟨source, target, hsource, htarget, hsourceId.symm, htargetId.symm⟩

structure WellFormed (c : Chain) : Prop where
  length_nodes : c.nodes.length = c.links.length + 1
  ends : ∀ i l, c.links[i]? = some l → ∃ source target, c.nodes[i]? = some source ∧
    c.nodes[i + 1]? = some target ∧ l.source = source.id ∧ l.target = target.id
  counts : c.links ≠ [] ∨ c.first.label.isSome = true
  ids : ∀ n ∈ c.nodes, n.id ≠ ""

end Chain

theorem chain_length {s rest : List Char} {c : Chain} (h : chain s = some (c, rest)) :
    rest.length + 3 * c.links.length < s.length := by
  obtain ⟨⟨first, t⟩, hfirst, h⟩ := Option.bind_eq_some_iff.mp h
  obtain ⟨_, heq⟩ := Option.ite_none_left_eq_some.mp h
  obtain ⟨rfl, rfl⟩ := Prod.mk.inj (Option.some.inj heq)
  have hnode := nodeRef_consumes hfirst
  have hsteps := chainSteps_length t
  simp only [Chain.length_links]
  omega

theorem wellFormed_of_chain {s rest : List Char} {c : Chain} (h : chain s = some (c, rest)) :
    c.WellFormed where
  length_nodes := by
    rw [Chain.length_links, Chain.nodes, List.length_cons, List.length_map]
  ends _ _ hl := c.ends_of_links hl
  counts := links_ne_nil_or_label_isSome h
  ids n hn := ((typed_of_chain h).nodes n hn).ne_empty

/-- On every text each link that is read is three characters long or longer, so the repetition ends,
it ends with the links that are read and never fails. Every chain that is read from the text is well
formed and has at most one link for every three characters. -/
theorem chain_read_to_its_end (s : List Char) :
    (∀ step rest, chainStep s = some (step, rest) → rest.length + 3 ≤ s.length) ∧
      (∀ result, Repeats chainStep s result ↔ result = some (chainSteps s)) ∧
      ∀ c rest, chain s = some (c, rest) →
        c.WellFormed ∧ rest.length + 3 * c.links.length < s.length := by
  refine ⟨fun step rest h => chainStep_consumes h, fun result => repeats_chainStep_iff, ?_⟩
  exact fun c rest h => ⟨wellFormed_of_chain h, chain_length h⟩

/-- A link without a target is given back. -/
theorem chain_read_to_its_end_half_link :
    ∃ c, chain "A[x] -- go --> B -.->|t| D --> ".toList = some (c, " --> ".toList) ∧
      c.WellFormed ∧ " --> ".toList.length + 3 * c.links.length < 31 := by
  have hchain : chain "A[x] -- go --> B -.->|t| D --> ".toList =
      some (⟨⟨"A", some "x"⟩, [⟨⟨.solid, some "go"⟩, ⟨"B", none⟩⟩,
        ⟨⟨.dashed, some "t"⟩, ⟨"D", none⟩⟩]⟩, " --> ".toList) := by
    decide +kernel
  obtain ⟨-, -, hread⟩ := chain_read_to_its_end "A[x] -- go --> B -.->|t| D --> ".toList
  exact ⟨_, hchain, hread _ _ hchain⟩

end Flow

end TextDiagram
