import TextDiagram.Flow.Arrow

/-!
# Chains of a flowchart

A chain is a node, followed by any number of links, each an arrow and a further node. A node is a
name, with an optional label in brackets. Every link is three characters or longer, so reading a
chain comes to an end.
-/

namespace TextDiagram.Flow

open Text Matcher

structure NodeRef where
  id : String
  label : Option String
  deriving DecidableEq, Repr

structure ChainStep where
  arrow : Arrow
  node : NodeRef
  deriving DecidableEq, Repr

structure Chain where
  first : NodeRef
  steps : List ChainStep
  deriving DecidableEq, Repr

/-- An arrow with the nodes that it joins. -/
structure Link where
  source : String
  target : String
  arrow : Arrow
  deriving DecidableEq, Repr

namespace Chain

def nodes (c : Chain) : List NodeRef :=
  c.first :: c.steps.map ChainStep.node

def linksFrom (source : String) : List ChainStep → List Link
  | [] => []
  | step :: steps => ⟨source, step.node.id, step.arrow⟩ :: linksFrom step.node.id steps

def links (c : Chain) : List Link :=
  linksFrom c.first.id c.steps

end Chain

/-! ### Reading a chain -/

/-- The brackets around a label, in the order in which they are tried. Their shape has no
meaning. -/
def brackets : List (String × String) :=
  [("(((", ")))"), ("((", "))"), ("([", "])"), ("[[", "]]"), ("[(", ")]"), ("\x7b\x7b", "\x7d\x7d"),
    ("[/", "/]"), ("[/", "\\]"), ("[\\", "\\]"), ("[\\", "/]"), ("[", "]"), ("(", ")"),
    ("\x7b", "\x7d"), (">", "]")]

def bracketLabel : Matcher String := fun s =>
  brackets.findSome? fun (opening, closing) =>
    (between opening closing s).map fun (body, rest) => (String.ofList body, rest)

/-- The name of a style, which has no meaning. -/
def styleName : Matcher (List Char) := fun s => do
  let s ← strip? ":::".toList s
  bareName s

def nodeRef : Matcher NodeRef := fun s => do
  let (id, s) ← name s
  let (label, s) := optional bracketLabel s
  let (_, s) := optional styleName s
  return (⟨id, label⟩, s)

def chainStep : Matcher ChainStep := fun s => do
  let (arrow, s) ← arrow (skipGap s)
  let (node, s) ← nodeRef (skipGap s)
  return (⟨arrow, node⟩, s)

theorem bracketLabel_consumes : bracketLabel.Consumes 0 := by
  intro s rest label h
  obtain ⟨⟨opening, closing⟩, _, h⟩ := List.exists_of_findSome?_eq_some h
  obtain ⟨⟨body, t⟩, hbody, hpair⟩ := Option.map_eq_some_iff.mp h
  obtain ⟨rfl, rfl⟩ := Prod.mk.inj hpair
  exact (between_consumes opening closing).mono (Nat.zero_le _) hbody

theorem styleName_consumes : styleName.Consumes 4 := by
  intro s rest body h
  obtain ⟨t, ht, hname⟩ := Option.bind_eq_some_iff.mp h
  have hstrip : s.length = 3 + t.length := strip?_length ht
  have := bareName_consumes hname
  omega

theorem nodeRef_consumes : nodeRef.Consumes 1 := by
  intro s rest node h
  obtain ⟨⟨id, t⟩, hname, h⟩ := Option.bind_eq_some_iff.mp h
  simp only [Option.pure_def, Option.some.injEq, Prod.mk.injEq] at h
  have := name_consumes hname
  have := optional_length bracketLabel_consumes t
  have := optional_length styleName_consumes (optional bracketLabel t).2
  rw [← h.2]
  omega

theorem chainStep_consumes : chainStep.Consumes 3 := by
  intro s rest step h
  obtain ⟨⟨arrow, t⟩, harrow, h⟩ := Option.bind_eq_some_iff.mp h
  obtain ⟨⟨node, u⟩, hnode, h⟩ := Option.bind_eq_some_iff.mp h
  simp only [Option.pure_def, Option.some.injEq, Prod.mk.injEq] at h
  have := arrow_consumes harrow
  have := nodeRef_consumes hnode
  have := skipGap_length s
  have := skipGap_length t
  rw [← h.2]
  omega

/-- As many links as there are. -/
def chainSteps (s : List Char) : List ChainStep × List Char :=
  match h : chainStep s with
  | none => ([], s)
  | some (step, rest) =>
    have : rest.length < s.length := by
      have := chainStep_consumes h
      omega
    let (steps, rest) := chainSteps rest
    (step :: steps, rest)
termination_by s.length

theorem chainSteps_of_eq_none {s : List Char} (h : chainStep s = none) : chainSteps s = ([], s) := by
  rw [chainSteps]
  split
  · rfl
  · rename_i hsome
    rw [h] at hsome
    cases hsome

theorem chainSteps_of_eq_some {s rest : List Char} {step : ChainStep}
    (h : chainStep s = some (step, rest)) :
    chainSteps s = (step :: (chainSteps rest).1, (chainSteps rest).2) := by
  rw [chainSteps]
  split
  · rename_i hnone
    rw [h] at hnone
    cases hnone
  · rename_i hsome
    rw [h] at hsome
    cases hsome
    rfl

/-- A node alone is a chain only if it has a label. -/
def chain : Matcher Chain := fun s => do
  let (first, s) ← nodeRef s
  let (steps, s) := chainSteps s
  if steps.isEmpty && first.label.isNone then none else some (⟨first, steps⟩, s)

end TextDiagram.Flow
