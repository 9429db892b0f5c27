import TextDiagram.Flow.Reading
import TextDiagram.Proofs.FlowArrows

/-!
# Writing a flowchart

A chain is written as its nodes and links in turn, set off by one space each. Whatever forms the
links are written in, the rules of a flowchart read the chain back from its text, with every label
on its own node or link.
-/

namespace TextDiagram.Flow

open Text Matcher

/-! ### Statements that are chains -/

/-- The words that keep a statement from being a chain. -/
def statementWords : List String :=
  Dialect.headerWords ++ directiveWords

/-- A statement that starts with no such word is what the chain rule makes of it. -/
theorem recognize?_eq_of_anyWord? {s : List Char} (h : anyWord? statementWords s = none) :
    Rule.recognize? rules s = (chain s).map fun (c, _) => ("chain", .chain c) := by
  have hheader : anyWord? Dialect.headerWords s = none :=
    anyWord?_eq_none_of_subset h (List.subset_append_left _ _)
  have hdirective : anyWord? directiveWords s = none :=
    anyWord?_eq_none_of_subset h (List.subset_append_right _ _)
  simp only [Rule.recognize?, rules, List.findSome?_cons, List.findSome?_nil, Rule.ofWords,
    Rule.ofMatcher, hheader, hdirective, Option.map_none, Option.map_map]
  cases chain s <;> rfl

theorem recognize?_append {id : String} (hid : Bare id) (hword : id ∉ statementWords)
    {t : List Char} (ht : startsInName t = false) :
    Rule.recognize? rules (id.toList ++ t) =
      (chain (id.toList ++ t)).map fun (c, _) => ("chain", .chain c) :=
  recognize?_eq_of_anyWord? (hid.anyWord?_append (by decide) hword ht)

/-! ### Nodes -/

theorem bracketLabel_eq_none {t : List Char} (ht : SetOff t) : bracketLabel t = none := by
  have hopenings : ∀ b ∈ brackets, ' ' ∉ b.1.toList ∧ b.1.toList ≠ [] := by decide
  rw [bracketLabel, List.findSome?_eq_none_iff]
  intro b hb
  obtain ⟨hspace, hne⟩ := hopenings b hb
  have hstrip : strip? b.1.toList t = none := by
    rcases setOff_iff.mp ht with rfl | ⟨u, rfl⟩
    · obtain ⟨c, cs, hcs⟩ := List.exists_cons_of_ne_nil hne
      rw [hcs, strip?]
    · exact strip?_cons_of_notMem hspace hne u
  simp [between, hstrip]

theorem styleName_eq_none {t : List Char} (ht : SetOff t) : styleName t = none := by
  rcases setOff_iff.mp ht with rfl | ⟨u, rfl⟩ <;> rfl

theorem Chain.map_links_eq_zip (c : Chain) :
    c.links.map (fun l => (l.source, l.target)) =
      (c.nodes.map NodeRef.id).zip (c.nodes.map NodeRef.id).tail := by
  obtain ⟨first, steps⟩ := c
  induction steps generalizing first with
  | nil => rfl
  | cons step steps ih => exact congrArg ((first.id, step.node.id) :: ·) (ih step.node)

theorem Chain.map_arrow_links (c : Chain) :
    c.links.map Link.arrow = c.steps.map ChainStep.arrow := by
  obtain ⟨first, steps⟩ := c
  induction steps generalizing first with
  | nil => rfl
  | cons step steps ih => exact congrArg (step.arrow :: ·) (ih step.node)

namespace NodeRef

/-- A node that can be written without quotes, its label in square brackets. -/
structure Plain (n : NodeRef) : Prop where
  bare : Bare n.id
  notMem : ∀ label ∈ n.label, ']' ∉ label.toList
  head_notMem : ∀ label ∈ n.label, label.toList.head? ∉ [some '[', some '(', some '/', some '\\']

instance (n : NodeRef) : Decidable n.Plain :=
  decidable_of_iff (Bare n.id ∧ (∀ label ∈ n.label, ']' ∉ label.toList) ∧
      ∀ label ∈ n.label, label.toList.head? ∉ [some '[', some '(', some '/', some '\\'])
    ⟨fun h => ⟨h.1, h.2.1, h.2.2⟩, fun h => ⟨h.bare, h.notMem, h.head_notMem⟩⟩

theorem plain_of_bare {id : String} (hid : Bare id) : Plain ⟨id, none⟩ :=
  ⟨hid, by simp, by simp⟩

def text (n : NodeRef) : List Char :=
  n.id.toList ++ n.label.elim [] fun label => '[' :: (label.toList ++ [']'])

end NodeRef

/-- A bracket that comes before the plain square bracket in the table does not fit in front of a
label that could not belong to it. -/
theorem strip?_earlier_bracket {label : List Char}
    (hopening : label.head? ∉ [some '[', some '(', some '/', some '\\']) (t : List Char) :
    ∀ b ∈ brackets.take 10, strip? b.1.toList ('[' :: (label ++ ']' :: t)) = none := by
  have hearlier : ∀ b ∈ brackets.take 10, b.1.toList.head? ≠ some '[' ∧ b.1.toList ≠ [] ∨
      b.1.toList ∈ ['[', '(', '/', '\\'].map fun c => ['[', c] := by decide
  intro b hb
  rcases hearlier b hb with ⟨hround, hne⟩ | hsquare
  · exact strip?_cons_of_head?_ne hround hne _
  · obtain ⟨c, hc, hsquare⟩ := List.mem_map.mp hsquare
    rw [← hsquare, strip?, if_pos rfl]
    cases label with
    | nil =>
        have hne : c ≠ ']' := by
          rintro rfl
          exact absurd hc (by decide)
        exact strip?_cons_of_head?_ne (by simpa using hne) (List.cons_ne_nil c []) t
    | cons d label =>
        have hne : c ≠ d := by
          rintro rfl
          exact hopening (List.mem_map_of_mem hc)
        exact strip?_cons_of_head?_ne (by simpa using hne) (List.cons_ne_nil c []) _

theorem bracketLabel_append {label : List Char} (hclosing : ']' ∉ label)
    (hopening : label.head? ∉ [some '[', some '(', some '/', some '\\']) (t : List Char) :
    bracketLabel ('[' :: (label ++ ']' :: t)) = some (String.ofList label, t) := by
  have hsplit : brackets = brackets.take 10 ++ ("[", "]") :: brackets.drop 11 := rfl
  have hnone : ∀ b ∈ brackets.take 10, between b.1 b.2 ('[' :: (label ++ ']' :: t)) = none := by
    intro b hb
    simp [between, strip?_earlier_bracket hopening t b hb]
  have hbetween : between "[" "]" ('[' :: (label ++ ']' :: t)) = some (label, t) := by
    have hcut := cut?_singleton_append hclosing t
    simpa [between, strip?] using hcut
  rw [bracketLabel, hsplit, List.findSome?_append, List.findSome?_eq_none_iff.mpr]
  · simp [hbetween]
  · intro b hb
    simp [hnone b hb]

theorem nodeRef_text {n : NodeRef} (hn : n.Plain) {t : List Char} (ht : SetOff t) :
    nodeRef (n.text ++ t) = some (n, t) := by
  obtain ⟨id, label⟩ := n
  have hstyle := optional_of_eq_none (styleName_eq_none ht)
  cases label with
  | none =>
      have hname : name (id.toList ++ t) = some (id, t) := hn.bare.name_append ht.startsInName_eq
      have hlabel := optional_of_eq_none (bracketLabel_eq_none ht)
      simp [nodeRef, NodeRef.text, hname, hlabel, hstyle]
  | some label =>
      have hname : name (id.toList ++ '[' :: (label.toList ++ ']' :: t)) =
          some (id, '[' :: (label.toList ++ ']' :: t)) :=
        hn.bare.name_append (by decide : isNameChar '[' = false)
      have hlabel := optional_of_eq_some
        (bracketLabel_append (hn.notMem label rfl) (hn.head_notMem label rfl) t)
      simp [nodeRef, NodeRef.text, hname, hlabel, hstyle]

/-! ### Chains -/

theorem chainStep_text_append {l : LinkForm} (hl : l.Fits) {t : List Char}
    (ht : opensName t = true) :
    chainStep (' ' :: (l.text ++ ' ' :: t)) =
      (nodeRef t).map fun (n, rest) => (⟨l.arrow, n⟩, rest) := by
  simp only [chainStep, LinkForm.skipGap_text hl, arrow_text hl ht, Option.bind_eq_bind,
    Option.bind_some, skipGap_space, skipGap_of_opensName ht]
  cases nodeRef t <;> rfl

theorem chainStep_text {l : LinkForm} (hl : l.Fits) {n : NodeRef} (hn : n.Plain) {t : List Char}
    (ht : SetOff t) :
    chainStep (' ' :: (l.text ++ ' ' :: (n.text ++ t))) = some (⟨l.arrow, n⟩, t) := by
  have hname : startsInName (n.text ++ t) = true := by
    rw [NodeRef.text, List.append_assoc]
    exact hn.bare.startsInName_append _
  rw [chainStep_text_append hl (opensName_of_startsInName hname), nodeRef_text hn ht]
  rfl

/-- A chain with the forms in which its links are written. -/
structure WrittenChain where
  first : NodeRef
  links : List (LinkForm × NodeRef)

namespace WrittenChain

/-- Nodes and links are set off by one space each. -/
def linksText (links : List (LinkForm × NodeRef)) : List Char :=
  links.flatMap fun (l, n) => ' ' :: (l.text ++ ' ' :: n.text)

def text (w : WrittenChain) : List Char :=
  w.first.text ++ linksText w.links

def chain (w : WrittenChain) : Chain :=
  ⟨w.first, w.links.map fun (l, n) => ⟨l.arrow, n⟩⟩

def nodes (w : WrittenChain) : List NodeRef :=
  w.first :: w.links.map Prod.snd

structure Plain (w : WrittenChain) : Prop where
  first : w.first.Plain
  links : ∀ link ∈ w.links, link.1.Fits ∧ link.2.Plain
  not_bare : w.links ≠ [] ∨ w.first.label.isSome

instance (w : WrittenChain) : Decidable w.Plain :=
  decidable_of_iff (w.first.Plain ∧ (∀ link ∈ w.links, link.1.Fits ∧ link.2.Plain) ∧
      (w.links ≠ [] ∨ w.first.label.isSome))
    ⟨fun h => ⟨h.1, h.2.1, h.2.2⟩, fun h => ⟨h.first, h.links, h.not_bare⟩⟩

theorem setOff_linksText (links : List (LinkForm × NodeRef)) : SetOff (linksText links) := by
  cases links with
  | nil => exact setOff_nil
  | cons link links => exact setOff_cons _

theorem chainSteps_linksText {links : List (LinkForm × NodeRef)}
    (h : ∀ link ∈ links, link.1.Fits ∧ link.2.Plain) :
    chainSteps (linksText links) = (links.map fun (l, n) => ⟨l.arrow, n⟩, []) := by
  induction links with
  | nil => exact chainSteps_of_eq_none rfl
  | cons link links ih =>
      obtain ⟨l, n⟩ := link
      obtain ⟨hl, hn⟩ := h (l, n) List.mem_cons_self
      have hstep := chainStep_text hl hn (setOff_linksText links)
      have hrest := ih fun link hlink => h link (List.mem_cons_of_mem _ hlink)
      have htext : linksText ((l, n) :: links) =
          ' ' :: (l.text ++ ' ' :: (n.text ++ linksText links)) := by
        simp [linksText]
      rw [htext, chainSteps_of_eq_some hstep, hrest]
      rfl

theorem exists_text_eq (w : WrittenChain) :
    ∃ t, startsInName t = false ∧ w.text = w.first.id.toList ++ t := by
  refine ⟨w.first.label.elim [] (fun label => '[' :: (label.toList ++ [']'])) ++ linksText w.links,
    ?_, by simp [text, NodeRef.text]⟩
  cases w.first.label with
  | none => exact (setOff_linksText w.links).startsInName_eq
  | some label => exact (by decide : isNameChar '[' = false)

theorem chain_text {w : WrittenChain} (hw : w.Plain) : Flow.chain w.text = some (w.chain, []) := by
  have hfirst := nodeRef_text hw.first (setOff_linksText w.links)
  have hsteps := chainSteps_linksText hw.links
  have hne : ¬ (w.links = [] ∧ w.first.label = none) := by
    rintro ⟨hlinks, hlabel⟩
    have := hw.not_bare
    simp [hlinks, hlabel] at this
  simp [Flow.chain, text, hfirst, hsteps, hne, chain]

/-- A chain is recognized with the nodes and the links that it was written from, in their order. -/
theorem recognized_as_written {w : WrittenChain} (hw : w.Plain)
    (hword : w.first.id ∉ statementWords) :
    Rule.recognize? rules w.text = some ("chain", .chain w.chain) ∧
      w.chain.nodes = w.nodes ∧
      w.chain.links.map (fun l => (l.source, l.target)) =
        (w.nodes.map NodeRef.id).zip (w.nodes.map NodeRef.id).tail ∧
      w.chain.links.map Link.arrow = w.links.map fun (form, _) => form.arrow := by
  have hnodes : w.chain.nodes = w.nodes := by
    simp [chain, Chain.nodes, nodes, Function.comp_def]
  refine ⟨?_, hnodes, ?_, ?_⟩
  · obtain ⟨t, ht, htext⟩ := w.exists_text_eq
    rw [htext, recognize?_append hw.first.bare hword ht, ← htext, chain_text hw]
    rfl
  · rw [← hnodes]
    exact w.chain.map_links_eq_zip
  · rw [Chain.map_arrow_links]
    simp [chain, Function.comp_def]

/-- A label inside an arrow, a long arrow with its label in pipes, an empty label on a node and a
dotted line without a point. -/
def mixed : WrittenChain where
  first := ⟨"A", some "Start here"⟩
  links := [
    (.inline ⟨"--", ["-->", "---"], .solid⟩ "yes -- or no" "-->", ⟨"class", none⟩),
    (.piped ⟨.thick 5, true, true, by decide⟩ "a --> b", ⟨"C", some ""⟩),
    (.plain ⟨.dashed 2 1, false, false, by decide⟩, ⟨"D", some "end; (of it"⟩)]

theorem recognized_as_written_mixed :
    String.ofList mixed.text =
        "A[Start here] -- yes -- or no --> class <=====>|a --> b| C[] -..- D[end; (of it]" ∧
      mixed.Plain ∧ mixed.first.id ∉ statementWords ∧
      Rule.recognize? rules mixed.text = some ("chain", .chain mixed.chain) := by
  have hplain : mixed.Plain := by decide
  have hword : mixed.first.id ∉ statementWords := by decide
  exact ⟨by decide, hplain, hword, (recognized_as_written hplain hword).1⟩

end WrittenChain

end TextDiagram.Flow
