import TextDiagram.Proofs.FlowWriting
import TextDiagram.Proofs.NameForms

/-!
# Shapes of brackets

The table of brackets is searched from the front, and each row looks for its closing mark in all of
the text that is left. Two rows can open in the same way, so the first of them may find its closing
mark far behind the label of the second. A label in brackets of any shape is its own as long as
that does not happen.
-/

namespace TextDiagram.Flow

open Text Matcher

def bracketChars : List Char :=
  ['[', ']', '(', ')', '\x7b', '\x7d', '/', '\\', '>']

/-- The rows that are tried before a row, although they open in the same way. -/
def rivals (row : String × String) : List (String × String) :=
  (brackets.takeWhile (· != row)).filter (·.1 == row.1)

/-! ### One label -/

section Label

variable {row : String × String} {label : List Char}

theorem exists_closing_eq (hrow : row ∈ brackets) :
    ∃ c s, row.2.toList = c :: s ∧ c ∈ bracketChars := by
  have hrows : ∀ row ∈ brackets, row.2.toList.head?.any (· ∈ bracketChars) := by decide
  obtain ⟨c, s, hs, hc⟩ := exists_cons_of_head?_any (hrows row hrow)
  exact ⟨c, s, hs, of_decide_eq_true hc⟩

theorem closing_ne_nil (hrow : row ∈ brackets) : row.2.toList ≠ [] := by
  obtain ⟨c, s, hs, _⟩ := exists_closing_eq hrow
  exact hs ▸ List.cons_ne_nil c s

theorem head?_closing_ne (hrow : row ∈ brackets) (hlabel : ∀ c ∈ label, c ∉ bracketChars) :
    ∀ c ∈ label, row.2.toList.head? ≠ some c := by
  obtain ⟨d, s, hs, hd⟩ := exists_closing_eq hrow
  rintro c hc hhead
  rw [hs, List.head?_cons, Option.some.injEq] at hhead
  exact hlabel c hc (hhead ▸ hd)

theorem mem_brackets_of_mem_rivals {b : String × String} (hb : b ∈ rivals row) : b ∈ brackets :=
  (List.takeWhile_sublist _).subset (List.mem_filter.mp hb).1

theorem between_self (hrow : row ∈ brackets) (hlabel : ∀ c ∈ label, c ∉ bracketChars)
    (t : List Char) :
    between row.1 row.2 (row.1.toList ++ (label ++ (row.2.toList ++ t))) = some (label, t) := by
  have hcut := cut?_append_of_head? (closing_ne_nil hrow) (head?_closing_ne hrow hlabel) t
  simpa [between] using hcut

/-- A row that opens differently from a later one is passed over. -/
theorem between_eq_none_of_ne (hrow : row ∈ brackets) (hlabel : ∀ c ∈ label, c ∉ bracketChars)
    {b : String × String} (hb : b ∈ brackets.takeWhile (· != row)) (hne : b.1 ≠ row.1)
    (t : List Char) :
    between b.1 b.2 (row.1.toList ++ (label ++ (row.2.toList ++ t))) = none := by
  have hrows : ∀ row ∈ brackets, ∀ b ∈ brackets.takeWhile (· != row), b.1 ≠ row.1 →
      ¬ b.1.toList <+: row.1.toList ∧ ∀ c ∈ b.1.toList.drop row.1.toList.length,
        c ∈ bracketChars ∧ row.2.toList.head? ≠ some c := by decide
  obtain ⟨hfront, hhead⟩ := hrows row hrow b hb hne
  have hstrip : strip? b.1.toList (row.1.toList ++ (label ++ (row.2.toList ++ t))) = none := by
    refine strip?_append_eq_none hfront ?_
    intro c hc
    obtain ⟨hmem, hclosing⟩ := hhead c (List.mem_of_mem_head? hc)
    cases label with
    | nil =>
        obtain ⟨d, s, hs, _⟩ := exists_closing_eq hrow
        simpa [hs] using hclosing
    | cons d label =>
        rintro ⟨⟩
        exact hlabel c List.mem_cons_self hmem
  simp [between, hstrip]

theorem closing_of_mem_rivals (hrow : row ∈ brackets) {b : String × String}
    (hb : b ∈ rivals row) : b.1 = row.1 ∧ ∀ c ∈ row.2.toList, b.2.toList.head? ≠ some c := by
  have hrows : ∀ row ∈ brackets, ∀ b ∈ rivals row, b.1 = row.1 ∧
      ∀ c ∈ row.2.toList, b.2.toList.head? ≠ some c := by decide
  exact hrows row hrow b hb

/-- A rival can close only behind the label. -/
theorem between_rival_eq_none_iff (hrow : row ∈ brackets) (hlabel : ∀ c ∈ label, c ∉ bracketChars)
    {b : String × String} (hb : b ∈ rivals row) (t : List Char) :
    between b.1 b.2 (row.1.toList ++ (label ++ (row.2.toList ++ t))) = none ↔
      occurs b.2.toList t = false := by
  obtain ⟨hopening, hclosing⟩ := closing_of_mem_rivals hrow hb
  have hrival := mem_brackets_of_mem_rivals hb
  have hne := closing_ne_nil hrival
  rw [← hopening, between, strip?_append, Option.bind_eq_bind, Option.bind_some, cut?_eq_none_iff,
    occurs_append_of_head? hne (head?_closing_ne hrival hlabel),
    occurs_append_of_head? hne hclosing]

theorem between_rival_ne (hrow : row ∈ brackets) {b : String × String} (hb : b ∈ rivals row)
    (t rest : List Char) :
    between b.1 b.2 (row.1.toList ++ (label ++ (row.2.toList ++ t))) ≠ some (label, rest) := by
  intro h
  obtain ⟨hopening, hclosing⟩ := closing_of_mem_rivals hrow hb
  rw [← hopening, between, strip?_append, Option.bind_eq_bind, Option.bind_some] at h
  have hsame := eq_append_of_cut? h
  rw [List.append_assoc, List.append_cancel_left_eq] at hsame
  obtain ⟨c, s, hs, _⟩ := exists_closing_eq hrow
  obtain ⟨d, u, hu, _⟩ := exists_closing_eq (mem_brackets_of_mem_rivals hb)
  rw [hs, hu] at hsame
  refine hclosing c (by simp [hs]) ?_
  rw [hu, List.head?_cons, (List.cons.inj hsame).1]

theorem mem_rivals_of_between (hrow : row ∈ brackets) (hlabel : ∀ c ∈ label, c ∉ bracketChars)
    {b : String × String} (hb : b ∈ brackets.takeWhile (· != row)) {t : List Char}
    (h : between b.1 b.2 (row.1.toList ++ (label ++ (row.2.toList ++ t))) ≠ none) :
    b ∈ rivals row := by
  refine List.mem_filter.mpr ⟨hb, ?_⟩
  by_contra hne
  exact h (between_eq_none_of_ne hrow hlabel hb (by simpa using hne) t)

theorem brackets_split (hrow : row ∈ brackets) :
    ∃ later, brackets = brackets.takeWhile (· != row) ++ row :: later := by
  have hrows : ∀ row ∈ brackets, brackets = brackets.takeWhile (· != row) ++
      row :: (brackets.dropWhile (· != row)).tail := by decide
  exact ⟨_, hrows row hrow⟩

def readRow (s : List Char) (b : String × String) : Option (String × List Char) :=
  (between b.1 b.2 s).map fun (body, rest) => (String.ofList body, rest)

theorem bracketLabel_of_rivals (hrow : row ∈ brackets) (hlabel : ∀ c ∈ label, c ∉ bracketChars)
    {t : List Char} (ht : ∀ b ∈ rivals row, occurs b.2.toList t = false) :
    bracketLabel (row.1.toList ++ (label ++ (row.2.toList ++ t))) =
      some (String.ofList label, t) := by
  obtain ⟨later, hsplit⟩ := brackets_split hrow
  refine List.findSome?_eq_some_iff.mpr ⟨_, row, later, hsplit, ?_, ?_⟩
  · exact congrArg (Option.map _) (between_self hrow hlabel t)
  · intro b hb
    refine Option.map_eq_none_iff.mpr ?_
    by_contra hsome
    have hrival := mem_rivals_of_between hrow hlabel hb hsome
    exact hsome ((between_rival_eq_none_iff hrow hlabel hrival t).mpr (ht b hrival))

theorem rivals_of_bracketLabel (hrow : row ∈ brackets) (hlabel : ∀ c ∈ label, c ∉ bracketChars)
    {t rest : List Char}
    (h : bracketLabel (row.1.toList ++ (label ++ (row.2.toList ++ t))) =
      some (String.ofList label, rest)) :
    ∀ b ∈ rivals row, occurs b.2.toList t = false := by
  let read := readRow (row.1.toList ++ (label ++ (row.2.toList ++ t)))
  intro b hb
  refine (between_rival_eq_none_iff hrow hlabel hb t).mp ?_
  by_contra hsome
  obtain ⟨result, hresult⟩ : ∃ result,
      (brackets.takeWhile (· != row)).findSome? read = some result := by
    rw [← Option.ne_none_iff_exists']
    intro hnone
    have hread := List.findSome?_eq_none_iff.mp hnone b (List.mem_filter.mp hb).1
    exact hsome (Option.map_eq_none_iff.mp hread)
  obtain ⟨later, hsplit⟩ := brackets_split hrow
  have hall : brackets.findSome? read = some (String.ofList label, rest) := h
  rw [hsplit, List.findSome?_append, hresult, Option.some_or, Option.some.injEq] at hall
  obtain ⟨rival, hrival, hread⟩ := List.exists_of_findSome?_eq_some hresult
  obtain ⟨⟨body, after⟩, hbetween, hpair⟩ := Option.map_eq_some_iff.mp hread
  obtain ⟨hbody, rfl⟩ := Prod.mk.inj (hpair.trans hall)
  rw [String.ofList_injective hbody] at hbetween
  have hcloses : between rival.1 rival.2
      (row.1.toList ++ (label ++ (row.2.toList ++ t))) ≠ none := by
    simp [hbetween]
  exact between_rival_ne hrow (mem_rivals_of_between hrow hlabel hrival hcloses) t _ hbetween

theorem bracketLabel_eq_some_iff (hrow : row ∈ brackets) (hlabel : ∀ c ∈ label, c ∉ bracketChars)
    (t : List Char) :
    bracketLabel (row.1.toList ++ (label ++ (row.2.toList ++ t))) =
        some (String.ofList label, t) ↔
      ∀ b ∈ rivals row, occurs b.2.toList t = false :=
  ⟨rivals_of_bracketLabel hrow hlabel, bracketLabel_of_rivals hrow hlabel⟩

/-- Only the two shapes with slanted sides that differ have a rival. -/
theorem rivals_eq (hrow : row ∈ brackets) :
    rivals row =
      if row = ("[/", "\\]") then [("[/", "/]")]
      else if row = ("[\\", "/]") then [("[\\", "\\]")]
      else [] := by
  revert row
  decide

end Label

/-! ### Chains of nodes in any shapes -/

/-- A label with its brackets, free of the characters that brackets are made of. -/
structure ShapedLabel where
  brackets : String × String
  content : String
  mem : brackets ∈ Flow.brackets
  free : ∀ c ∈ content.toList, c ∉ bracketChars

namespace ShapedLabel

def text (l : ShapedLabel) : List Char :=
  l.brackets.1.toList ++ (l.content.toList ++ l.brackets.2.toList)

/-- No rival of the brackets closes in the text behind the label. -/
def Closes (l : ShapedLabel) (t : List Char) : Prop :=
  ∀ b ∈ rivals l.brackets, occurs b.2.toList t = false

instance (l : ShapedLabel) (t : List Char) : Decidable (l.Closes t) :=
  inferInstanceAs (Decidable (∀ b ∈ rivals l.brackets, occurs b.2.toList t = false))

theorem text_append (l : ShapedLabel) (t : List Char) :
    l.text ++ t = l.brackets.1.toList ++ (l.content.toList ++ (l.brackets.2.toList ++ t)) := by
  simp [text]

theorem bracketLabel_text (l : ShapedLabel) {t : List Char} (ht : l.Closes t) :
    bracketLabel (l.text ++ t) = some (l.content, t) := by
  have hread := bracketLabel_of_rivals l.mem l.free ht
  rwa [String.ofList_toList, ← text_append] at hread

theorem closes_of_bracketLabel (l : ShapedLabel) {t rest : List Char}
    (h : bracketLabel (l.text ++ t) = some (l.content, rest)) : l.Closes t := by
  have hread : bracketLabel (l.brackets.1.toList ++ (l.content.toList ++
      (l.brackets.2.toList ++ t))) = some (String.ofList l.content.toList, rest) := by
    rwa [String.ofList_toList, ← text_append]
  exact rivals_of_bracketLabel l.mem l.free hread

theorem startsInName_text (l : ShapedLabel) (t : List Char) :
    startsInName (l.text ++ t) = false := by
  have hopenings : ∀ row ∈ Flow.brackets, row.1.toList.head?.any (!isNameChar ·) := by decide
  obtain ⟨c, s, hs, hc⟩ := exists_cons_of_head?_any (hopenings l.brackets l.mem)
  rw [text_append, hs]
  exact (Bool.not_eq_true' _).mp hc

end ShapedLabel

structure ShapedNode where
  name : NameForm
  label : Option ShapedLabel := none

namespace ShapedNode

def labelText (n : ShapedNode) : List Char :=
  n.label.elim [] ShapedLabel.text

def text (n : ShapedNode) : List Char :=
  n.name.text ++ n.labelText

def node (n : ShapedNode) : NodeRef :=
  ⟨n.name.id, n.label.map ShapedLabel.content⟩

def Closes (n : ShapedNode) (t : List Char) : Prop :=
  ∀ l ∈ n.label, l.Closes t

instance (n : ShapedNode) (t : List Char) : Decidable (n.Closes t) :=
  inferInstanceAs (Decidable (∀ l ∈ n.label, l.Closes t))

variable {n : ShapedNode} {t : List Char}

theorem startsInName_labelText (n : ShapedNode) (ht : SetOff t) :
    startsInName (n.labelText ++ t) = false := by
  cases hlabel : n.label with
  | none => simpa [labelText, hlabel] using ht.startsInName_eq
  | some l => simpa [labelText, hlabel] using l.startsInName_text t

theorem nodeRef_append (hn : n.name.Fits) (ht : SetOff t) :
    nodeRef (n.text ++ t) =
      some (⟨n.name.id, (Matcher.optional bracketLabel (n.labelText ++ t)).1⟩,
        (Matcher.optional styleName (Matcher.optional bracketLabel (n.labelText ++ t)).2).2) := by
  have hname := NameForm.name_text hn (startsInName_labelText n ht)
  rw [text, List.append_assoc, nodeRef, hname]
  rfl

theorem nodeRef_text (hn : n.name.Fits) (ht : SetOff t) (hcloses : n.Closes t) :
    nodeRef (n.text ++ t) = some (n.node, t) := by
  have hlabel : Matcher.optional bracketLabel (n.labelText ++ t) =
      (n.label.map ShapedLabel.content, t) := by
    cases hl : n.label with
    | none => simpa [labelText, hl] using optional_of_eq_none (bracketLabel_eq_none ht)
    | some l =>
        have hread := l.bracketLabel_text (hcloses l hl)
        simpa [labelText, hl] using optional_of_eq_some hread
  rw [nodeRef_append hn ht, hlabel, optional_of_eq_none (styleName_eq_none ht)]
  rfl

/-- A node with its own label has been read up to its own closing mark. -/
theorem closes_of_nodeRef (hn : n.name.Fits) (ht : SetOff t) {rest : List Char}
    (h : nodeRef (n.text ++ t) = some (n.node, rest)) : n.Closes t := by
  intro l hl
  have hl : n.label = some l := hl
  rw [nodeRef_append hn ht] at h
  have hlabel : (Matcher.optional bracketLabel (l.text ++ t)).1 = some l.content := by
    simpa [labelText, node, hl] using congrArg (fun result => result.1.label) (Option.some.inj h)
  cases hread : bracketLabel (l.text ++ t) with
  | none => simp [optional_of_eq_none hread] at hlabel
  | some result =>
      obtain ⟨content, after⟩ := result
      rw [optional_of_eq_some hread] at hlabel
      obtain rfl : content = l.content := Option.some.inj hlabel
      exact l.closes_of_bracketLabel hread

end ShapedNode

structure ShapedChain where
  first : ShapedNode
  links : List (LinkForm × ShapedNode)

namespace ShapedChain

def linksText : List (LinkForm × ShapedNode) → List Char
  | [] => []
  | (l, n) :: links => ' ' :: (l.text ++ ' ' :: (n.text ++ linksText links))

def text (w : ShapedChain) : List Char :=
  w.first.text ++ linksText w.links

def steps (links : List (LinkForm × ShapedNode)) : List ChainStep :=
  links.map fun (l, n) => ⟨l.arrow, n.node⟩

def chain (w : ShapedChain) : Chain :=
  ⟨w.first.node, steps w.links⟩

structure Fits (w : ShapedChain) : Prop where
  first : w.first.name.Fits
  avoids : w.first.name.Avoids statementWords
  links : ∀ link ∈ w.links, link.1.Fits ∧ link.2.name.Fits
  not_bare : w.links ≠ [] ∨ w.first.label.isSome

instance (w : ShapedChain) : Decidable w.Fits :=
  decidable_of_iff (w.first.name.Fits ∧ w.first.name.Avoids statementWords ∧
      (∀ link ∈ w.links, link.1.Fits ∧ link.2.name.Fits) ∧ (w.links ≠ [] ∨ w.first.label.isSome))
    ⟨fun ⟨h₁, h₂, h₃, h₄⟩ => ⟨h₁, h₂, h₃, h₄⟩,
      fun h => ⟨h.first, h.avoids, h.links, h.not_bare⟩⟩

/-- Every label closes before whatever is written behind it. -/
def LinksClose : List (LinkForm × ShapedNode) → Prop
  | [] => True
  | (_, n) :: links => n.Closes (linksText links) ∧ LinksClose links

instance : (links : List (LinkForm × ShapedNode)) → Decidable (LinksClose links)
  | [] => inferInstanceAs (Decidable True)
  | (_, n) :: links =>
      have := instDecidableLinksClose links
      inferInstanceAs (Decidable (n.Closes (linksText links) ∧ LinksClose links))

def Closes (w : ShapedChain) : Prop :=
  w.first.Closes (linksText w.links) ∧ LinksClose w.links

instance (w : ShapedChain) : Decidable w.Closes :=
  inferInstanceAs (Decidable (w.first.Closes (linksText w.links) ∧ LinksClose w.links))

variable {l : LinkForm} {n : ShapedNode} {links : List (LinkForm × ShapedNode)}

theorem setOff_linksText (links : List (LinkForm × ShapedNode)) : SetOff (linksText links) := by
  cases links with
  | nil => exact setOff_nil
  | cons link links => exact setOff_cons _

theorem chainStep_linksText (hl : l.Fits) (hn : n.name.Fits)
    (links : List (LinkForm × ShapedNode)) :
    chainStep (linksText ((l, n) :: links)) =
      (nodeRef (n.text ++ linksText links)).map fun (n, rest) => (⟨l.arrow, n⟩, rest) := by
  have hopens : opensName (n.text ++ linksText links) = true := by
    rw [ShapedNode.text, List.append_assoc]
    exact NameForm.opensName_text hn _
  exact chainStep_text_append hl hopens

theorem chainSteps_linksText (h : ∀ link ∈ links, link.1.Fits ∧ link.2.name.Fits)
    (hcloses : LinksClose links) : chainSteps (linksText links) = (steps links, []) := by
  induction links with
  | nil => exact chainSteps_of_eq_none rfl
  | cons link links ih =>
      obtain ⟨l, n⟩ := link
      obtain ⟨hl, hn⟩ := h (l, n) List.mem_cons_self
      have hnode := ShapedNode.nodeRef_text hn (setOff_linksText links) hcloses.1
      have hstep : chainStep (linksText ((l, n) :: links)) =
          some (⟨l.arrow, n.node⟩, linksText links) := by
        rw [chainStep_linksText hl hn links, hnode]
        rfl
      have hrest := ih (fun link hlink => h link (List.mem_cons_of_mem _ hlink)) hcloses.2
      rw [chainSteps_of_eq_some hstep, hrest]
      rfl

theorem linksClose_of_chainSteps (h : ∀ link ∈ links, link.1.Fits ∧ link.2.name.Fits)
    (hsteps : (chainSteps (linksText links)).1 = steps links) : LinksClose links := by
  induction links with
  | nil => trivial
  | cons link links ih =>
      obtain ⟨l, n⟩ := link
      obtain ⟨hl, hn⟩ := h (l, n) List.mem_cons_self
      have hstep := chainStep_linksText hl hn links
      cases hnode : nodeRef (n.text ++ linksText links) with
      | none =>
          rw [hnode] at hstep
          rw [chainSteps_of_eq_none hstep] at hsteps
          exact absurd hsteps (List.cons_ne_nil _ _).symm
      | some result =>
          obtain ⟨read, rest⟩ := result
          rw [hnode] at hstep
          rw [chainSteps_of_eq_some hstep] at hsteps
          obtain ⟨hhead, htail⟩ := List.cons.inj hsteps
          obtain rfl : read = n.node := congrArg ChainStep.node hhead
          have hcloses := ShapedNode.closes_of_nodeRef hn (setOff_linksText links) hnode
          rw [ShapedNode.nodeRef_text hn (setOff_linksText links) hcloses] at hnode
          obtain ⟨_, rfl⟩ := Prod.mk.inj (Option.some.inj hnode)
          exact ⟨hcloses, ih (fun link hlink => h link (List.mem_cons_of_mem _ hlink)) htail⟩

theorem chain_text {w : ShapedChain} (hw : w.Fits) (hcloses : w.Closes) :
    Flow.chain w.text = some (w.chain, []) := by
  have hfirst := ShapedNode.nodeRef_text hw.first (setOff_linksText w.links) hcloses.1
  have hsteps := chainSteps_linksText hw.links hcloses.2
  have hne : ¬ (steps w.links = [] ∧ w.first.node.label = none) := by
    rintro ⟨hlinks, hlabel⟩
    have hbare := hw.not_bare
    simp [List.map_eq_nil_iff.mp hlinks, Option.map_eq_none_iff.mp hlabel] at hbare
  simp [Flow.chain, text, hfirst, hsteps, hne, chain]

theorem closes_of_chain {w : ShapedChain} (hw : w.Fits) {rest : List Char}
    (h : Flow.chain w.text = some (w.chain, rest)) : w.Closes := by
  obtain ⟨⟨first, behind⟩, hfirst, h⟩ := Option.bind_eq_some_iff.mp h
  obtain ⟨_, hchain⟩ := Option.ite_none_left_eq_some.mp h
  obtain ⟨hread, _⟩ := Prod.mk.inj (Option.some.inj hchain)
  obtain ⟨rfl, hsteps⟩ := Chain.mk.inj hread
  rw [text] at hfirst
  have hcloses := ShapedNode.closes_of_nodeRef hw.first (setOff_linksText w.links) hfirst
  rw [ShapedNode.nodeRef_text hw.first (setOff_linksText w.links) hcloses] at hfirst
  obtain ⟨_, rfl⟩ := Prod.mk.inj (Option.some.inj hfirst)
  exact ⟨hcloses, linksClose_of_chainSteps hw.links hsteps⟩

theorem recognize?_iff {w : ShapedChain} (hw : w.Fits) :
    Rule.recognize? rules w.text = some ("chain", .chain w.chain) ↔ w.Closes := by
  have hstart : startsInName (w.first.labelText ++ linksText w.links) = false :=
    w.first.startsInName_labelText (setOff_linksText w.links)
  have hwords : anyWord? statementWords w.text = none := by
    rw [text, ShapedNode.text, List.append_assoc]
    exact NameForm.anyWord?_text hw.first (by decide) (by decide) hw.avoids hstart
  rw [recognize?_eq_of_anyWord? hwords, Option.map_eq_some_iff]
  constructor
  · rintro ⟨⟨c, rest⟩, hchain, hpair⟩
    obtain rfl : c = w.chain := by simpa using hpair
    exact closes_of_chain hw hchain
  · exact fun hcloses => ⟨_, chain_text hw hcloses, rfl⟩

end ShapedChain

/-- A label ends at its own closing mark, and a chain keeps every label, exactly if no rival of the
brackets closes further on. -/
theorem labels_close_iff_no_rival_closes {row : String × String} (hrow : row ∈ brackets)
    {label : List Char} (hlabel : ∀ c ∈ label, c ∉ bracketChars) (rest : List Char) :
    (bracketLabel (row.1.toList ++ (label ++ (row.2.toList ++ rest))) =
        some (String.ofList label, rest) ↔
      ∀ b ∈ rivals row, occurs b.2.toList rest = false) ∧
    (rivals row =
      if row = ("[/", "\\]") then [("[/", "/]")]
      else if row = ("[\\", "/]") then [("[\\", "\\]")]
      else []) ∧
    ∀ w : ShapedChain, w.Fits →
      (Rule.recognize? rules w.text = some ("chain", .chain w.chain) ↔ w.Closes) :=
  ⟨bracketLabel_eq_some_iff hrow hlabel rest, rivals_eq hrow,
    fun _ hw => ShapedChain.recognize?_iff hw⟩

def slanted : ShapedChain where
  first := ⟨.bare "A", some ⟨("[/", "\\]"), "x", by decide, by decide⟩⟩
  links := [
    (.plain ⟨.solid 2, false, true, by decide⟩,
      ⟨.quoted '"' "B c", some ⟨("([", "])"), "y;", by decide, by decide⟩⟩),
    (.inline ⟨"--", ["-->", "---"], .solid⟩ "go" "-->",
      ⟨.bare "end", some ⟨(">", "]"), "", by decide, by decide⟩⟩),
    (.plain ⟨.dashed 1 1, false, true, by decide⟩,
      ⟨.bare "D", some ⟨("[/", "\\]"), "z", by decide, by decide⟩⟩)]

theorem labels_close_iff_no_rival_closes_slanted :
    ("[/", "\\]") ∈ brackets ∧ (∀ c ∈ ['x'], c ∉ bracketChars) ∧
      String.ofList slanted.text =
        "A[/x\\] --> \"B c\"([y;]) -- go --> end>] -.-> D[/z\\]" ∧
      slanted.Fits ∧ slanted.Closes ∧
      bracketLabel "[/x\\] --> B[y]".toList = some ("x", " --> B[y]".toList) ∧
      Rule.recognize? rules slanted.text = some ("chain", .chain slanted.chain) := by
  have hrow : ("[/", "\\]") ∈ brackets := by decide
  have hfree : ∀ c ∈ ['x'], c ∉ bracketChars := by decide
  have hfits : slanted.Fits := by decide
  have hcloses : slanted.Closes := by decide
  obtain ⟨hlabel, _, hchain⟩ :=
    labels_close_iff_no_rival_closes hrow hfree " --> B[y]".toList
  exact ⟨hrow, hfree, by decide, hfits, hcloses, hlabel.mpr (by decide),
    (hchain slanted hfits).mpr hcloses⟩

/-- The closing mark of a rival is looked for in all that is left, so it may be that of a later
label. -/
theorem label_lost_to_later_closing :
    bracketLabel "[/x\\] --> B[/y/]".toList = some ("x\\] --> B[/y", []) ∧
      Rule.recognize? rules "A[/x\\] --> B[/y/]".toList =
        some ("chain", .chain ⟨⟨"A", some "x\\] --> B[/y"⟩, []⟩) := by
  constructor <;> decide +kernel

end TextDiagram.Flow
