import TextDiagram.Proofs.FlowSplitting
import TextDiagram.Proofs.FlowWriting
import TextDiagram.Proofs.Growth

/-!
# Supplied labels

A node that is declared again takes the label of the new declaration, so the last label counts. But
a declaration without a label is read as one that has the id for its label. A label that spells the
id is taken for such a one, and it leaves the node with the last label that is different.
-/

namespace TextDiagram

open Text Matcher

theorem shownLabel_eq_id_iff {id : String} {labels : List String} :
    shownLabel id labels = id ↔ ∀ label ∈ labels, label = id := by
  rw [shownLabel]
  cases hlast : (labels.filter fun label => label ≠ id).getLast? with
  | none =>
      rw [List.getLast?_eq_none_iff, List.filter_eq_nil_iff] at hlast
      simpa using hlast
  | some last =>
      obtain ⟨hmem, hlast⟩ := List.mem_filter.mp (List.mem_of_getLast? hlast)
      have hne : last ≠ id := by simpa using hlast
      exact iff_of_false hne fun hall => hne (hall last hmem)

/-- The label that comes last is shown, unless it is the id and hides behind an earlier one. -/
theorem shownLabel_concat_eq_iff {id label : String} {labels : List String} :
    shownLabel id (labels ++ [label]) = label ↔ label ≠ id ∨ ∀ l ∈ labels, l = id := by
  rw [shownLabel_concat]
  by_cases hlabel : label = id
  · rw [if_pos hlabel, hlabel, shownLabel_eq_id_iff]
    simp
  · simp [hlabel]

/-- The graph has a node of the kind with the last label that was supplied for the id, after the
earlier ones, if that label is different from the id or if no earlier one is. -/
structure Graph.ShowsLast (g : Graph) (kind : NodeKind) (id : String) (earlier : List String)
    (last : String) : Prop where
  node : g.node? id =
    some { id, label := if last = id then shownLabel id earlier else last, kind }
  label_iff : (g.node? id).map Node.label = some last ↔ last ≠ id ∨ ∀ label ∈ earlier, label = id

theorem Graph.showsLast_of_node? {g : Graph} {kind : NodeKind} {id last : String}
    {earlier : List String}
    (h : g.node? id = some { id, label := shownLabel id (earlier ++ [last]), kind }) :
    g.ShowsLast kind id earlier last where
  node := by rw [h, shownLabel_concat]
  label_iff := by
    rw [h, Option.map_some, Option.some.injEq]
    exact shownLabel_concat_eq_iff

/-! ### Flowcharts -/

namespace Flow

/-- The line that gives a node its label in square brackets. -/
def labelLine (id label : String) : String :=
  id ++ "[" ++ label ++ "]"

/-- The labels that a chart supplies for the id, in the order of the text. -/
def labelsOf (source : List Char) (id : String) : List String :=
  ((labeledNodes (chains source)).filter fun n => n.1 = id).map Prod.snd

/-- The id needs no quotes and starts no other statement. The label stays on its line and holds
nothing that could be read as a part of the brackets around it. -/
structure Labelable (id label : String) : Prop where
  bare : Bare id
  notMem_words : id ∉ statementWords
  plain : ∀ c ∈ label.toList, c ∉ '\n' :: '/' :: '\\' :: nestingChars

instance (id label : String) : Decidable (Labelable id label) :=
  decidable_of_iff (Bare id ∧ id ∉ statementWords ∧
      ∀ c ∈ label.toList, c ∉ '\n' :: '/' :: '\\' :: nestingChars)
    ⟨fun h => ⟨h.1, h.2.1, h.2.2⟩, fun h => ⟨h.bare, h.notMem_words, h.plain⟩⟩

theorem toList_labelLine (id label : String) :
    (labelLine id label).toList = id.toList ++ (['['] ++ label.toList ++ [']']) := by
  simp [labelLine]

namespace Labelable

variable {id label : String} (h : Labelable id label)

include h

theorem notMem_label {c : Char} (hc : c ∈ '\n' :: '/' :: '\\' :: nestingChars) :
    c ∉ label.toList :=
  fun hmem => h.plain c hmem hc

theorem plain_node : NodeRef.Plain ⟨id, some label⟩ := by
  refine ⟨h.bare, ?_, ?_⟩
  · rintro _ ⟨⟩
    exact h.notMem_label (by decide)
  · rintro _ ⟨⟩ hhead
    have hchars : ∀ c ∈ ['[', '(', '/', '\\'], c ∈ '\n' :: '/' :: '\\' :: nestingChars := by decide
    obtain ⟨c, hc, hhead⟩ : ∃ c ∈ ['[', '(', '/', '\\'], some c = label.toList.head? :=
      List.mem_map.mp hhead
    exact h.notMem_label (hchars c hc) (List.mem_of_head? hhead.symm)

theorem chain_labelLine :
    chain (labelLine id label).toList = some (⟨⟨id, some label⟩, []⟩, []) := by
  have hplain : (WrittenChain.mk ⟨id, some label⟩ []).Plain :=
    ⟨h.plain_node, by simp, .inr rfl⟩
  have htext : (labelLine id label).toList = (WrittenChain.mk ⟨id, some label⟩ []).text := by
    simp [labelLine, WrittenChain.text, WrittenChain.linksText, NodeRef.text]
  rw [htext]
  exact WrittenChain.chain_text hplain

theorem meaning?_labelLine :
    Rule.meaning? rules (labelLine id label).toList =
      some (.chain ⟨⟨id, some label⟩, []⟩) := by
  have hbracket : startsInName (['['] ++ label.toList ++ [']']) = false :=
    (by decide : isNameChar '[' = false)
  have hrecognized := recognize?_append h.bare h.notMem_words hbracket
  rw [← toList_labelLine, h.chain_labelLine] at hrecognized
  rw [Rule.meaning?, hrecognized]
  rfl

/-- Whatever semicolons are in the label, they are inside the brackets. -/
theorem keeps_labelLine : Nesting.outside.Keeps (labelLine id label).toList := by
  have hnameless : ∀ c ∈ ';' :: nestingChars, isNameChar c = false := by decide
  have hid : Nesting.outside.Keeps id.toList := by
    refine Nesting.keeps_of_level ?_ (.inr (h.bare.notMem (hnameless _ List.mem_cons_self)))
    exact fun c hc hmem => h.bare.notMem (hnameless c (List.mem_cons_of_mem _ hmem)) hc
  have hlabel : (Nesting.outside.after ['[']).Keeps label.toList := by
    refine Nesting.keeps_of_level ?_ (.inl (by decide))
    exact fun c hc hmem => h.plain c hc (by simp [hmem])
  rw [toList_labelLine]
  exact hid.append (.between (by decide) hlabel (by decide) (by decide))

theorem trim_labelLine : trim (labelLine id label).toList = (labelLine id label).toList := by
  have hid : trim id.toList = id.toList :=
    trim_eq_self fun c hc => isBlank_eq_false_of_isNameChar (h.bare.isNameChar c hc)
  have hclosing : trim [']'] = [']'] := by decide
  rw [toList_labelLine]
  exact trim_append hid h.bare.ne_nil hclosing (List.cons_ne_nil _ _) _

theorem notMem_labelLine : '\n' ∉ (labelLine id label).toList := by
  have hid : '\n' ∉ id.toList := h.bare.notMem (by decide)
  have hlabel : '\n' ∉ label.toList := h.notMem_label (by decide)
  simp [toList_labelLine, hid, hlabel]

theorem chains_labelLine : chains (labelLine id label).toList = [⟨⟨id, some label⟩, []⟩] := by
  let line := (labelLine id label).toList
  have hseparable : Separable [line] :=
    ⟨List.forall_mem_singleton.mpr h.keeps_labelLine.separatesIn, by simp⟩
  have hstatements : statements line = [line] := by
    have hjoined := statements_lines (List.cons_ne_nil line [])
      (List.forall_mem_singleton.mpr h.trim_labelLine)
      (List.forall_mem_singleton.mpr h.notMem_labelLine)
      (List.forall_mem_singleton.mpr ⟨_, h.chain_labelLine⟩) hseparable
    simpa using hjoined
  rw [chains, hstatements, List.filterMap_cons_some h.meaning?_labelLine]
  rfl

theorem labelsOf_append_cons (source : List Char) :
    labelsOf (source ++ '\n' :: (labelLine id label).toList) id =
      labelsOf source id ++ [label] := by
  rw [labelsOf, chains_append_cons, h.chains_labelLine, labeledNodes_append, List.filter_append,
    List.map_append, labelsOf]
  simp [labeledNodes, Chain.nodes]

end Labelable

theorem node?_graph_of_mem {source : List Char} {id : String}
    (hid : id ∈ (labeledNodes (chains source)).map Prod.fst) :
    (Dialect.flow.graph source).node? id =
      some { id, label := shownLabel id (labelsOf source id), kind := .node } :=
  Dialect.node?_graph (OrderedMap.mem_values_of_get? (get?_scan hid)) rfl

theorem Labelable.showsLast {id label : String} (h : Labelable id label) (source : List Char) :
    (Dialect.flow.graph (source ++ '\n' :: (labelLine id label).toList)).ShowsLast .node id
      (labelsOf source id) label := by
  have hlabels := h.labelsOf_append_cons source
  apply Graph.showsLast_of_node?
  rw [← hlabels]
  apply node?_graph_of_mem
  have hmem : label ∈ labelsOf (source ++ '\n' :: (labelLine id label).toList) id := by
    rw [hlabels]
    exact List.mem_append_right _ List.mem_cons_self
  obtain ⟨n, hn, _⟩ := List.mem_map.mp hmem
  obtain ⟨hn, hid⟩ := List.mem_filter.mp hn
  exact List.mem_map.mpr ⟨n, hn, of_decide_eq_true hid⟩

end Flow

/-! ### Sequence diagrams -/

namespace Sequence

/-- The labels that participant lines supply for the id, in the order of the text. -/
def Contents.aliasesOf (c : Contents) (id : String) : List String :=
  (c.participants.filter fun d => d.id = id).filterMap Declaration.alias?

theorem Contents.roleNode_eq {c : Contents} {id : String}
    (hactor : id ∉ c.actors.map Declaration.id) (kind : NodeKind) :
    c.roleNode kind id = { id, label := shownLabel id (c.aliasesOf id), kind } := by
  have hnone : c.actors.filter (fun d => d.id = id) = [] := by
    rw [List.filter_eq_nil_iff]
    exact fun d hd hid => hactor (List.mem_map.mpr ⟨d, hd, of_decide_eq_true hid⟩)
  rw [roleNode, declarations, List.filter_append, hnone, List.append_nil]
  rfl

theorem Contents.mem_participants_of_mem_aliasesOf {c : Contents} {id label : String}
    (h : label ∈ c.aliasesOf id) : id ∈ c.participants.map Declaration.id := by
  obtain ⟨d, hd, _⟩ := List.mem_filterMap.mp h
  obtain ⟨hd, hid⟩ := List.mem_filter.mp hd
  exact List.mem_map.mpr ⟨d, hd, of_decide_eq_true hid⟩

theorem node?_graph_of_mem_participants {source : List Char} {id : String}
    (hid : id ∈ (contents source).participants.map Declaration.id) :
    (Dialect.sequence.graph source).node? id =
      some ((contents source).roleNode .participant id) := by
  refine Dialect.node?_graph ?_ rfl
  rw [scan_eq_run, Contents.values_run_steps, Contents.roleNodes, List.append_assoc,
    List.append_assoc]
  exact List.mem_append_left _ (List.mem_map_of_mem (List.mem_eraseDups.mpr hid))

theorem showsLast_of_aliasesOf {source : List Char} {id last : String} {earlier : List String}
    (h : (contents source).aliasesOf id = earlier ++ [last])
    (hactor : id ∉ (contents source).actors.map Declaration.id) :
    (Dialect.sequence.graph source).ShowsLast .participant id earlier last := by
  have hmem : last ∈ (contents source).aliasesOf id := by
    rw [h]
    exact List.mem_append_right _ List.mem_cons_self
  apply Graph.showsLast_of_node?
  rw [node?_graph_of_mem_participants (Contents.mem_participants_of_mem_aliasesOf hmem),
    Contents.roleNode_eq hactor, h]

end Sequence

/-! ### Parsed texts -/

/-- The label that a chart supplies in its last line is shown, and so is the last one that a
participant gets, whatever was said before. The one exception is a label that spells the id: it
counts as none, so that the last different label stays. -/
theorem Parser.last_supplied_label_shown (p : Parser) (source id label : String) :
    (Flow.Labelable id label →
      p.dialectOf? (source ++ "\n" ++ Flow.labelLine id label) = some .flow →
      (p.parse (source ++ "\n" ++ Flow.labelLine id label)).ShowsLast .node id
        (Flow.labelsOf source.toList id) label) ∧
    (p.dialectOf? source = some .sequence →
      ∀ earlier, (Sequence.contents source.toList).aliasesOf id = earlier ++ [label] →
        id ∉ (Sequence.contents source.toList).actors.map Sequence.Declaration.id →
        (p.parse source).ShowsLast .participant id earlier label) := by
  refine ⟨?_, ?_⟩
  · intro h hdialect
    have htext : (source ++ "\n" ++ Flow.labelLine id label).toList =
        source.toList ++ '\n' :: (Flow.labelLine id label).toList := by simp
    rw [Parser.parse_eq_graph hdialect, htext]
    exact h.showsLast source.toList
  · intro hdialect earlier haliases hactor
    rw [Parser.parse_eq_graph hdialect]
    exact Sequence.showsLast_of_aliasesOf haliases hactor

/-- A label with a semicolon and an arrow in it comes behind two others, and an alias that is the id
behind one that is not. -/
theorem Parser.last_supplied_label_shown_twice :
    Flow.Labelable "X" "a; b --> 'c" ∧
      (forced .flow).dialectOf?
        ("X[foo] --> Y; X(bar)" ++ "\n" ++ Flow.labelLine "X" "a; b --> 'c") = some .flow ∧
      ((forced .flow).parse
        ("X[foo] --> Y; X(bar)" ++ "\n" ++ Flow.labelLine "X" "a; b --> 'c")).ShowsLast .node "X"
          (Flow.labelsOf "X[foo] --> Y; X(bar)".toList "X") "a; b --> 'c" ∧
      ((forced .sequence).parse "participant X as foo\nX ->> Y\nparticipant X as X").ShowsLast
        .participant "X" ["foo"] "X" := by
  have hlabelable : Flow.Labelable "X" "a; b --> 'c" := by decide
  have hflow := (last_supplied_label_shown (forced .flow) "X[foo] --> Y; X(bar)" "X"
    "a; b --> 'c").1 hlabelable rfl
  have hsequence := (last_supplied_label_shown (forced .sequence)
    "participant X as foo\nX ->> Y\nparticipant X as X" "X" "X").2 rfl ["foo"]
    (by decide +kernel) (by decide +kernel)
  exact ⟨hlabelable, rfl, hflow, hsequence⟩

/-- A last label that is the id does not take the place of the one before it. -/
theorem Parser.label_equal_to_id_not_shown :
    Flow.Labelable "X" "X" ∧
      detecting.dialectOf? ("flowchart LR\nX[foo]" ++ "\n" ++ Flow.labelLine "X" "X") =
        some .flow ∧
      (detecting.parse ("flowchart LR\nX[foo]" ++ "\n" ++ Flow.labelLine "X" "X")).node? "X" =
        some { id := "X", label := "foo", kind := .node } := by
  decide +kernel

end TextDiagram
