import TextDiagram.Proofs.FlowWriting
import TextDiagram.Proofs.Lines
import TextDiagram.Proofs.OpenBlocks
import TextDiagram.Proofs.SequenceAssembly
import TextDiagram.Proofs.TypedGraphs

/-!
# Labels of edges

Whatever way a label is written, it is trimmed before an edge gets it. A text behind a colon that is
blank counts for nothing, and an arrow around a blank text is none. Pipes are the exception: an
arrow with blank pipes behind it has the empty text for its label. So an edge has an empty label
exactly if the last label that is written between its nodes stands in blank pipes.
-/

namespace TextDiagram

open Text Matcher

/-! ### Texts that become labels -/

/-- A trimmed text that is not empty. -/
def IsText (text : String) : Prop :=
  trim text.toList = text.toList ∧ text ≠ ""

theorem Matcher.trim_restText (s : List Char) : trim (restText s).toList = (restText s).toList := by
  rw [restText, String.toList_ofList, trim_trim]

theorem Matcher.restText_eq_empty_iff {s : List Char} :
    restText s = "" ↔ ∀ c ∈ s, isBlank c = true := by
  rw [← trim_eq_nil_iff, restText, ← String.toList_inj, String.toList_ofList]
  rfl

theorem Matcher.colonText_eq_some {s : List Char} {text : String} (h : colonText s = some text) :
    IsText text := by
  obtain ⟨hsome, hne⟩ := Option.filter_eq_some_iff.mp h
  obtain ⟨rest, _, rfl⟩ := Option.map_eq_some_iff.mp hsome
  exact ⟨trim_restText rest, by simpa using hne⟩

/-- A colon with nothing but blanks behind it is as good as no colon. -/
theorem Matcher.colonText_append_blank {s blank : List Char} (hs : afterColon? s = none)
    (hblank : ∀ c ∈ blank, isBlank c = true) :
    colonText (s ++ ':' :: blank) = colonText s := by
  have hnone : colonText s = none := by rw [colonText, hs]; rfl
  rw [hnone, colonText, afterColon?, skipGap_append_cons (by decide)]
  cases hgap : skipGap s with
  | nil =>
      have hempty : restText blank = "" := restText_eq_empty_iff.mpr hblank
      simp [strip?, hempty]
  | cons c t =>
      rw [afterColon?, hgap] at hs
      have hc : ':' ≠ c := by
        rintro rfl
        simp [strip?] at hs
      simp [strip?, hc]

/-! ### Flowcharts -/

namespace Flow

/-- A plain arrow, and behind it two pipes with nothing but blanks between them. -/
def HasBlankPipes (s rest : List Char) : Prop :=
  ∃ style t body, plainArrow s = some (style, t) ∧
    between "|" "|" (skipGap t) = some (body, rest) ∧ ∀ c ∈ body, isBlank c = true

theorem label_of_inlineArrow {s rest : List Char} {a : Arrow}
    (h : inlineArrow s = some (a, rest)) :
    ∃ text, a.label = some text ∧ IsText text := by
  obtain ⟨form, _, h⟩ := List.exists_of_findSome?_eq_some h
  obtain ⟨_, _, h⟩ := Option.bind_eq_some_iff.mp h
  obtain ⟨⟨body, _⟩, _, h⟩ := Option.bind_eq_some_iff.mp h
  obtain ⟨hfull, heq⟩ := Option.ite_none_left_eq_some.mp h
  obtain ⟨rfl, _⟩ := Prod.mk.inj (Option.some.inj heq)
  refine ⟨restText body, rfl, trim_restText body, fun hempty => hfull ?_⟩
  rw [List.isEmpty_iff, trim_eq_nil_iff]
  exact restText_eq_empty_iff.mp hempty

theorem isArrowChar_eq_false_of_isBlank {c : Char} (hc : isBlank c = true) :
    isArrowChar c = false := by
  have hchars : ∀ d ∈ ['-', '.', '=', '>'], isBlank d = false := by decide
  by_contra harrow
  have hnone := hchars c (of_decide_eq_true ((Bool.not_eq_false _).mp harrow))
  rw [hc] at hnone
  exact Bool.false_ne_true hnone.symm

/-- With nothing but blanks inside, an arrow around a label is not read as one. -/
theorem inlineArrow_blank {form : InlineForm} (hform : form ∈ inlineForms) {closing : String}
    (hclosing : closing ∈ form.closings) {blank : List Char}
    (hblank : ∀ c ∈ blank, isBlank c = true) (s : List Char) :
    inlineArrow (form.opening.toList ++ (blank ++ (closing.toList ++ s))) = none := by
  rw [inlineArrow_opening hform]
  cases blank with
  | nil =>
      have hclosings : ∀ f ∈ inlineForms, ∀ m ∈ f.closings,
          (∀ c ∈ m.toList, isArrowChar c = true) ∧ m.toList ≠ [] := by decide
      obtain ⟨hchars, hne⟩ := hclosings form hform closing hclosing
      have hlong : form.opening.toList ≠ form.opening.toList ++ closing.toList := by
        simpa using hne
      rw [List.nil_append, ← List.append_assoc]
      refine form.arrow_eq_none hform ?_ ?_ hlong s
      · exact List.forall_mem_append.mpr ⟨form.isArrowChar_of_mem_opening hform, hchars⟩
      · rw [List.length_append, form.length_opening hform]
        exact Nat.le_add_right 2 _
  | cons c blank =>
      have hinside : ∀ d ∈ c :: blank, isArrowChar d = false :=
        fun d hd => isArrowChar_eq_false_of_isBlank (hblank d hd)
      have hstrip : (stripAny? (form.closings.map String.toList) (closing.toList ++ s)).isSome := by
        rw [stripAny?, List.findSome?_isSome_iff]
        exact ⟨closing.toList, List.mem_map_of_mem hclosing, by rw [strip?_append]; rfl⟩
      obtain ⟨rest, hcut⟩ := exists_cutAny?_append
        (fun d hd => form.notMem_closing hform (hinside d hd)) hstrip
      have hopening : startsInArrow (c :: blank ++ (closing.toList ++ s)) = false :=
        hinside c List.mem_cons_self
      rw [form.arrow_opening hopening, hcut]
      simp [trim_eq_nil_iff.mpr hblank]

theorem pipedArrow_eq_some_iff {s rest : List Char} {a : Arrow} :
    pipedArrow s = some (a, rest) ↔
      ∃ t, plainArrow s = some (a.style, t) ∧ Matcher.optional pipeLabel t = (a.label, rest) := by
  rw [pipedArrow]
  cases plainArrow s with
  | none => simp
  | some read =>
      obtain ⟨style, t⟩ := read
      constructor
      · intro h
        obtain ⟨rfl, rfl⟩ := Prod.mk.inj (Option.some.inj h)
        exact ⟨t, rfl, rfl⟩
      · rintro ⟨_, hplain, hoptional⟩
        obtain ⟨rfl, rfl⟩ := Prod.mk.inj (Option.some.inj hplain)
        simp [hoptional]

theorem optional_pipeLabel_eq_some_iff {t rest : List Char} {text : String} :
    Matcher.optional pipeLabel t = (some text, rest) ↔
      ∃ body, between "|" "|" (skipGap t) = some (body, rest) ∧ restText body = text := by
  rw [Matcher.optional, pipeLabel]
  cases between "|" "|" (skipGap t) with
  | none => simp
  | some read =>
      obtain ⟨body, rest'⟩ := read
      simp only [Option.map_some, Prod.mk.injEq, Option.some.injEq]
      constructor
      · rintro ⟨rfl, rfl⟩
        exact ⟨body, ⟨rfl, rfl⟩, rfl⟩
      · rintro ⟨_, ⟨rfl, rfl⟩, rfl⟩
        exact ⟨rfl, rfl⟩

theorem trim_label_of_arrow {s rest : List Char} {a : Arrow} (h : arrow s = some (a, rest)) :
    ∀ text ∈ a.label, trim text.toList = text.toList := by
  intro text htext
  rcases Matcher.orElse_eq_some_iff.mp h with hinline | ⟨_, hpiped⟩
  · obtain ⟨_, hlabel, htrim, _⟩ := label_of_inlineArrow hinline
    obtain rfl := Option.some.inj (hlabel.symm.trans htext)
    exact htrim
  · obtain ⟨t, _, hoptional⟩ := pipedArrow_eq_some_iff.mp hpiped
    rw [Option.mem_def.mp htext] at hoptional
    obtain ⟨body, _, rfl⟩ := optional_pipeLabel_eq_some_iff.mp hoptional
    exact trim_restText body

/-- There is one way only in which an arrow is written with an empty label. -/
theorem label_eq_empty_iff {s rest : List Char} {a : Arrow} (h : arrow s = some (a, rest)) :
    a.label = some "" ↔ inlineArrow s = none ∧ HasBlankPipes s rest := by
  rcases Matcher.orElse_eq_some_iff.mp h with hinline | ⟨hnone, hpiped⟩
  · obtain ⟨text, hlabel, _, hne⟩ := label_of_inlineArrow hinline
    simp [hinline, hlabel, hne]
  · obtain ⟨t, hplain, hoptional⟩ := pipedArrow_eq_some_iff.mp hpiped
    rw [and_iff_right hnone]
    constructor
    · intro hempty
      rw [hempty] at hoptional
      obtain ⟨body, hbody, hblank⟩ := optional_pipeLabel_eq_some_iff.mp hoptional
      exact ⟨a.style, t, body, hplain, hbody, restText_eq_empty_iff.mp hblank⟩
    · rintro ⟨style, t', body, hplain', hbody, hblank⟩
      obtain ⟨-, rfl⟩ := Prod.mk.inj (Option.some.inj (hplain.symm.trans hplain'))
      have hempty : Matcher.optional pipeLabel t = (some "", rest) :=
        optional_pipeLabel_eq_some_iff.mpr ⟨body, hbody, restText_eq_empty_iff.mpr hblank⟩
      exact congrArg Prod.fst (hoptional.symm.trans hempty)

theorem arrow_of_mem_chainSteps (s : List Char) :
    ∀ step ∈ (chainSteps s).1, ∃ t rest, arrow t = some (step.arrow, rest) := by
  induction s using chainSteps.induct with
  | case1 s hnone => simp [chainSteps_of_eq_none hnone]
  | case2 s step rest hstep _ _ _ _ ih =>
      rw [chainSteps_of_eq_some hstep, List.forall_mem_cons]
      obtain ⟨⟨a, t⟩, harrow, h⟩ := Option.bind_eq_some_iff.mp hstep
      obtain ⟨_, _, h⟩ := Option.bind_eq_some_iff.mp h
      obtain ⟨rfl, _⟩ := Prod.mk.inj (Option.some.inj h)
      exact ⟨⟨_, t, harrow⟩, ih⟩

/-- Every link of a chart has an arrow that is read somewhere. -/
theorem arrow_of_mem_links {source : List Char} {l : Link}
    (hl : l ∈ (chains source).flatMap Chain.links) : ∃ t rest, arrow t = some (l.arrow, rest) := by
  obtain ⟨c, hc, hl⟩ := List.mem_flatMap.mp hl
  obtain ⟨f, hf, hfc⟩ := List.mem_filterMap.mp hc
  obtain ⟨s, _, hs⟩ := List.mem_filterMap.mp hf
  cases f with
  | directive => cases hfc
  | chain k =>
      obtain rfl := Option.some.inj hfc
      obtain ⟨_, hchain⟩ := chain_of_meaning? hs
      obtain ⟨⟨first, t⟩, _, h⟩ := Option.bind_eq_some_iff.mp hchain
      obtain ⟨_, heq⟩ := Option.ite_none_left_eq_some.mp h
      obtain ⟨rfl, _⟩ := Prod.mk.inj (Option.some.inj heq)
      have hmem : l.arrow ∈ (Chain.mk first (chainSteps t).1).links.map Link.arrow :=
        List.mem_map_of_mem hl
      rw [Chain.map_arrow_links] at hmem
      obtain ⟨step, hstep, heq⟩ := List.mem_map.mp hmem
      exact heq ▸ arrow_of_mem_chainSteps t step hstep

/-- The label of an edge is that of a link between its nodes. -/
theorem EdgesRead.exists_link {plain labeled : List Link} {edges : List Edge}
    (h : EdgesRead plain labeled edges) {e : Edge} (he : e ∈ edges) {text : String}
    (htext : e.label = some text) :
    lastLabel? labeled e.ends = some text ∧
      ∃ l ∈ labeled, l.ends = e.ends ∧ l.arrow.label = some text := by
  obtain ⟨i, hi⟩ := List.mem_iff_getElem?.mp he
  have hlabel := h.labels i e hi
  rw [htext] at hlabel
  split at hlabel
  · cases hlabel
  · obtain ⟨l, hl, htext⟩ := List.mem_filterMap.mp (List.mem_of_getLast? hlabel.symm)
    obtain ⟨hl, hends⟩ := List.mem_filter.mp hl
    exact ⟨hlabel.symm, l, hl, of_decide_eq_true hends, htext⟩

/-- An edge with an empty label comes from a pair of nodes whose last label is empty. -/
theorem exists_label_eq_empty_iff {plain labeled : List Link} {edges : List Edge}
    (h : EdgesRead plain labeled edges) :
    (∃ e ∈ edges, e.label = some "") ↔ ∃ l ∈ labeled, lastLabel? labeled l.ends = some "" := by
  constructor
  · rintro ⟨e, he, hempty⟩
    obtain ⟨hlast, l, hl, hends, _⟩ := h.exists_link he hempty
    exact ⟨l, hl, hends ▸ hlast⟩
  · rintro ⟨l, hl, hempty⟩
    have hmem : l.ends ∈ edges.map Edge.ends :=
      (h.mem_ends_iff l.ends).mpr (.inr (List.mem_map_of_mem hl))
    have hfound : (edges.findIdx? fun e => e.ends = l.ends).isSome := by
      obtain ⟨e, he, hends⟩ := List.mem_map.mp hmem
      rw [List.findIdx?_isSome, List.any_eq_true]
      exact ⟨e, he, by simpa using hends⟩
    obtain ⟨k, hk⟩ := Option.isSome_iff_exists.mp hfound
    obtain ⟨hlt, hends, _⟩ := List.findIdx?_eq_some_iff_getElem.mp hk
    rw [decide_eq_true_eq] at hends
    have hfirst : l.ends ∉ (edges.take k).map Edge.ends := by
      rw [EdgesRead.mem_ends_take_iff hk]
      exact Nat.lt_irrefl k
    refine ⟨edges[k], List.getElem_mem hlt, ?_⟩
    rw [h.labels k _ (List.getElem?_eq_getElem hlt), hends, if_neg hfirst, hempty]

theorem edgesRead_graph (source : List Char) :
    EdgesRead (plainLinks (chains source)) (labeledLinks (chains source))
      (Dialect.flow.graph source).edges := by
  rw [Dialect.graph_edges]
  exact edgesRead_scan source

theorem trim_label_graph {source : List Char} {e : Edge}
    (he : e ∈ (Dialect.flow.graph source).edges) :
    ∀ text ∈ e.label, trim text.toList = text.toList := by
  intro text htext
  obtain ⟨_, l, hl, _, hlabel⟩ := (edgesRead_graph source).exists_link he htext
  obtain ⟨_, _, harrow⟩ := arrow_of_mem_links (List.mem_of_mem_filter hl)
  exact trim_label_of_arrow harrow text hlabel

end Flow

/-! ### Messages and relations -/

namespace Sequence

/-- A message up to its text. -/
def messageHead : Matcher (String × MessageArrow × String) := fun s => do
  let (left, s) ← name s
  let (arrow, s) ← operator messageArrows false (skipGap s)
  let (right, s) ← name (skipGap (skipActivation s))
  return ((left, arrow, right), s)

theorem message_eq (s : List Char) :
    message s = (messageHead s).map fun (head, rest) =>
      (⟨head.1, head.2.1, head.2.2, colonText rest⟩, []) := by
  rw [message, messageHead]
  cases name s with
  | none => rfl
  | some read =>
      simp only [Option.bind_eq_bind, Option.bind_some]
      cases operator messageArrows false (skipGap read.2) with
      | none => rfl
      | some read =>
          simp only [Option.bind_some]
          cases name (skipGap (skipActivation read.2)) <;> rfl

theorem skipActivation_append_cons {c : Char} (hc : c ≠ '+' ∧ c ≠ '-') (s u : List Char) :
    skipActivation (s ++ c :: u) = skipActivation s ++ c :: u := by
  cases s with
  | nil => simp [skipActivation, hc]
  | cons d s =>
      simp only [List.cons_append, skipActivation]
      split <;> rfl

theorem messageHead_stopsBefore {blank : List Char} (hblank : ∀ c ∈ blank, isBlank c = true) :
    messageHead.StopsBefore (':' :: blank) := by
  have hparts := parts_colon hblank
  have hcolon : ∀ row ∈ messageArrows, ':' ∉ row.1.toList := by decide
  intro s
  simp only [messageHead, name_stopsBefore hparts s]
  cases name s with
  | none => rfl
  | some read =>
      obtain ⟨left, s⟩ := read
      simp only [Option.map_some, Option.bind_eq_bind, Option.bind_some,
        skipGap_append_cons hparts.isGap_eq, operator_stopsBefore hparts hcolon false _]
      cases operator messageArrows false (skipGap s) with
      | none => rfl
      | some read =>
          obtain ⟨arrow, s⟩ := read
          simp only [Option.map_some, Option.bind_some, skipGap_append_cons hparts.isGap_eq,
            skipActivation_append_cons (by decide : ':' ≠ '+' ∧ ':' ≠ '-'),
            name_stopsBefore hparts _]
          cases name (skipGap (skipActivation s)) <;> rfl

/-- A message without a text stays the same if a blank text is written behind it. -/
theorem message_append_blank {s rest blank : List Char} {head : String × MessageArrow × String}
    (hs : messageHead s = some (head, rest)) (hrest : afterColon? rest = none)
    (hblank : ∀ c ∈ blank, isBlank c = true) : message (s ++ ':' :: blank) = message s := by
  rw [message_eq, message_eq, messageHead_stopsBefore hblank, hs]
  simp only [Option.map_some, colonText_append_blank hrest hblank]

theorem isText_of_message {s rest : List Char} {m : Message} (h : message s = some (m, rest)) :
    ∀ text ∈ m.text, IsText text := by
  rw [message_eq] at h
  obtain ⟨_, _, hpair⟩ := Option.map_eq_some_iff.mp h
  obtain ⟨rfl, _⟩ := Prod.mk.inj hpair
  exact fun _ => colonText_eq_some

theorem isText_of_meaning? {s : List Char} {m : Message}
    (h : Rule.meaning? rules s = some (.message m)) : ∀ text ∈ m.text, IsText text := by
  obtain ⟨rule, hrule, hread⟩ := Rule.exists_read?_of_meaning? h
  simp only [rules, List.mem_cons, List.not_mem_nil, or_false] at hrule
  rcases hrule with rfl | rfl | rfl | rfl | rfl | rfl
  · cases Rule.eq_of_ofWords hread
  · obtain ⟨_, _, _, hother⟩ := Rule.exists_of_ofMatcher hread
    cases hother
  · obtain ⟨_, _, _, hother⟩ := Rule.exists_of_ofMatcher hread
    cases hother
  · obtain ⟨_, _, _, hother⟩ := Rule.exists_of_ofMatcher hread
    cases hother
  · obtain ⟨_, _, hm, ⟨⟩⟩ := Rule.exists_of_ofMatcher hread
    exact isText_of_message hm
  · cases Rule.eq_of_ofWords hread

theorem isText_label_graph {source : List Char} {e : Edge}
    (he : e ∈ (Dialect.sequence.graph source).edges) : ∀ text ∈ e.label, IsText text := by
  rw [Dialect.graph_edges, scan_eq_run, Contents.edges_run_steps] at he
  obtain ⟨m, hm, rfl⟩ := List.mem_map.mp he
  obtain ⟨f, hf, hfm⟩ := List.mem_filterMap.mp hm
  obtain ⟨s, _, hs⟩ := List.mem_filterMap.mp hf
  cases f with
  | message k =>
      obtain rfl := Option.some.inj hfm
      exact isText_of_meaning? hs
  | directive | declaration _ | note _ => cases hfm

end Sequence

namespace Class

theorem isText_of_relation {s rest : List Char} {r : Relation}
    (h : relation s = some (r, rest)) : ∀ text ∈ r.label, IsText text := by
  rw [relation_eq] at h
  obtain ⟨_, _, hpair⟩ := Option.map_eq_some_iff.mp h
  obtain ⟨rfl, _⟩ := Prod.mk.inj hpair
  exact fun _ => colonText_eq_some

theorem isText_of_meaning? {s : List Char} {r : Relation}
    (h : Rule.meaning? rules s = some (.relation r)) : ∀ text ∈ r.label, IsText text := by
  obtain ⟨rule, hrule, hread⟩ := Rule.exists_read?_of_meaning? h
  simp only [rules, List.mem_cons, List.not_mem_nil, or_false] at hrule
  rcases hrule with rfl | rfl | rfl | rfl | rfl | rfl
  · cases Rule.eq_of_ofWords hread
  · obtain ⟨_, _, _, hother⟩ := Rule.exists_of_ofMatcher hread
    cases hother
  · obtain ⟨_, _, _, hother⟩ := Rule.exists_of_ofMatcher hread
    cases hother
  · obtain ⟨_, _, hr, ⟨⟩⟩ := Rule.exists_of_ofMatcher hread
    exact isText_of_relation hr
  · obtain ⟨_, _, _, hother⟩ := Rule.exists_of_ofMatcher hread
    cases hother
  · cases Rule.eq_of_ofWords hread

/-- A relation without a label stays the same if a blank label is written behind it. -/
theorem relation_append_blank {s rest blank : List Char} {head : String × Operator × String}
    (hs : relationHead s = some (head, rest)) (hrest : afterColon? rest = none)
    (hblank : ∀ c ∈ blank, isBlank c = true) : relation (s ++ ':' :: blank) = relation s := by
  rw [relation_eq, relation_eq, relationHead_stopsBefore (parts_colon hblank) (by decide), hs]
  simp only [Option.map_some, colonText_append_blank hrest hblank]

theorem isText_label_graph {source : List Char} {e : Edge}
    (he : e ∈ (Dialect.classes.graph source).edges) : ∀ text ∈ e.label, IsText text := by
  have hedges : (Dialect.classes.scan source).edges = edgesOf (statements source) :=
    edges_run_steps _
  rw [Dialect.graph_edges, hedges] at he
  obtain ⟨r, hr, rfl⟩ := List.mem_map.mp he
  obtain ⟨f, hf, hfr⟩ := List.mem_filterMap.mp hr
  obtain ⟨s, _, hs⟩ := List.mem_filterMap.mp hf
  cases f with
  | relation k =>
      obtain rfl := Option.some.inj hfr
      exact isText_of_meaning? hs
  | _ => cases hfr

end Class

namespace Dialect

theorem trim_label_graph (d : Dialect) (source : List Char) :
    ∀ e ∈ (d.graph source).edges, ∀ text ∈ e.label, trim text.toList = text.toList := by
  intro e he text htext
  cases d with
  | flow => exact Flow.trim_label_graph he text htext
  | sequence => exact (Sequence.isText_label_graph he text htext).1
  | classes => exact (Class.isText_label_graph he text htext).1

theorem exists_label_eq_empty_iff (d : Dialect) (source : List Char) :
    (∃ e ∈ (d.graph source).edges, e.label = some "") ↔
      d = .flow ∧ ∃ l ∈ Flow.labeledLinks (Flow.chains source),
        Flow.lastLabel? (Flow.labeledLinks (Flow.chains source)) l.ends = some "" := by
  cases d with
  | flow => simpa using Flow.exists_label_eq_empty_iff (Flow.edgesRead_graph source)
  | sequence =>
      simp only [reduceCtorEq, false_and, iff_false]
      rintro ⟨e, he, hempty⟩
      exact (Sequence.isText_label_graph he "" hempty).2 rfl
  | classes =>
      simp only [reduceCtorEq, false_and, iff_false]
      rintro ⟨e, he, hempty⟩
      exact (Class.isText_label_graph he "" hempty).2 rfl

end Dialect

namespace Parser

/-- Every label is trimmed. It is empty only in a flowchart, and there exactly if the last label
between two nodes is empty, as it is for an arrow with blank pipes and for no other. A blank text
inside an arrow is no label, and blank texts behind a colon leave messages and relations as they are
without one. -/
theorem edge_label_empty_iff_blank_pipes (p : Parser) (source : String) :
    (∀ e ∈ (p.parse source).edges, ∀ text ∈ e.label, trim text.toList = text.toList) ∧
      ((∃ e ∈ (p.parse source).edges, e.label = some "") ↔
        p.dialectOf? source = some .flow ∧
          ∃ l ∈ Flow.labeledLinks (Flow.chains source.toList),
            Flow.lastLabel? (Flow.labeledLinks (Flow.chains source.toList)) l.ends = some "") ∧
      (∀ s rest a, Flow.arrow s = some (a, rest) →
        (a.label = some "" ↔ Flow.inlineArrow s = none ∧ Flow.HasBlankPipes s rest)) ∧
      (∀ form ∈ Flow.inlineForms, ∀ closing ∈ form.closings, ∀ blank s,
        (∀ c ∈ blank, isBlank c = true) →
          Flow.inlineArrow (form.opening.toList ++ (blank ++ (closing.toList ++ s))) = none) ∧
      ∀ s rest blank, (∀ c ∈ blank, isBlank c = true) → afterColon? rest = none →
        (∀ head, Sequence.messageHead s = some (head, rest) →
          Sequence.message (s ++ ':' :: blank) = Sequence.message s) ∧
        ∀ head, Class.relationHead s = some (head, rest) →
          Class.relation (s ++ ':' :: blank) = Class.relation s := by
  refine ⟨?_, ?_, fun s rest a ha => Flow.label_eq_empty_iff ha, ?_, ?_⟩
  · cases hd : p.dialectOf? source with
    | none => simp [parse_of_dialectOf?_eq_none hd, Graph.empty]
    | some d =>
        rw [parse_eq_graph hd]
        exact d.trim_label_graph source.toList
  · cases hd : p.dialectOf? source with
    | none => simp [parse_of_dialectOf?_eq_none hd, Graph.empty]
    | some d =>
        rw [parse_eq_graph hd, Option.some.injEq]
        exact d.exists_label_eq_empty_iff source.toList
  · intro form hform closing hclosing blank s hblank
    exact Flow.inlineArrow_blank hform hclosing hblank s
  · intro s rest blank hblank hrest
    refine ⟨fun head hs => ?_, fun head hs => ?_⟩
    · exact Sequence.message_append_blank hs hrest hblank
    · exact Class.relation_append_blank hs hrest hblank

/-- Blank pipes take the label of an earlier arrow off the edge. -/
theorem edge_label_empty_iff_blank_pipes_relabeled :
    (∃ e ∈ (detecting.parse "flowchart LR\nA -- x --> B\nA -->| | B").edges,
        e.label = some "") ∧
      Flow.HasBlankPipes "-->| | B".toList " B".toList ∧
      Flow.inlineArrow "--  --> B".toList = none ∧
      Sequence.message "A ->> B:  ".toList = Sequence.message "A ->> B".toList := by
  obtain ⟨_, hempty, harrow, hinline, hcolon⟩ := edge_label_empty_iff_blank_pipes detecting
    "flowchart LR\nA -- x --> B\nA -->| | B"
  refine ⟨hempty.mpr ⟨by decide +kernel, ⟨"A", "B", ⟨.solid, some ""⟩⟩, ?_, ?_⟩, ?_, ?_, ?_⟩
  · decide +kernel
  · decide +kernel
  · have hread : Flow.arrow "-->| | B".toList = some (⟨.solid, some ""⟩, " B".toList) := by
      decide +kernel
    exact ((harrow _ _ _ hread).mp rfl).2
  · exact hinline ⟨"--", ["-->", "---"], .solid⟩ List.mem_cons_self "-->" List.mem_cons_self
      [' ', ' '] " B".toList (by decide)
  · have hhead : Sequence.messageHead "A ->> B".toList =
        some (("A", ⟨.async, false⟩, "B"), []) := by decide +kernel
    exact (hcolon _ [] [' ', ' '] (by decide) rfl).1 _ hhead

/-- The arrow with blank pipes differs from the one without a label. -/
theorem blank_pipes_leave_empty_label :
    detecting.parse "flowchart LR\nA -->|| B" = {
        nodes := [.unlabeled "A" .implicit, .unlabeled "B" .implicit]
        edges := [{ source := "A", target := "B", kind := .solid, label := some "" }] } ∧
      detecting.parse "flowchart LR\nA --> B" = {
        nodes := [.unlabeled "A" .implicit, .unlabeled "B" .implicit]
        edges := [{ source := "A", target := "B", kind := .solid }] } := by
  constructor <;> decide +kernel

end Parser

end TextDiagram
