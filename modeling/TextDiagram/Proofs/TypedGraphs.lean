import TextDiagram.Proofs.Outcome
import TextDiagram.Proofs.SequenceAssembly
import TextDiagram.Proofs.Text
import TextDiagram.Proofs.Typing

/-!
# Parsed graphs are typed

Every id comes from a name, which is not empty and stands on one line, or is the id of a note. Every
kind of an edge comes from an arrow or an operator of the dialect. So all steps of a text are ones
that its dialect allows. Notes have ids that no role has, and only roles are joined.
-/

namespace TextDiagram

open Text

/-! ### Names -/

theorem isId_ofList {s : List Char} (hne : s ≠ []) (hline : '\n' ∉ s) : IsId (String.ofList s) where
  ne_empty := by simpa [← String.toList_inj] using hne
  notMem := by rwa [String.toList_ofList]

namespace Matcher

theorem notMem_of_quotedBy {quote : Char} {s body rest : List Char}
    (h : quotedBy quote s = some (body, rest)) : '\n' ∉ body := by
  cases s with
  | nil => simp [quotedBy] at h
  | cons c s =>
      obtain ⟨_, h⟩ := Option.ite_none_right_eq_some.mp h
      obtain ⟨_, _, hpair⟩ := Option.map_eq_some_iff.mp h
      obtain ⟨rfl, rfl⟩ := Prod.mk.inj hpair
      intro hmem
      simpa using List.mem_takeWhile_imp hmem

theorem isId_of_name {s rest : List Char} {id : String} (h : name s = some (id, rest)) :
    IsId id := by
  obtain ⟨⟨body, t⟩, hbody, hpair⟩ := Option.map_eq_some_iff.mp h
  obtain ⟨rfl, rfl⟩ := Prod.mk.inj hpair
  rcases orElse_eq_some_iff.mp hbody with hquoted | ⟨_, hbare⟩
  · obtain ⟨⟨text, u⟩, htext, hquoted⟩ := Option.bind_eq_some_iff.mp hquoted
    obtain ⟨hne, heq⟩ := Option.ite_none_left_eq_some.mp hquoted
    obtain ⟨rfl, rfl⟩ := Prod.mk.inj (Option.some.inj heq)
    apply isId_ofList
    · simpa using hne
    · intro hmem
      have hline := (trim_sublist text).subset hmem
      rcases orElse_eq_some_iff.mp htext with hdouble | ⟨_, hsingle⟩
      · exact notMem_of_quotedBy hdouble hline
      · exact notMem_of_quotedBy hsingle hline
  · obtain ⟨hne, heq⟩ := Option.ite_none_left_eq_some.mp hbare
    obtain ⟨rfl, rfl⟩ := Prod.mk.inj (Option.some.inj heq)
    apply isId_ofList
    · simpa using hne
    · intro hmem
      have hchar : isNameChar '\n' = true := List.mem_takeWhile_imp hmem
      exact absurd hchar (by decide)

/-- What an operator means stands in the table. -/
theorem mem_of_operator {β : Type} {table : Spellings β} {wholeNames : Bool}
    {s rest : List Char} {value : β} (h : operator table wholeNames s = some (value, rest)) :
    value ∈ table.map Prod.snd := by
  obtain ⟨row, hrow, h⟩ := List.exists_of_findSome?_eq_some h
  obtain ⟨_, _, hpair⟩ := Option.map_eq_some_iff.mp h
  obtain ⟨rfl, rfl⟩ := Prod.mk.inj hpair
  exact List.mem_map_of_mem hrow

end Matcher

/-! ### Rules -/

namespace Rule

variable {α : Type} {s : List Char} {a : α}

theorem exists_read?_of_meaning? {rules : List (Rule α)} (h : meaning? rules s = some a) :
    ∃ rule ∈ rules, rule.read? s = some a := by
  obtain ⟨⟨name, b⟩, hrecognized, rfl⟩ := Option.map_eq_some_iff.mp h
  obtain ⟨rule, hrule, hread⟩ := List.exists_of_findSome?_eq_some hrecognized
  obtain ⟨c, hc, hpair⟩ := Option.map_eq_some_iff.mp hread
  obtain ⟨rfl, rfl⟩ := Prod.mk.inj hpair
  exact ⟨rule, hrule, hc⟩

theorem eq_of_ofWords {name : String} {words : List String} {meaning : α}
    (h : (ofWords name words meaning).read? s = some a) : a = meaning := by
  obtain ⟨_, _, rfl⟩ := Option.map_eq_some_iff.mp h
  rfl

theorem exists_of_ofMatcher {β : Type} {name : String} {m : Matcher β}
    {f : β × List Char → α × List Char}
    (h : (ofMatcher name fun s => (m s).map f).read? s = some a) :
    ∃ b rest, m s = some (b, rest) ∧ (f (b, rest)).1 = a := by
  obtain ⟨_, hread, rfl⟩ := Option.map_eq_some_iff.mp h
  obtain ⟨⟨b, rest⟩, hb, rfl⟩ := Option.map_eq_some_iff.mp hread
  exact ⟨b, rest, hb, rfl⟩

end Rule

/-! ### Flowcharts -/

namespace Flow

theorem style_mem_of_arrowBody {s rest : List Char} {style : EdgeKind}
    (h : arrowBody s = some (style, rest)) : style ∈ Dialect.flow.edgeKinds := by
  unfold arrowBody at h
  split at h
  · obtain ⟨rfl, _⟩ := Prod.mk.inj (Option.some.inj h)
    decide
  · obtain ⟨rfl, _⟩ := Prod.mk.inj (Option.some.inj h)
    decide
  · obtain ⟨rfl, _⟩ := Prod.mk.inj (Option.some.inj h)
    decide
  · cases h

theorem style_mem_of_arrow {s rest : List Char} {a : Arrow} (h : arrow s = some (a, rest)) :
    a.style ∈ Dialect.flow.edgeKinds := by
  rcases Matcher.orElse_eq_some_iff.mp h with hinline | ⟨_, hpiped⟩
  · have hforms : ∀ form ∈ inlineForms, form.style ∈ Dialect.flow.edgeKinds := by decide
    obtain ⟨form, hform, h⟩ := List.exists_of_findSome?_eq_some hinline
    obtain ⟨_, _, h⟩ := Option.bind_eq_some_iff.mp h
    obtain ⟨_, _, h⟩ := Option.bind_eq_some_iff.mp h
    obtain ⟨_, heq⟩ := Option.ite_none_left_eq_some.mp h
    obtain ⟨rfl, _⟩ := Prod.mk.inj (Option.some.inj heq)
    exact hforms form hform
  · obtain ⟨⟨style, t⟩, hplain, h⟩ := Option.bind_eq_some_iff.mp hpiped
    obtain ⟨rfl, _⟩ := Prod.mk.inj (Option.some.inj h)
    obtain ⟨⟨_, _⟩, hbody, hpair⟩ := Option.map_eq_some_iff.mp hplain
    obtain ⟨rfl, _⟩ := Prod.mk.inj hpair
    exact style_mem_of_arrowBody hbody

theorem isId_of_nodeRef {s rest : List Char} {n : NodeRef} (h : nodeRef s = some (n, rest)) :
    IsId n.id := by
  obtain ⟨⟨id, t⟩, hname, h⟩ := Option.bind_eq_some_iff.mp h
  obtain ⟨rfl, _⟩ := Prod.mk.inj (Option.some.inj h)
  exact Matcher.isId_of_name hname

/-- A step leads to an id over an arrow of a flowchart. -/
def ChainStep.Typed (step : ChainStep) : Prop :=
  step.arrow.style ∈ Dialect.flow.edgeKinds ∧ IsId step.node.id

theorem typed_of_chainStep {s rest : List Char} {step : ChainStep}
    (h : chainStep s = some (step, rest)) : step.Typed := by
  obtain ⟨⟨a, t⟩, harrow, h⟩ := Option.bind_eq_some_iff.mp h
  obtain ⟨⟨n, u⟩, hnode, h⟩ := Option.bind_eq_some_iff.mp h
  obtain ⟨rfl, _⟩ := Prod.mk.inj (Option.some.inj h)
  exact ⟨style_mem_of_arrow harrow, isId_of_nodeRef hnode⟩

theorem typed_of_chainSteps (s : List Char) : ∀ step ∈ (chainSteps s).1, step.Typed := by
  induction s using chainSteps.induct with
  | case1 s hnone => simp [chainSteps_of_eq_none hnone]
  | case2 s step rest hstep _ _ _ _ ih =>
      rw [chainSteps_of_eq_some hstep, List.forall_mem_cons]
      exact ⟨typed_of_chainStep hstep, ih⟩

theorem allowsEdge_of_mem_linksFrom {source : String} (hsource : IsId source)
    {steps : List ChainStep} (hsteps : ∀ step ∈ steps, step.Typed) {l : Link}
    (hl : l ∈ Chain.linksFrom source steps) (label : Option String) :
    Dialect.flow.AllowsEdge (l.edge label) := by
  induction steps generalizing source with
  | nil => exact absurd hl List.not_mem_nil
  | cons step steps ih =>
      obtain ⟨⟨hstyle, hid⟩, hrest⟩ := List.forall_mem_cons.mp hsteps
      rcases List.mem_cons.mp hl with rfl | hl
      · exact ⟨hstyle, hsource, hid⟩
      · exact ih hid hrest hl

/-- A chain is typed when its nodes have ids and its links are edges of a flowchart. -/
structure Chain.Typed (c : Chain) : Prop where
  nodes : ∀ n ∈ c.nodes, IsId n.id
  links : ∀ l ∈ c.links, ∀ label, Dialect.flow.AllowsEdge (l.edge label)

theorem typed_of_chain {s rest : List Char} {c : Chain} (h : chain s = some (c, rest)) :
    c.Typed := by
  obtain ⟨⟨first, t⟩, hfirst, h⟩ := Option.bind_eq_some_iff.mp h
  obtain ⟨_, heq⟩ := Option.ite_none_left_eq_some.mp h
  obtain ⟨rfl, _⟩ := Prod.mk.inj (Option.some.inj heq)
  have hid := isId_of_nodeRef hfirst
  have hsteps := typed_of_chainSteps t
  refine ⟨?_, fun l hl label => allowsEdge_of_mem_linksFrom hid hsteps hl label⟩
  rw [Chain.nodes, List.forall_mem_cons, List.forall_mem_map]
  exact ⟨hid, fun step hstep => (hsteps step hstep).2⟩

theorem typed_of_mem_chainsOf {statements : List (List Char)} {c : Chain}
    (hc : c ∈ chainsOf (statements.filterMap (Rule.meaning? rules))) : c.Typed := by
  obtain ⟨f, hf, hfc⟩ := List.mem_filterMap.mp hc
  obtain ⟨s, _, hs⟩ := List.mem_filterMap.mp hf
  cases f with
  | directive => cases hfc
  | chain k =>
      obtain rfl := Option.some.inj hfc
      obtain ⟨_, hchain⟩ := chain_of_meaning? hs
      exact typed_of_chain hchain

theorem allowsStep_steps {fs : List Fragment} (hfs : ∀ c ∈ chainsOf fs, c.Typed) :
    ∀ step ∈ steps fs, Dialect.flow.AllowsStep step := by
  have hlinks : ∀ l ∈ (chainsOf fs).flatMap Chain.links, ∀ label,
      Dialect.flow.AllowsEdge (l.edge label) := by
    intro l hl
    obtain ⟨c, hc, hl⟩ := List.mem_flatMap.mp hl
    exact (hfs c hc).links l hl
  intro step hstep
  simp only [steps, List.mem_append] at hstep
  rcases hstep with (hstep | hstep) | hstep
  · obtain ⟨n, hn, hstep⟩ := List.mem_filterMap.mp hstep
    obtain ⟨c, hc, hn⟩ := List.mem_flatMap.mp hn
    obtain ⟨label, _, rfl⟩ := Option.map_eq_some_iff.mp hstep
    have hid := (hfs c hc).nodes n hn
    exact Dialect.allowsStep_declare List.mem_cons_self rfl hid (fun _ => ⟨rfl, rfl, rfl⟩) rfl
  · obtain ⟨l, hl, hstep⟩ := List.mem_filterMap.mp hstep
    unfold connectLink? at hstep
    split at hstep
    · obtain rfl := Option.some.inj hstep
      exact hlinks l hl none
    · cases hstep
  · obtain ⟨l, hl, hstep⟩ := List.mem_filterMap.mp hstep
    obtain ⟨label, _, rfl⟩ := Option.map_eq_some_iff.mp hstep
    exact hlinks l hl (some label)

end Flow

/-! ### Sequence diagrams -/

namespace Sequence

theorem isId_noteId (n : Nat) : IsId (noteId n) where
  ne_empty := by simp [noteId, ← String.toList_inj]
  notMem := by
    rw [noteId, String.toList_append, List.mem_append, Nat.toList_repr]
    rintro (h | h)
    · exact absurd h (by decide)
    · exact absurd (Nat.isDigit_of_mem_toDigits (by decide) (by decide) h) (by decide)

/-- What is declared or sent has ids, and messages go over the arrows of the dialect. -/
def Fragment.Typed : Fragment → Prop
  | directive | note _ => True
  | declaration d => IsId d.id
  | message m => m.arrow.kind ∈ Dialect.sequence.edgeKinds ∧ IsId m.left ∧ IsId m.right

theorem typed_of_declaration {role : RoleKind} {s rest : List Char} {d : Declaration}
    (h : declaration role s = some (d, rest)) : IsId d.id := by
  obtain ⟨_, _, h⟩ := Option.bind_eq_some_iff.mp h
  obtain ⟨_, _, h⟩ := Option.bind_eq_some_iff.mp h
  obtain ⟨⟨id, t⟩, hname, h⟩ := Option.bind_eq_some_iff.mp h
  obtain ⟨rfl, _⟩ := Prod.mk.inj (Option.some.inj h)
  exact Matcher.isId_of_name hname

theorem typed_of_message {s rest : List Char} {m : Message} (h : message s = some (m, rest)) :
    (Fragment.message m).Typed := by
  obtain ⟨⟨left, _⟩, hleft, h⟩ := Option.bind_eq_some_iff.mp h
  obtain ⟨⟨arrow, _⟩, harrow, h⟩ := Option.bind_eq_some_iff.mp h
  obtain ⟨⟨right, _⟩, hright, h⟩ := Option.bind_eq_some_iff.mp h
  obtain ⟨rfl, _⟩ := Prod.mk.inj (Option.some.inj h)
  have hkinds : ∀ a ∈ messageArrows.map Prod.snd, a.kind ∈ Dialect.sequence.edgeKinds := by decide
  exact ⟨hkinds arrow (Matcher.mem_of_operator harrow), Matcher.isId_of_name hleft,
    Matcher.isId_of_name hright⟩

theorem typed_of_meaning? {s : List Char} {f : Fragment} (h : Rule.meaning? rules s = some f) :
    f.Typed := by
  obtain ⟨rule, hrule, hread⟩ := Rule.exists_read?_of_meaning? h
  simp only [rules, List.mem_cons, List.not_mem_nil, or_false] at hrule
  rcases hrule with rfl | rfl | rfl | rfl | rfl | rfl
  · exact Rule.eq_of_ofWords hread ▸ trivial
  · obtain ⟨d, _, hd, rfl⟩ := Rule.exists_of_ofMatcher hread
    exact typed_of_declaration hd
  · obtain ⟨d, _, hd, rfl⟩ := Rule.exists_of_ofMatcher hread
    exact typed_of_declaration hd
  · obtain ⟨n, _, _, rfl⟩ := Rule.exists_of_ofMatcher hread
    trivial
  · obtain ⟨m, _, hm, rfl⟩ := Rule.exists_of_ofMatcher hread
    exact typed_of_message hm
  · exact Rule.eq_of_ofWords hread ▸ trivial

theorem allowsStep_declaration {d : Declaration} (hid : IsId d.id) :
    Dialect.sequence.AllowsStep (.declare d.node) := by
  have hkind : ∀ role : RoleKind, role.nodeKind ∈ Dialect.sequence.nodeKinds := by
    intro role
    cases role <;> decide
  have hdeclared := nodeKind_isImplicit d.role
  apply Dialect.allowsStep_declare (hkind d.role) hdeclared hid fun _ => ⟨rfl, rfl, rfl⟩
  cases hrole : d.role <;> simp [Declaration.node, hrole, RoleKind.nodeKind, NodeKind.roleCount]

theorem allowsStep_note (n : Note) {id : String} (hid : IsId id) :
    Dialect.sequence.AllowsStep (.declare (n.node id)) := by
  obtain ⟨role, second, text⟩ := n
  cases second <;>
    exact Dialect.allowsStep_declare (by simp [Note.node, Note.kind, Dialect.nodeKinds]) rfl hid
      (fun _ => ⟨rfl, rfl, rfl⟩) rfl

theorem allowsStep_message {m : Message} (hm : (Fragment.message m).Typed) :
    ∀ step ∈ m.steps, Dialect.sequence.AllowsStep step := by
  obtain ⟨hkind, hleft, hright⟩ := hm
  intro step hstep
  simp only [Message.steps, List.mem_cons, List.not_mem_nil, or_false] at hstep
  rcases hstep with rfl | rfl | rfl
  · exact ⟨rfl, hleft⟩
  · exact ⟨rfl, hright⟩
  · refine ⟨hkind, ?_, ?_⟩
    · change IsId (if m.arrow.reversed then m.right else m.left)
      split <;> assumption
    · change IsId (if m.arrow.reversed then m.left else m.right)
      split <;> assumption

theorem allowsStep_steps {fs : List Fragment} (hfs : ∀ f ∈ fs, f.Typed) :
    ∀ step ∈ steps fs, Dialect.sequence.AllowsStep step := by
  intro step hstep
  simp only [steps, List.mem_append] at hstep
  rcases hstep with (hstep | hstep) | hstep
  · obtain ⟨d, hd, rfl⟩ := List.mem_map.mp hstep
    have hd : d ∈ fs.filterMap Fragment.declaration? :=
      (List.mem_append.mp hd).elim List.mem_of_mem_filter List.mem_of_mem_filter
    obtain ⟨f, hf, hfd⟩ := List.mem_filterMap.mp hd
    cases f with
    | declaration k =>
        obtain rfl := Option.some.inj hfd
        exact allowsStep_declaration (hfs _ hf)
    | directive | message _ | note _ => cases hfd
  · obtain ⟨m, hm, hstep⟩ := List.mem_flatMap.mp hstep
    obtain ⟨f, hf, hfm⟩ := List.mem_filterMap.mp hm
    cases f with
    | message k =>
        obtain rfl := Option.some.inj hfm
        exact allowsStep_message (hfs _ hf) step hstep
    | directive | declaration _ | note _ => cases hfm
  · obtain ⟨p, _, rfl⟩ := List.mem_map.mp hstep
    exact allowsStep_note p.2 (isId_noteId p.1)

end Sequence

/-! ### Class diagrams -/

namespace Class

/-- What is declared or related has ids, and relations go over the operators of the dialect. -/
def Fragment.Typed : Fragment → Prop
  | directive | stereotyped .. => True
  | declaration d => IsId d.id
  | relation r => r.operator.kind ∈ Dialect.classes.edgeKinds ∧ IsId r.left ∧ IsId r.right
  | member id _ => IsId id

theorem typed_of_declaration {s rest : List Char} {d : Declaration}
    (h : declaration s = some (d, rest)) : IsId d.id := by
  obtain ⟨_, _, h⟩ := Option.bind_eq_some_iff.mp h
  obtain ⟨_, _, h⟩ := Option.bind_eq_some_iff.mp h
  obtain ⟨⟨id, t⟩, hname, h⟩ := Option.bind_eq_some_iff.mp h
  obtain ⟨rfl, _⟩ := Prod.mk.inj (Option.some.inj h)
  exact Matcher.isId_of_name hname

theorem typed_of_relation {s rest : List Char} {r : Relation}
    (h : relation s = some (r, rest)) : (Fragment.relation r).Typed := by
  obtain ⟨⟨left, _⟩, hleft, h⟩ := Option.bind_eq_some_iff.mp h
  obtain ⟨⟨operator, _⟩, hoperator, h⟩ := Option.bind_eq_some_iff.mp h
  obtain ⟨⟨right, _⟩, hright, h⟩ := Option.bind_eq_some_iff.mp h
  obtain ⟨rfl, _⟩ := Prod.mk.inj (Option.some.inj h)
  have hkinds : ∀ o ∈ operators.map Prod.snd, o.kind ∈ Dialect.classes.edgeKinds := by decide
  exact ⟨hkinds operator (Matcher.mem_of_operator hoperator), Matcher.isId_of_name hleft,
    Matcher.isId_of_name hright⟩

theorem typed_of_member {s rest : List Char} {id : String} {item : BodyItem}
    (h : member s = some ((id, item), rest)) : IsId id := by
  obtain ⟨⟨id, _⟩, hname, h⟩ := Option.bind_eq_some_iff.mp h
  obtain ⟨_, _, h⟩ := Option.bind_eq_some_iff.mp h
  obtain ⟨_, _, h⟩ := Option.bind_eq_some_iff.mp h
  obtain ⟨hpair, _⟩ := Prod.mk.inj (Option.some.inj h)
  obtain ⟨rfl, _⟩ := Prod.mk.inj hpair
  exact Matcher.isId_of_name hname

theorem typed_of_meaning? {s : List Char} {f : Fragment} (h : Rule.meaning? rules s = some f) :
    f.Typed := by
  obtain ⟨rule, hrule, hread⟩ := Rule.exists_read?_of_meaning? h
  simp only [rules, List.mem_cons, List.not_mem_nil, or_false] at hrule
  rcases hrule with rfl | rfl | rfl | rfl | rfl | rfl
  · exact Rule.eq_of_ofWords hread ▸ trivial
  · obtain ⟨d, _, hd, rfl⟩ := Rule.exists_of_ofMatcher hread
    exact typed_of_declaration hd
  · obtain ⟨_, _, _, rfl⟩ := Rule.exists_of_ofMatcher hread
    trivial
  · obtain ⟨r, _, hr, rfl⟩ := Rule.exists_of_ofMatcher hread
    exact typed_of_relation hr
  · obtain ⟨⟨id, item⟩, _, hm, rfl⟩ := Rule.exists_of_ofMatcher hread
    exact typed_of_member hm
  · exact Rule.eq_of_ofWords hread ▸ trivial

theorem allowsStep_classNode {id : String} (hid : IsId id) (label : String)
    (items : List BodyItem) :
    Dialect.classes.AllowsStep (.declare (classNode id label items)) :=
  Dialect.allowsStep_declare List.mem_cons_self rfl hid (fun hkind => absurd rfl hkind) rfl

theorem allowsEdge_relation {r : Relation} (hr : (Fragment.relation r).Typed) :
    Dialect.classes.AllowsEdge r.edge := by
  obtain ⟨hkind, hleft, hright⟩ := hr
  refine ⟨hkind, ?_, ?_⟩
  · change IsId (if r.operator.swap then r.right else r.left)
    split <;> assumption
  · change IsId (if r.operator.swap then r.left else r.right)
    split <;> assumption

theorem allowsStep_steps {fs : List Fragment} (hfs : ∀ f ∈ fs, f.Typed) :
    ∀ step ∈ steps fs, Dialect.classes.AllowsStep step := by
  intro step hstep
  simp only [steps, List.mem_append] at hstep
  rcases hstep with ((hstep | hstep) | hstep) | hstep
  · obtain ⟨d, hd, rfl⟩ := List.mem_map.mp hstep
    obtain ⟨f, hf, hfd⟩ := List.mem_filterMap.mp hd
    cases f with
    | declaration k =>
        obtain rfl := Option.some.inj hfd
        exact allowsStep_classNode (hfs _ hf) ..
    | _ => cases hfd
  · obtain ⟨r, hr, rfl⟩ := List.mem_map.mp hstep
    obtain ⟨f, hf, hfr⟩ := List.mem_filterMap.mp hr
    cases f with
    | relation k =>
        obtain rfl := Option.some.inj hfr
        exact allowsEdge_relation (hfs _ hf)
    | _ => cases hfr
  · obtain ⟨⟨id, item⟩, hm, rfl⟩ := List.mem_map.mp hstep
    obtain ⟨f, hf, hfm⟩ := List.mem_filterMap.mp hm
    cases f with
    | member i k =>
        obtain ⟨rfl, rfl⟩ := Prod.mk.inj (Option.some.inj hfm)
        exact allowsStep_classNode (hfs _ hf) ..
    | _ => cases hfm
  · obtain ⟨_, _, rfl⟩ := List.mem_map.mp hstep
    trivial

end Class

/-! ### Graphs -/

namespace Dialect

theorem allowsStep_of_mem_steps (d : Dialect) (source : List Char) :
    ∀ step ∈ d.steps source, d.AllowsStep step := by
  cases d with
  | flow => exact Flow.allowsStep_steps fun _ hc => Flow.typed_of_mem_chainsOf hc
  | sequence =>
      apply Sequence.allowsStep_steps
      intro f hf
      obtain ⟨_, _, hmeaning⟩ := List.mem_filterMap.mp hf
      exact Sequence.typed_of_meaning? hmeaning
  | classes =>
      apply Class.allowsStep_steps
      intro f hf
      obtain ⟨_, _, hmeaning⟩ := List.mem_filterMap.mp hf
      exact Class.typed_of_meaning? hmeaning

theorem typed_close_scan (d : Dialect) (source : List Char) :
    ((d.scan source).close d.implicitKind).Typed d :=
  ((Assembly.typed_empty d).run (d.allowsStep_of_mem_steps source)).close

end Dialect

/-- Only roles are joined, and no note has the id of a role. -/
theorem Sequence.Contents.ends_ne_note {c : Contents} {g : Graph} (h : c.Describes g) :
    ∀ e ∈ g.edges, ∀ n ∈ g.nodes, n.kind.isNote = true → e.source ≠ n.id ∧ e.target ≠ n.id := by
  obtain ⟨noteIds, _, _, hfresh, hnodes⟩ := h.nodes
  intro e he n hn hnote
  rw [h.edges] at he
  obtain ⟨m, hm, rfl⟩ := List.mem_map.mp he
  rw [hnodes] at hn
  have hid : n.id ∉ c.roles := by
    rcases List.mem_append.mp hn with hrole | hn
    · simp only [roleNodes, List.mem_append] at hrole
      rcases hrole with (hrole | hrole) | hrole <;>
        · obtain ⟨_, _, rfl⟩ := List.mem_map.mp hrole
          cases hnote
    · rw [← List.map_uncurry_zip_eq_zipWith] at hn
      obtain ⟨p, hp, rfl⟩ := List.mem_map.mp hn
      exact hfresh p.1 (List.of_mem_zip hp).1
  have hends : ∀ id ∈ [m.left, m.right], id ≠ n.id := by
    rintro id hmem rfl
    exact hid (List.mem_append_right _ (List.mem_flatMap.mpr ⟨m, hm, hmem⟩))
  refine ⟨hends _ ?_, hends _ ?_⟩ <;> cases m.arrow.reversed <;> simp

theorem Dialect.typed_graph (d : Dialect) (source : List Char) : (d.graph source).Typed d where
  nodes n hn :=
    have hallowed := (d.typed_close_scan source).allowsNode hn
    ⟨hallowed.kind, hallowed.typed⟩
  edges e he := ((d.typed_close_scan source).edges e he).kind
  ends := by
    have hkind : ∀ n ∈ (d.graph source).nodes, n.kind ∈ d.nodeKinds :=
      fun n hn => ((d.typed_close_scan source).allowsNode hn).kind
    have hnone : (∀ k ∈ d.nodeKinds, k.isNote = false) →
        ∀ e ∈ (d.graph source).edges, ∀ n ∈ (d.graph source).nodes, n.kind.isNote = true →
          e.source ≠ n.id ∧ e.target ≠ n.id := by
      intro hkinds e _ n hn hnote
      exact absurd ((hkinds _ (hkind n hn)).symm.trans hnote) Bool.false_ne_true
    cases d with
    | flow => exact hnone (by decide)
    | classes => exact hnone (by decide)
    | sequence =>
        have hscan := Sequence.scan_eq_run source
        have hgraph : Dialect.sequence.graph source =
            (Assembly.empty.run (Sequence.contents source).steps).toGraph := by
          rw [← hscan]
          apply Dialect.graph_eq_toGraph
          rw [hscan]
          exact Sequence.Contents.removeAll_endpoints _
        rw [hgraph]
        exact Sequence.Contents.ends_ne_note (Sequence.Contents.describes_run_steps _)

/-- A text with anything in it is of a dialect, and its graph has only what that dialect allows. -/
theorem Parser.parse_typed {p : Parser} {source : String} (h : p.parse source ≠ .empty) :
    ∃ d, p.dialectOf? source = some d ∧ (p.parse source).Typed d := by
  cases hdialect : p.dialectOf? source with
  | none =>
      apply absurd _ h
      simp [parse, tryParse, hdialect]
  | some d =>
      refine ⟨d, rfl, ?_⟩
      rw [parse_eq_graph hdialect]
      exact d.typed_graph source.toList

/-- A role has the id that a note would have, and the note stands over it. -/
theorem Parser.parse_typed_note_id_taken :
    ∃ d, detecting.dialectOf? "sequenceDiagram\nnote_0 <<-- B: hi\nNote over B, note_0: x" = some d ∧
      (detecting.parse "sequenceDiagram\nnote_0 <<-- B: hi\nNote over B, note_0: x").Typed d :=
  parse_typed (by decide +kernel)

end TextDiagram
