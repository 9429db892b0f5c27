import Mathlib.Data.List.TakeWhile
import TextDiagram.Flow.Chain
import TextDiagram.Flow.Statement
import TextDiagram.Proofs.Names

/-!
# Nesting in the text of a chain

Semicolons that separate statements are found without reading chains, from brackets and double
quotes alone. A text is closed if no statement ends in it and nothing is left open behind it. The
chain rule reads closed texts only, as far as the names and labels on the way are enclosed.
-/

namespace TextDiagram.Flow

open Text Matcher

namespace Nesting

/-- What is open behind a text. -/
def after (n : Nesting) (s : List Char) : Nesting :=
  s.foldl step n

/-- Whether a statement ends inside a text. -/
def separatesIn : Nesting → List Char → Bool
  | _, [] => false
  | n, c :: s => n.separates c || separatesIn (n.step c) s

theorem after_append (n : Nesting) (s t : List Char) : n.after (s ++ t) = (n.after s).after t :=
  List.foldl_append

theorem separatesIn_append (n : Nesting) (s t : List Char) :
    n.separatesIn (s ++ t) = (n.separatesIn s || (n.after s).separatesIn t) := by
  induction s generalizing n with
  | nil => rfl
  | cons c s ih =>
      rw [List.cons_append, separatesIn, separatesIn, ih, Bool.or_assoc]
      rfl

end Nesting

/-! ### Texts without nesting -/

/-- The characters that open or close something. -/
def nestingChars : List Char :=
  ['"', '[', '(', '\x7b', ']', ')', '\x7d']

/-- Nothing opens or closes in the text. -/
def Level (s : List Char) : Prop :=
  ∀ c ∈ s, c ∉ nestingChars

/-- A level text that holds no semicolon either. -/
def Quiet (s : List Char) : Prop :=
  ∀ c ∈ s, c ∉ ';' :: nestingChars

instance (s : List Char) : Decidable (Quiet s) :=
  inferInstanceAs (Decidable (∀ c ∈ s, c ∉ ';' :: nestingChars))

namespace Nesting

variable {n : Nesting} {c : Char} {s t : List Char}

/-- No statement ends in the text, and the nesting behind it is the nesting in front of it. -/
structure Keeps (n : Nesting) (s : List Char) : Prop where
  separatesIn : n.separatesIn s = false
  after : n.after s = n

theorem Keeps.append (hs : n.Keeps s) (ht : n.Keeps t) : n.Keeps (s ++ t) := by
  refine ⟨?_, ?_⟩
  · rw [separatesIn_append, hs.separatesIn, hs.after, ht.separatesIn]
    rfl
  · rw [after_append, hs.after, ht.after]

theorem keeps_cons (hc : n.separates c = false) (hstep : n.step c = n) (hs : n.Keeps s) :
    n.Keeps (c :: s) := by
  refine ⟨?_, ?_⟩
  · rw [Nesting.separatesIn, hc, hstep, hs.separatesIn]
    rfl
  · exact (congrArg (·.after s) hstep).trans hs.after

theorem step_of_notMem (hc : c ∉ nestingChars) : n.step c = n := by
  simp only [nestingChars, List.mem_cons, List.not_mem_nil, or_false, not_or] at hc
  simp [step, hc]

/-- No statement ends in a level text that stands inside of something. -/
theorem keeps_of_level (hs : Level s) (hn : n ≠ outside ∨ ';' ∉ s) : n.Keeps s := by
  induction s with
  | nil => exact ⟨rfl, rfl⟩
  | cons c s ih =>
      have hc : n.separates c = false := by
        rcases hn with hn | hsemicolon
        · simp [separates, hn]
        · have hne : c ≠ ';' := fun h => hsemicolon (h ▸ List.mem_cons_self)
          simp [separates, hne]
      refine keeps_cons hc (step_of_notMem (hs c List.mem_cons_self)) (ih ?_ ?_)
      · exact fun d hd => hs d (List.mem_cons_of_mem c hd)
      · exact hn.imp_right (mt (List.mem_cons_of_mem c))

theorem keeps_of_inQuotes (hn : n.inQuotes = true) (hs : '"' ∉ s) : n.Keeps s := by
  have hne : n ≠ outside := by
    rintro rfl
    exact Bool.false_ne_true hn
  induction s with
  | nil => exact ⟨rfl, rfl⟩
  | cons c s ih =>
      have hc : c ≠ '"' := fun h => hs (h ▸ List.mem_cons_self)
      exact keeps_cons (by simp [separates, hne]) (by simp [step, hn, hc])
        (ih (mt (List.mem_cons_of_mem c) hs))

/-- A text between two parts, the second of which undoes what the first one does. -/
theorem Keeps.between {opening closing : List Char} (hopening : n.separatesIn opening = false)
    (hs : (n.after opening).Keeps s) (hclosing : (n.after opening).separatesIn closing = false)
    (hback : (n.after opening).after closing = n) : n.Keeps (opening ++ s ++ closing) := by
  refine ⟨?_, ?_⟩
  · rw [separatesIn_append, separatesIn_append, after_append, hopening, hs.separatesIn, hs.after,
      hclosing]
    rfl
  · rw [after_append, after_append, hs.after, hback]

theorem keeps_quotes (hn : n.inQuotes = false) (hs : '"' ∉ s) : n.Keeps ('"' :: (s ++ ['"'])) := by
  obtain ⟨depth, inQuotes⟩ := n
  obtain rfl : inQuotes = false := hn
  have hinside : (after ⟨depth, false⟩ ['"']).Keeps s := keeps_of_inQuotes rfl hs
  exact Keeps.between rfl hinside rfl rfl

end Nesting

/-! ### Reading over closed texts -/

/-- What stands between two places of a text is closed. -/
def Passes (s rest : List Char) : Prop :=
  ∃ t, s = t ++ rest ∧ Nesting.outside.Keeps t

namespace Passes

variable {s t u : List Char}

theorem refl (s : List Char) : Passes s s :=
  ⟨[], rfl, rfl, rfl⟩

theorem trans (hst : Passes s t) (htu : Passes t u) : Passes s u := by
  obtain ⟨a, rfl, ha⟩ := hst
  obtain ⟨b, rfl, hb⟩ := htu
  exact ⟨a ++ b, (List.append_assoc a b u).symm, ha.append hb⟩

theorem suffix (h : Passes s t) : t <:+ s := by
  obtain ⟨a, rfl, _⟩ := h
  exact List.suffix_append a t

end Passes

theorem Quiet.passes {t : List Char} (ht : Quiet t) (rest : List Char) : Passes (t ++ rest) rest := by
  refine ⟨t, rfl, Nesting.keeps_of_level ?_ (.inr ?_)⟩
  · exact fun c hc hmem => ht c hc (List.mem_cons_of_mem _ hmem)
  · exact fun hmem => ht _ hmem List.mem_cons_self

theorem passes_strip? {mark s rest : List Char} (hmark : Quiet mark)
    (h : strip? mark s = some rest) : Passes s rest := by
  rw [strip?_eq_some_iff.mp h]
  exact hmark.passes rest

theorem passes_dropWhile {p : Char → Bool} (hp : ∀ c ∈ ';' :: nestingChars, p c = false)
    (s : List Char) : Passes s (s.dropWhile p) := by
  have hquiet : Quiet (s.takeWhile p) := by
    intro c hc hmem
    have := List.mem_takeWhile_imp hc
    rw [hp c hmem] at this
    exact Bool.false_ne_true this
  simpa using hquiet.passes (s.dropWhile p)

theorem passes_skipGap (s : List Char) : Passes s (skipGap s) :=
  passes_dropWhile (by decide) s

theorem quiet_of_trim {s : List Char} (hs : Quiet (trim s)) : Quiet s := by
  have hblank : ∀ c ∈ ';' :: nestingChars, isBlank c = false := by decide
  exact fun c hc hmem => hs c (mem_trim hc (hblank c hmem)) hmem

/-! ### Names and labels -/

theorem quotedBy_eq_some {quote : Char} {s body rest : List Char}
    (h : quotedBy quote s = some (body, rest)) :
    s = quote :: (body ++ quote :: rest) ∧ quote ∉ body := by
  cases s with
  | nil => simp [quotedBy] at h
  | cons c s =>
      obtain ⟨rfl, h⟩ := Option.ite_none_right_eq_some.mp h
      obtain ⟨after, hstrip, hpair⟩ := Option.map_eq_some_iff.mp h
      obtain ⟨rfl, rfl⟩ := Prod.mk.inj hpair
      have hdrop : s.dropWhile _ = c :: after := strip?_eq_some_iff.mp hstrip
      refine ⟨?_, ?_⟩
      · rw [← hdrop, List.takeWhile_append_dropWhile]
      · intro hmem
        simpa using List.mem_takeWhile_imp hmem

theorem passes_name {s rest : List Char} {id : String} (h : name s = some (id, rest))
    (hid : Quiet id.toList ∨ '\'' ∉ s) : Passes s rest := by
  obtain ⟨⟨body, t⟩, hbody, hpair⟩ := Option.map_eq_some_iff.mp h
  obtain ⟨rfl, rfl⟩ := Prod.mk.inj hpair
  rw [String.toList_ofList] at hid
  rcases orElse_eq_some_iff.mp hbody with hname | ⟨_, hname⟩
  · obtain ⟨⟨text, t⟩, hquoted, hname⟩ := Option.bind_eq_some_iff.mp hname
    obtain ⟨_, heq⟩ := Option.ite_none_left_eq_some.mp hname
    obtain ⟨rfl, rfl⟩ := Prod.mk.inj (Option.some.inj heq)
    rcases orElse_eq_some_iff.mp hquoted with hdouble | ⟨_, hsingle⟩
    · obtain ⟨rfl, hfree⟩ := quotedBy_eq_some hdouble
      exact ⟨'"' :: (text ++ ['"']), by simp, Nesting.keeps_quotes rfl hfree⟩
    · obtain ⟨rfl, _⟩ := quotedBy_eq_some hsingle
      have htext : Quiet text :=
        quiet_of_trim (hid.resolve_right (not_not_intro List.mem_cons_self))
      have hquote : Quiet ['\''] := by decide
      exact ((hquote.passes _).trans (htext.passes _)).trans (hquote.passes t)
  · obtain ⟨_, heq⟩ := Option.ite_none_left_eq_some.mp hname
    obtain ⟨rfl, rfl⟩ := Prod.mk.inj (Option.some.inj heq)
    exact passes_dropWhile (by decide) s

/-- A label that is a text in double quotes. -/
def InQuotes (label : List Char) : Prop :=
  ∃ body, label = '"' :: (body ++ ['"']) ∧ '"' ∉ body

/-- A label in brackets is enclosed by double quotes or else holds none of the characters that open
or close something, and no semicolon either if it stands behind an angle bracket. -/
def EnclosedLabel (s label : List Char) : Prop :=
  InQuotes label ∨ Level label ∧ (';' ∈ label → ¬ '>' :: (label ++ [']']) <:+: s)

theorem passes_bracketLabel {s rest : List Char} {label : String}
    (h : bracketLabel s = some (label, rest)) (hlabel : EnclosedLabel s label.toList) :
    Passes s rest := by
  have hrows : ∀ b ∈ brackets, Nesting.outside.separatesIn b.1.toList = false ∧
      (Nesting.outside.after b.1.toList).inQuotes = false ∧
      (Nesting.outside.after b.1.toList).separatesIn b.2.toList = false ∧
      (Nesting.outside.after b.1.toList).after b.2.toList = Nesting.outside ∧
      (Nesting.outside.after b.1.toList = Nesting.outside → b = (">", "]")) := by decide
  obtain ⟨⟨opening, closing⟩, hrow, h⟩ := List.exists_of_findSome?_eq_some h
  obtain ⟨⟨body, t⟩, hbetween, hpair⟩ := Option.map_eq_some_iff.mp h
  obtain ⟨rfl, rfl⟩ := Prod.mk.inj hpair
  obtain ⟨u, hopening, hcut⟩ := Option.bind_eq_some_iff.mp hbetween
  have hu := strip?_eq_some_iff.mp hopening
  rw [eq_append_of_cut? hcut] at hu
  rw [String.toList_ofList] at hlabel
  obtain ⟨hopen, hquotes, hclose, hback, hangle⟩ := hrows _ hrow
  refine ⟨opening.toList ++ body ++ closing.toList, by simp [hu], .between hopen ?_ hclose hback⟩
  rcases hlabel with ⟨inner, rfl, hinner⟩ | ⟨hlevel, hsemicolon⟩
  · exact Nesting.keeps_quotes hquotes hinner
  · refine Nesting.keeps_of_level hlevel ?_
    by_cases hn : Nesting.outside.after opening.toList = Nesting.outside
    · obtain ⟨rfl, rfl⟩ := Prod.mk.inj (hangle hn)
      exact .inr fun hmem => hsemicolon hmem ⟨[], t, by simp [hu]⟩
    · exact .inl hn

theorem passes_optional {α : Type} {m : Matcher α} {s : List Char}
    (h : ∀ a rest, m s = some (a, rest) → Passes s rest) : Passes s (Matcher.optional m s).2 := by
  unfold Matcher.optional
  split
  · rename_i a rest hm
    exact h a rest hm
  · exact Passes.refl s

theorem passes_styleName {s rest body : List Char} (h : styleName s = some (body, rest)) :
    Passes s rest := by
  obtain ⟨t, hcolons, hname⟩ := Option.bind_eq_some_iff.mp h
  obtain ⟨_, heq⟩ := Option.ite_none_left_eq_some.mp hname
  obtain ⟨rfl, rfl⟩ := Prod.mk.inj (Option.some.inj heq)
  exact (passes_strip? (by decide) hcolons).trans (passes_dropWhile (by decide) t)

/-! ### Arrows -/

theorem passes_run? {c : Char} (hc : Quiet [c]) {s rest : List Char} (h : run? c s = some rest) :
    Passes s rest := by
  obtain ⟨t, hstrip, rfl⟩ := Option.map_eq_some_iff.mp h
  refine (passes_strip? hc hstrip).trans (passes_dropWhile ?_ t)
  intro d hd
  have hne : d ≠ c := fun heq => hc c List.mem_cons_self (heq ▸ hd)
  simpa using hne

theorem passes_dottedBody? {s rest : List Char} (h : dottedBody? s = some rest) :
    Passes s rest := by
  obtain ⟨t, hdash, h⟩ := Option.bind_eq_some_iff.mp h
  obtain ⟨u, hdots, hdashes⟩ := Option.bind_eq_some_iff.mp h
  exact ((passes_strip? (by decide) hdash).trans (passes_run? (by decide) hdots)).trans
    (passes_run? (by decide) hdashes)

theorem passes_evenBody? {c : Char} (hc : Quiet [c]) {s rest : List Char}
    (h : evenBody? c s = some rest) : Passes s rest := by
  obtain ⟨t, hfirst, hrun⟩ := Option.bind_eq_some_iff.mp h
  exact (passes_strip? hc hfirst).trans (passes_run? hc hrun)

theorem passes_arrowBody {s rest : List Char} {style : EdgeKind}
    (h : arrowBody s = some (style, rest)) : Passes s rest := by
  unfold arrowBody at h
  split at h
  · rename_i hbody
    obtain ⟨_, rfl⟩ := Prod.mk.inj (Option.some.inj h)
    exact passes_dottedBody? hbody
  · rename_i hbody
    obtain ⟨_, rfl⟩ := Prod.mk.inj (Option.some.inj h)
    exact passes_evenBody? (by decide) hbody
  · rename_i hbody
    obtain ⟨_, rfl⟩ := Prod.mk.inj (Option.some.inj h)
    exact passes_evenBody? (by decide) hbody
  · cases h

theorem passes_skipHead (s : List Char) : Passes s (skipHead s) := by
  unfold skipHead
  split
  · rename_i c d s
    split
    · rename_i hhead
      have hquiet : ∀ c ∈ ['<', 'o', 'x'], Quiet [c] := by decide
      exact (hquiet c hhead.1).passes (d :: s)
    · exact Passes.refl _
  · exact Passes.refl _

theorem passes_skipPoint (s : List Char) : Passes s (skipPoint s) := by
  unfold skipPoint
  split
  · exact Passes.refl _
  · rename_i c s
    split
    · rename_i hpoint
      have hquiet : ∀ c ∈ ['>', 'o', 'x'], Quiet [c] := by decide
      have hmem : c ∈ ['>', 'o', 'x'] := by
        rcases hpoint with rfl | ⟨hhead, _⟩
        · exact List.mem_cons_self
        · exact List.mem_cons_of_mem _ hhead
      exact (hquiet c hmem).passes s
    · exact Passes.refl _

theorem passes_plainArrow {s rest : List Char} {style : EdgeKind}
    (h : plainArrow s = some (style, rest)) : Passes s rest := by
  obtain ⟨⟨style', t⟩, hbody, hpair⟩ := Option.map_eq_some_iff.mp h
  obtain ⟨_, rfl⟩ := Prod.mk.inj hpair
  exact ((passes_skipHead s).trans (passes_arrowBody hbody)).trans (passes_skipPoint t)

theorem passes_pipeLabel {s rest : List Char} {label : String}
    (h : pipeLabel s = some (label, rest)) (hlabel : Quiet label.toList) : Passes s rest := by
  obtain ⟨⟨body, t⟩, hbetween, hpair⟩ := Option.map_eq_some_iff.mp h
  obtain ⟨rfl, rfl⟩ := Prod.mk.inj hpair
  obtain ⟨u, hopening, hcut⟩ := Option.bind_eq_some_iff.mp hbetween
  rw [restText, String.toList_ofList] at hlabel
  have hpipe : Quiet "|".toList := by decide
  have hgap := (passes_skipGap s).trans (passes_strip? hpipe hopening)
  rw [eq_append_of_cut? hcut, List.append_assoc] at hgap
  exact (hgap.trans ((quiet_of_trim hlabel).passes _)).trans (hpipe.passes t)

theorem passes_pipedArrow {s rest : List Char} {a : Arrow}
    (h : pipedArrow s = some (a, rest)) (ha : ∀ label ∈ a.label, Quiet label.toList) :
    Passes s rest := by
  obtain ⟨⟨style, t⟩, hplain, h⟩ := Option.bind_eq_some_iff.mp h
  have hpassed := passes_plainArrow hplain
  cases hpipe : pipeLabel t with
  | none =>
      simp only [optional_of_eq_none hpipe] at h
      obtain ⟨_, rfl⟩ := Prod.mk.inj (Option.some.inj h)
      exact hpassed
  | some result =>
      obtain ⟨label, u⟩ := result
      simp only [optional_of_eq_some hpipe] at h
      obtain ⟨rfl, rfl⟩ := Prod.mk.inj (Option.some.inj h)
      exact hpassed.trans (passes_pipeLabel hpipe (ha label rfl))

theorem passes_inlineArrow {s rest : List Char} {a : Arrow}
    (h : inlineArrow s = some (a, rest)) (ha : ∀ label ∈ a.label, Quiet label.toList) :
    Passes s rest := by
  have hparts : ∀ form ∈ inlineForms, Quiet form.opening.toList ∧
      ∀ m ∈ form.closings.map String.toList, Quiet m := by decide
  obtain ⟨form, hform, h⟩ := List.exists_of_findSome?_eq_some h
  obtain ⟨hopening, hclosings⟩ := hparts form hform
  obtain ⟨t, hfilter, h⟩ := Option.bind_eq_some_iff.mp h
  obtain ⟨hstrip, _⟩ := Option.filter_eq_some_iff.mp hfilter
  obtain ⟨⟨body, u⟩, hcut, h⟩ := Option.bind_eq_some_iff.mp h
  obtain ⟨_, heq⟩ := Option.ite_none_left_eq_some.mp h
  obtain ⟨rfl, rfl⟩ := Prod.mk.inj (Option.some.inj heq)
  obtain ⟨m, hm, rfl⟩ := exists_mark_of_cutAny? hcut
  have hbody : Quiet body := quiet_of_trim (by simpa [restText] using ha _ rfl)
  have hlabel : Passes (body ++ m ++ u) u := by
    rw [List.append_assoc]
    exact (hbody.passes _).trans ((hclosings m hm).passes u)
  exact ((passes_strip? hopening hstrip).trans hlabel).trans (passes_dropWhile (by decide) u)

theorem passes_arrow {s rest : List Char} {a : Arrow} (h : arrow s = some (a, rest))
    (ha : ∀ label ∈ a.label, Quiet label.toList) : Passes s rest := by
  rcases orElse_eq_some_iff.mp h with hinline | ⟨_, hpiped⟩
  · exact passes_inlineArrow hinline ha
  · exact passes_pipedArrow hpiped ha

/-! ### Chains -/

/-- Single quotes around a name do not count for the nesting. -/
structure EnclosedNode (s : List Char) (n : NodeRef) : Prop where
  id : Quiet n.id.toList ∨ '\'' ∉ s
  label : ∀ label ∈ n.label, EnclosedLabel s label.toList

structure EnclosedStep (s : List Char) (step : ChainStep) : Prop where
  label : ∀ label ∈ step.arrow.label, Quiet label.toList
  node : EnclosedNode s step.node

theorem EnclosedLabel.of_suffix {s t label : List Char} (h : EnclosedLabel s label) (hts : t <:+ s) :
    EnclosedLabel t label :=
  h.imp_right fun ⟨hlevel, hfree⟩ =>
    ⟨hlevel, fun hmem hwithin => hfree hmem (hwithin.trans hts.isInfix)⟩

theorem EnclosedNode.of_suffix {s t : List Char} {n : NodeRef} (h : EnclosedNode s n)
    (hts : t <:+ s) : EnclosedNode t n :=
  ⟨h.id.imp_right (mt (hts.subset ·)), fun label hlabel => (h.label label hlabel).of_suffix hts⟩

theorem EnclosedStep.of_suffix {s t : List Char} {step : ChainStep} (h : EnclosedStep s step)
    (hts : t <:+ s) : EnclosedStep t step :=
  ⟨h.label, h.node.of_suffix hts⟩

theorem passes_nodeRef {s rest : List Char} {n : NodeRef} (h : nodeRef s = some (n, rest))
    (hn : EnclosedNode s n) : Passes s rest := by
  obtain ⟨⟨id, t⟩, hname, h⟩ := Option.bind_eq_some_iff.mp h
  simp only [Option.pure_def, Option.some.injEq, Prod.mk.injEq] at h
  obtain ⟨rfl, rfl⟩ := h
  have hid := passes_name hname hn.id
  refine (hid.trans (passes_optional fun label u hlabel => ?_)).trans
    (passes_optional fun body u hstyle => passes_styleName hstyle)
  refine passes_bracketLabel hlabel ((hn.label label ?_).of_suffix hid.suffix)
  simp [optional_of_eq_some hlabel]

theorem passes_chainStep {s rest : List Char} {step : ChainStep}
    (h : chainStep s = some (step, rest)) (hstep : EnclosedStep s step) : Passes s rest := by
  obtain ⟨⟨a, t⟩, harrow, h⟩ := Option.bind_eq_some_iff.mp h
  obtain ⟨⟨n, u⟩, hnode, h⟩ := Option.bind_eq_some_iff.mp h
  obtain ⟨rfl, rfl⟩ := Prod.mk.inj (Option.some.inj h)
  have hbefore : Passes s (skipGap t) :=
    ((passes_skipGap s).trans (passes_arrow harrow hstep.label)).trans (passes_skipGap t)
  exact hbefore.trans (passes_nodeRef hnode (hstep.node.of_suffix hbefore.suffix))

theorem passes_chainSteps {s : List Char} (h : ∀ step ∈ (chainSteps s).1, EnclosedStep s step) :
    Passes s (chainSteps s).2 := by
  induction s using chainSteps.induct with
  | case1 s hnone =>
      rw [chainSteps_of_eq_none hnone]
      exact Passes.refl s
  | case2 s step rest hstep _ _ _ _ ih =>
      rw [chainSteps_of_eq_some hstep] at h ⊢
      have hpassed := passes_chainStep hstep (h step List.mem_cons_self)
      refine hpassed.trans (ih fun next hnext => ?_)
      exact (h next (List.mem_cons_of_mem _ hnext)).of_suffix hpassed.suffix

/-- All names and labels of the chain are enclosed where they stand in the statement. -/
structure Enclosed (s : List Char) (c : Chain) : Prop where
  first : EnclosedNode s c.first
  steps : ∀ step ∈ c.steps, EnclosedStep s step

theorem passes_chain {s rest : List Char} {c : Chain} (h : chain s = some (c, rest))
    (hc : Enclosed s c) : Passes s rest := by
  obtain ⟨⟨first, t⟩, hfirst, h⟩ := Option.bind_eq_some_iff.mp h
  obtain ⟨_, heq⟩ := Option.ite_none_left_eq_some.mp h
  obtain ⟨rfl, rfl⟩ := Prod.mk.inj (Option.some.inj heq)
  have hpassed := passes_nodeRef hfirst hc.first
  exact hpassed.trans (passes_chainSteps fun step hstep =>
    (hc.steps step hstep).of_suffix hpassed.suffix)

/-- A statement that is a chain from end to end is closed. -/
theorem keeps_of_chain {s : List Char} {c : Chain} (h : chain s = some (c, []))
    (hc : Enclosed s c) : Nesting.outside.Keeps s := by
  obtain ⟨t, rfl, ht⟩ := passes_chain h hc
  rwa [List.append_nil]

end TextDiagram.Flow
