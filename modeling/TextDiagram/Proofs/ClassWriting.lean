import TextDiagram.Proofs.ClassAssembly
import TextDiagram.Proofs.FlowArrows
import TextDiagram.Proofs.NameForms

/-!
# Writing a relation

A relation is written as two names around an operator, with a cardinality in double quotes on
either side of the operator and a label at the end. A quoted text behind the operator is read as a
cardinality before it is read as a name, so the right-hand name can be quoted only behind a
cardinality. The edge of a relation points to its decorated end, whichever side that is written on.
-/

namespace TextDiagram

theorem Rule.name_mem_of_recognize? {α : Type} {rules : List (Rule α)} {s : List Char}
    {name : String} {a : α} (h : recognize? rules s = some (name, a)) :
    name ∈ rules.map Rule.name := by
  obtain ⟨rule, hrule, hread⟩ := List.exists_of_findSome?_eq_some h
  obtain ⟨b, _, hpair⟩ := Option.map_eq_some_iff.mp hread
  exact List.mem_map.mpr ⟨rule, hrule, (Prod.mk.inj hpair).1⟩

namespace Class

open Text Matcher
open TextDiagram.Flow (Trimmed)

/-- The words that keep a statement from being a relation. -/
def statementWords : List String :=
  "class" :: Dialect.headerWords

structure WrittenRelation where
  left : NameForm
  leftCardinality : Option String := none
  spelling : String
  operator : Operator
  rightCardinality : Option String := none
  right : NameForm
  label : Option String := none

def cardinalityText : Option String → List Char
  | none => []
  | some c => ' ' :: '"' :: (c.toList ++ ['"'])

def labelText : Option String → List Char
  | none => []
  | some label => ' ' :: ':' :: ' ' :: label.toList

namespace WrittenRelation

def text (w : WrittenRelation) : List Char :=
  w.left.text ++ (cardinalityText w.leftCardinality ++ ' ' :: (w.spelling.toList ++
    (cardinalityText w.rightCardinality ++ ' ' :: (w.right.text ++ labelText w.label))))

def relation (w : WrittenRelation) : Relation :=
  ⟨w.left.id, w.operator, w.right.id, w.label⟩

structure Fits (w : WrittenRelation) : Prop where
  left : w.left.Fits
  avoids : w.left.Avoids statementWords
  leftCardinality : ∀ c ∈ w.leftCardinality, '"' ∉ c.toList ∧ '\n' ∉ c.toList
  operator : (w.spelling, w.operator) ∈ operators
  rightCardinality : ∀ c ∈ w.rightCardinality, '"' ∉ c.toList ∧ '\n' ∉ c.toList
  right : w.right.Fits
  label : ∀ l ∈ w.label, Trimmed l

instance (w : WrittenRelation) : Decidable w.Fits :=
  decidable_of_iff (w.left.Fits ∧ w.left.Avoids statementWords ∧
      (∀ c ∈ w.leftCardinality, '"' ∉ c.toList ∧ '\n' ∉ c.toList) ∧
      (w.spelling, w.operator) ∈ operators ∧
      (∀ c ∈ w.rightCardinality, '"' ∉ c.toList ∧ '\n' ∉ c.toList) ∧ w.right.Fits ∧
      ∀ l ∈ w.label, Trimmed l)
    ⟨fun ⟨h₁, h₂, h₃, h₄, h₅, h₆, h₇⟩ => ⟨h₁, h₂, h₃, h₄, h₅, h₆, h₇⟩,
      fun h => ⟨h.left, h.avoids, h.leftCardinality, h.operator, h.rightCardinality, h.right,
        h.label⟩⟩

/-- Nothing quoted stands where a cardinality is expected. -/
def Legible (w : WrittenRelation) : Prop :=
  w.right.isBare ∨ w.rightCardinality.isSome

end WrittenRelation

/-! ### Cardinalities -/

theorem exists_cardinalityText_append (c : Option String) (t : List Char) :
    ∃ u, cardinalityText c ++ ' ' :: t = ' ' :: u := by
  cases c with
  | none => exact ⟨t, rfl⟩
  | some c => exact ⟨_, rfl⟩

theorem setOff_cardinalityText (c : Option String) (t : List Char) :
    SetOff (cardinalityText c ++ ' ' :: t) :=
  setOff_iff.mpr (.inr (exists_cardinalityText_append c t))

theorem setOff_labelText (label : Option String) : SetOff (labelText label) := by
  cases label with
  | none => exact setOff_nil
  | some label => exact setOff_cons _

theorem cardinality_append {c : String} (h : '"' ∉ c.toList ∧ '\n' ∉ c.toList) (t : List Char) :
    cardinality (cardinalityText (some c) ++ t) = some (c.toList, t) := by
  have hgap : skipGap (cardinalityText (some c) ++ t) = '"' :: (c.toList ++ '"' :: t) := by
    simp [cardinalityText, skipGap, isGap]
  rw [cardinality, hgap]
  exact quoted_append (by decide) h.1 h.2 t

theorem optional_cardinality {c : Option String}
    (hc : ∀ d ∈ c, '"' ∉ d.toList ∧ '\n' ∉ d.toList) {t : List Char}
    (ht : c = none → quoted (skipGap (' ' :: t)) = none) :
    Matcher.optional cardinality (cardinalityText c ++ ' ' :: t) =
      (c.map String.toList, ' ' :: t) := by
  cases c with
  | none => exact optional_of_eq_none (ht rfl)
  | some c => exact optional_of_eq_some (cardinality_append (hc c rfl) _)

/-! ### Relations -/

theorem operator_operators {spelling : String} {op : Operator}
    (h : (spelling, op) ∈ operators) (t : List Char) :
    Matcher.operator operators true (spelling.toList ++ ' ' :: t) = some (op, ' ' :: t) := by
  have hspaces : ∀ row ∈ operators, ' ' ∉ row.1.toList := by decide
  have hrows : ∀ row ∈ operators,
      Matcher.operator operators true row.1.toList = some (row.2, []) := by decide
  rw [operator_append_cons (by decide) hspaces, hrows _ h]
  rfl

theorem quoted_spelling {row : String × Operator} (h : row ∈ operators) (t : List Char) :
    quoted (row.1.toList ++ t) = none := by
  have hheads : ∀ row ∈ operators, row.1.toList.head?.any (· ∉ ['"', '\'']) := by decide
  obtain ⟨c, s, hs, hc⟩ := exists_cons_of_head?_any (hheads row h)
  rw [hs]
  exact quoted_eq_none (of_decide_eq_true hc) (s ++ t)

theorem colonText_labelText {label : Option String} (h : ∀ l ∈ label, Trimmed l) :
    colonText (labelText label) = label := by
  cases label with
  | none => rfl
  | some label =>
      rw [labelText, colonText, afterColon?_space]
      exact colonText_colon (h label rfl).trim_eq (h label rfl).ne_nil

theorem stereotyped_eq_none {s : List Char} (hs : opensName s = true) : stereotyped s = none := by
  cases s with
  | nil => exact absurd hs Bool.false_ne_true
  | cons c s =>
      have hopening : '<' ≠ c := (ne_of_opensName hs (by decide)).symm
      simp [stereotyped, stereotype, between, strip?, hopening]

namespace WrittenRelation

variable {w : WrittenRelation}

/-- Up to the operator nothing goes wrong, whatever follows. -/
theorem relation_text_eq (hw : w.Fits) :
    Class.relation w.text = (do
      let (_, s) := Matcher.optional cardinality
        (cardinalityText w.rightCardinality ++ ' ' :: (w.right.text ++ labelText w.label))
      let (right, s) ← name (skipGap s)
      return (⟨w.left.id, w.operator, right, colonText s⟩, [])) := by
  let behind := cardinalityText w.rightCardinality ++ ' ' :: (w.right.text ++ labelText w.label)
  obtain ⟨u, hu⟩ : ∃ u, behind = ' ' :: u := exists_cardinalityText_append _ _
  have hname : name w.text = some (w.left.id,
      cardinalityText w.leftCardinality ++ ' ' :: (w.spelling.toList ++ behind)) :=
    NameForm.name_text hw.left (setOff_cardinalityText _ _).startsInName_eq
  have hgap : skipGap (' ' :: (w.spelling.toList ++ behind)) = w.spelling.toList ++ behind :=
    skipGap_spelling (by decide) hw.operator behind
  have hcardinality := optional_cardinality hw.leftCardinality fun _ => by
    rw [hgap]
    exact quoted_spelling hw.operator behind
  have hoperator : Matcher.operator operators true (w.spelling.toList ++ behind) =
      some (w.operator, behind) := by
    rw [hu]
    exact operator_operators hw.operator u
  simp only [Class.relation, hname, hcardinality, hgap, hoperator, Option.bind_eq_bind,
    Option.bind_some]
  rfl

theorem relation_text (hw : w.Fits) (hlegible : w.Legible) :
    Class.relation w.text = some (w.relation, []) := by
  have hcardinality := optional_cardinality (t := w.right.text ++ labelText w.label)
    hw.rightCardinality fun hnone => by
      rw [NameForm.skipGap_space_text hw.right]
      exact NameForm.quoted_text_of_isBare hw.right (hlegible.resolve_right (by simp [hnone])) _
  have hname := NameForm.name_text hw.right (setOff_labelText w.label).startsInName_eq
  simp only [relation_text_eq hw, hcardinality, NameForm.skipGap_space_text hw.right, hname,
    colonText_labelText hw.label, Option.bind_eq_bind, Option.bind_some]
  rfl

/-- A right-hand name that is taken for a cardinality is missed. -/
theorem relation_text_eq_none (hw : w.Fits) (hillegible : ¬ w.Legible) :
    Class.relation w.text = none := by
  obtain ⟨hquoted, hnone⟩ : w.right.isBare = false ∧ w.rightCardinality = none := by
    simpa [Legible] using hillegible
  have hcardinality : Matcher.optional cardinality
      (cardinalityText none ++ ' ' :: (w.right.text ++ labelText w.label)) =
        (some w.right.id.toList, labelText w.label) := by
    refine optional_of_eq_some ?_
    rw [cardinalityText, List.nil_append, cardinality, NameForm.skipGap_space_text hw.right]
    exact NameForm.quoted_text hw.right hquoted _
  have hname : name (skipGap (labelText w.label)) = none := by
    cases w.label with
    | none => rfl
    | some label => exact name_eq_none (by decide) _
  simp only [relation_text_eq hw, hnone, hcardinality, hname, Option.bind_eq_bind,
    Option.bind_none]

/-! ### Recognition -/

theorem recognize?_text_eq (hw : w.Fits) :
    Rule.recognize? rules w.text =
      ((Class.relation w.text).map fun (r, _) => ("relation", Fragment.relation r)).or
        (Rule.recognize? (rules.drop 4) w.text) := by
  have hwords : anyWord? statementWords w.text = none :=
    NameForm.anyWord?_text hw.left (by decide) (by decide) hw.avoids
      (setOff_cardinalityText _ _).startsInName_eq
  have hheader : anyWord? Dialect.headerWords w.text = none :=
    anyWord?_eq_none_of_subset hwords (List.subset_cons_self _ _)
  have hdeclaration : Class.declaration w.text = none := by
    simp [Class.declaration, word?_eq_none_of_mem hwords List.mem_cons_self]
  have hstereotyped : stereotyped w.text = none :=
    stereotyped_eq_none (NameForm.opensName_text hw.left _)
  simp only [Rule.recognize?, rules, List.drop, List.findSome?_cons, List.findSome?_nil,
    Rule.ofWords, Rule.ofMatcher, hheader, hdeclaration, hstereotyped, Option.map_none,
    Option.map_map]
  cases Class.relation w.text <;> rfl

theorem recognize?_text (hw : w.Fits) (hlegible : w.Legible) :
    Rule.recognize? rules w.text = some ("relation", .relation w.relation) := by
  rw [recognize?_text_eq hw, relation_text hw hlegible]
  rfl

/-- A relation is recognized with both of its names exactly if the right-hand name is bare or else
stands behind a cardinality. -/
theorem recognized_iff_right_end_legible (hw : w.Fits) :
    Rule.recognize? rules w.text = some ("relation", .relation w.relation) ↔
      w.right.isBare ∨ w.rightCardinality.isSome := by
  refine ⟨fun h => ?_, recognize?_text hw⟩
  by_contra hillegible
  rw [recognize?_text_eq hw, relation_text_eq_none hw hillegible, Option.map_none,
    Option.none_or] at h
  exact absurd (Rule.name_mem_of_recognize? h) (by decide)

theorem recognized_iff_right_end_legible_quoted_left :
    let w : WrittenRelation :=
      { left := .quoted '"' "x y", spelling := "o--", operator := ⟨.aggregation, true⟩
        right := .bare "B", label := some "has" }
    String.ofList w.text = "\"x y\" o-- B : has" ∧ w.Fits ∧
      Rule.recognize? rules w.text =
        some ("relation", .relation ⟨"x y", ⟨.aggregation, true⟩, "B", some "has"⟩) := by
  intro w
  have hw : w.Fits := by decide
  exact ⟨by decide, hw, (recognized_iff_right_end_legible hw).mpr (.inl rfl)⟩

/-- What stands behind the operator is taken for a cardinality although no name follows it. -/
theorem quoted_right_end_lost :
    name "\"B C\"".toList = some ("B C", []) ∧
      Rule.recognize? rules "A --> \"B C\"".toList = none ∧
      Rule.recognize? rules "\"B C\" --> A".toList =
        some ("relation", .relation ⟨"B C", ⟨.association, false⟩, "A", none⟩) := by
  refine ⟨?_, ?_, ?_⟩ <;> decide +kernel

/-! ### Edges -/

/-- The triangle, the diamond or the arrowhead stands on the left. -/
def decoratedLeft (w : WrittenRelation) : Bool :=
  w.spelling.toList.head?.any (· ∈ ['<', '*', 'o'])

/-- The edge points to the decorated end. -/
def edge (w : WrittenRelation) : Edge where
  source := if w.decoratedLeft then w.right.id else w.left.id
  target := if w.decoratedLeft then w.left.id else w.right.id
  kind := w.operator.kind
  label := w.label

/-- The spellings that look the same from the two sides of a relation. -/
def mirrors : List (String × String) :=
  [("<|--", "--|>"), ("*--", "--*"), ("o--", "--o"), ("<|..", "..|>"), ("<..", "..>")]

/-- The same relation as it is written from its other side, whatever the cardinalities are. -/
structure Mirrors (v w : WrittenRelation) : Prop where
  left : v.left = w.right
  right : v.right = w.left
  label : v.label = w.label
  spelling : (w.spelling, v.spelling) ∈ mirrors ∨ (v.spelling, w.spelling) ∈ mirrors

theorem edge_relation (hw : w.Fits) : w.relation.edge = w.edge := by
  have hrows : ∀ row ∈ operators,
      row.2.swap = row.1.toList.head?.any (· ∈ ['<', '*', 'o']) := by decide
  have hswap : w.operator.swap = w.decoratedLeft := hrows _ hw.operator
  simp only [Relation.edge, Relation.source, Relation.target, relation, edge, hswap]

theorem edge_eq_of_mirrors {v : WrittenRelation} (hv : v.Fits) (hw : w.Fits) (h : v.Mirrors w) :
    v.relation.edge = w.relation.edge := by
  have hrows : ∀ a ∈ operators, ∀ b ∈ operators, (a.1, b.1) ∈ mirrors →
      a.2.kind = b.2.kind ∧ a.2.swap = !b.2.swap := by decide
  obtain ⟨hkind, hswap⟩ : v.operator.kind = w.operator.kind ∧
      v.operator.swap = !w.operator.swap := by
    rcases h.spelling with hmirror | hmirror
    · obtain ⟨hkind, hswap⟩ := hrows _ hw.operator _ hv.operator hmirror
      exact ⟨hkind.symm, (Bool.not_eq_eq_eq_not.mpr hswap).symm⟩
    · exact hrows _ hv.operator _ hw.operator hmirror
  simp only [Relation.edge, Relation.source, Relation.target, relation, h.left, h.right, h.label,
    hkind, hswap]
  by_cases hleft : w.operator.swap = true <;> simp [hleft]

end WrittenRelation

/-- The edges that the relations among the statements give. -/
def edgesOf (ss : List (List Char)) : List Edge :=
  (relations (ss.filterMap (Rule.meaning? rules))).map Relation.edge

theorem edges_parse {p : Parser} {source : String} (h : p.dialectOf? source = some .classes) :
    (p.parse source).edges = edgesOf (statements source.toList) := by
  rw [Parser.parse_eq_graph h, Dialect.graph_edges]
  exact edges_run_steps (fragments source.toList)

theorem edgesOf_append (ss ts : List (List Char)) :
    edgesOf (ss ++ ts) = edgesOf ss ++ edgesOf ts := by
  simp [edgesOf, relations]

theorem edgesOf_cons_relation {s : List Char} {r : Relation}
    (h : Rule.meaning? rules s = some (.relation r)) (ss : List (List Char)) :
    edgesOf (s :: ss) = r.edge :: edgesOf ss := by
  simp [edgesOf, relations, h, Fragment.relation?]

/-- Among the other statements of a diagram a relation gives one edge, which points to its
decorated end. Written from the other side it gives the same edge. -/
theorem relation_gives_canonical_edge {w : WrittenRelation} (hw : w.Fits)
    (hlegible : w.right.isBare ∨ w.rightCardinality.isSome) :
    Rule.recognize? rules w.text = some ("relation", .relation w.relation) ∧
      (∀ (p : Parser) (source : String) (before behind : List (List Char)),
        p.dialectOf? source = some .classes →
        statements source.toList = before ++ w.text :: behind →
        (p.parse source).edges = edgesOf before ++ w.edge :: edgesOf behind) ∧
      ∀ v : WrittenRelation, v.Fits → v.Mirrors w → v.edge = w.edge := by
  have hread := WrittenRelation.recognize?_text hw hlegible
  have hedge := WrittenRelation.edge_relation hw
  refine ⟨hread, ?_, ?_⟩
  · intro p source before behind hp hstatements
    have hmeaning : Rule.meaning? rules w.text = some (.relation w.relation) :=
      congrArg (Option.map Prod.snd) hread
    rw [edges_parse hp, hstatements, edgesOf_append, edgesOf_cons_relation hmeaning, hedge]
  · intro v hv hmirror
    rw [← WrittenRelation.edge_relation hv, ← hedge]
    exact WrittenRelation.edge_eq_of_mirrors hv hw hmirror

theorem relation_gives_canonical_edge_mirrored :
    let w : WrittenRelation :=
      { left := .bare "A", leftCardinality := some "1", spelling := "<|--"
        operator := ⟨.inheritance, true⟩, rightCardinality := some "0..*", right := .bare "B"
        label := some "is" }
    let v : WrittenRelation :=
      { left := .bare "B", spelling := "--|>", operator := ⟨.inheritance, false⟩
        right := .bare "A", label := some "is" }
    let source := "classDiagram\nA \"1\" <|-- \"0..*\" B : is\nC --> D"
    w.Fits ∧ w.right.isBare ∧ Parser.detecting.dialectOf? source = some .classes ∧
      statements source.toList = ["classDiagram".toList] ++ w.text :: ["C --> D".toList] ∧
      (Parser.detecting.parse source).edges =
        [{ source := "B", target := "A", kind := .inheritance, label := some "is" },
          { source := "C", target := "D", kind := .association }] ∧
      v.Fits ∧ v.Mirrors w ∧ v.edge = w.edge := by
  intro w v source
  have hw : w.Fits := by decide
  have hv : v.Fits := by decide
  have hmirror : v.Mirrors w := ⟨rfl, rfl, rfl, .inl (by decide)⟩
  have hdialect : Parser.detecting.dialectOf? source = some .classes := by decide +kernel
  have hstatements : statements source.toList =
      ["classDiagram".toList] ++ w.text :: ["C --> D".toList] := by decide +kernel
  obtain ⟨_, hedges, hsame⟩ := relation_gives_canonical_edge hw (.inl rfl)
  refine ⟨hw, rfl, hdialect, hstatements, ?_, hv, hmirror, hsame v hv hmirror⟩
  rw [hedges _ _ _ _ hdialect hstatements]
  decide +kernel

end Class

end TextDiagram
