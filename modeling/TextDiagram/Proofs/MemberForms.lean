import TextDiagram.Proofs.ClassBodies
import TextDiagram.Proofs.ClassWriting
import TextDiagram.Proofs.Markers
import TextDiagram.Proofs.Outcome
import TextDiagram.Proofs.SingleClass

/-!
# Two forms for the members of a class

The members of a class stand in its body, or else each of them stands on a line of its own, behind
the name of the class. The two forms are read by different rules and in different passes. For a
class of which nothing else is said they come to the same, because only the order of all its items
counts.
-/

namespace TextDiagram.Class

open Text Matcher
open TextDiagram.Flow (Trimmed)

/-! ### Lines of the two forms -/

/-- A line that gives one item to a class. -/
structure ItemLine (line : List Char) : Prop where
  trim_eq : trim line = line
  line_break : '\n' ∉ line
  brace : '\x7d' ∉ line
  comment : isComment line = false
  item : (BodyItem.ofLine? line).isSome = true

instance (line : List Char) : Decidable (ItemLine line) :=
  decidable_of_iff (trim line = line ∧ '\n' ∉ line ∧ '\x7d' ∉ line ∧ isComment line = false ∧
      (BodyItem.ofLine? line).isSome = true)
    ⟨fun ⟨h₁, h₂, h₃, h₄, h₅⟩ => ⟨h₁, h₂, h₃, h₄, h₅⟩,
      fun h => ⟨h.trim_eq, h.line_break, h.brace, h.comment, h.item⟩⟩

theorem ItemLine.ne_nil {line : List Char} (h : ItemLine line) : line ≠ [] := by
  rintro rfl
  exact Bool.false_ne_true h.item

/-- A class with its items in a body. -/
def blockForm (id : String) (items : List (List Char)) : WrittenBlock where
  name := .bare id
  opening := openingLine (.bare id)
  body := items
  closing := ['\x7d']

def classLine (id : String) : List Char :=
  "class".toList ++ ' ' :: id.toList

theorem classLine_eq (id : String) : classLine id = "class".toList ++ ' ' :: id.toList := rfl

def memberLine (id : String) (item : List Char) : List Char :=
  id.toList ++ ' ' :: ':' :: ' ' :: item

/-- A class with its items on lines of their own. -/
def separateForm (id : String) (items : List (List Char)) : List (List Char) :=
  classLine id :: items.map (memberLine id)

/-- A line that is a statement by itself. -/
structure StatementLine (line : List Char) : Prop where
  counts : meaningfulLines line = [line]
  opens : opensBlock line = false

theorem statements_append_lines {L : List (List Char)} (hL : ∀ l ∈ L, StatementLine l)
    {before : List (List Char)} (hbefore : leavesOpen (before.flatMap meaningfulLines) = false)
    (after : List (List Char)) :
    statements (joinLines (before ++ L ++ after)) =
      statements (joinLines before) ++ L ++ statements (joinLines after) := by
  have hcounts : L.flatMap meaningfulLines = L := by
    rw [List.flatMap_congr fun l hl => (hL l hl).counts, List.flatMap_singleton']
  have hgroup : ∀ ys, (group [] (L ++ ys)).map joinLines = L ++ (group [] ys).map joinLines := by
    intro ys
    clear hcounts
    induction L with
    | nil => rfl
    | cons l L ih =>
        have hrest := ih fun k hk => hL k (List.mem_cons_of_mem l hk)
        rw [List.cons_append, group_single (hL l List.mem_cons_self).opens, List.map_cons, hrest]
        simp [joinLines]
  rw [statements_joinLines, List.flatMap_append, List.flatMap_append, hcounts, List.append_assoc,
    group_append hbefore, List.map_append, hgroup, ← statements_joinLines, ← statements_joinLines,
    List.append_assoc]

section Forms

variable {id : String} (hid : Bare id)
include hid

theorem trim_bare : trim id.toList = id.toList :=
  trim_eq_self fun c hc => isBlank_eq_false_of_isNameChar (hid.isNameChar c hc)

theorem statementLine_classLine : StatementLine (classLine id) := by
  have htrim : trim (classLine id) = classLine id :=
    trim_append (by decide) (by decide) (trim_bare hid) hid.ne_nil [' ']
  have hbreak : '\n' ∉ classLine id := by
    simp [classLine_eq, hid.notMem (by decide : isNameChar '\n' = false)]
  have hopens : opensBlock (classLine id) = false := by
    obtain ⟨c, hc⟩ := Option.ne_none_iff_exists'.mp (mt List.getLast?_eq_none_iff.mp hid.ne_nil)
    have hlast : (classLine id).getLast? = some c := by
      simp [classLine_eq, List.getLast?_cons, hc]
    have hbrace : c ≠ '\x7b' :=
      ne_of_isNameChar (hid.isNameChar c (List.mem_of_getLast? hc)) (by decide)
    simp [opensBlock, hlast, hbrace]
  exact ⟨meaningfulLines_of_trim hbreak htrim (List.cons_ne_nil _ _) rfl, hopens⟩

theorem statementLine_memberLine (hword : id ≠ "class") {item : List Char} (hitem : ItemLine item) :
    StatementLine (memberLine id item) := by
  have htrim : trim (memberLine id item) = memberLine id item :=
    trim_append (trim_bare hid) hid.ne_nil hitem.trim_eq hitem.ne_nil [' ', ':', ' ']
  have hbreak : '\n' ∉ memberLine id item := by
    simp [memberLine, hid.notMem (by decide : isNameChar '\n' = false),
      hitem.line_break]
  have hcomment : isComment (memberLine id item) = false := by
    obtain ⟨c, s, hs⟩ := List.exists_cons_of_ne_nil hid.ne_nil
    have hc : c ≠ '%' := ne_of_isNameChar (hid.isNameChar c (by simp [hs])) (by decide)
    simp [isComment, memberLine, hs, commentMark, strip?, Ne.symm hc]
  have hopens : opensBlock (memberLine id item) = false := by
    have hfirst : firstWord (memberLine id item) = id.toList :=
      hid.firstWord_append (by decide) _
    have hne : id.toList ≠ "class".toList := fun h => hword (String.toList_injective h)
    rw [opensBlock, hfirst, beq_eq_false_iff_ne.mpr hne, Bool.and_false]
  exact ⟨meaningfulLines_of_trim hbreak htrim (by simp [memberLine]) hcomment, hopens⟩

/-! ### Reading the two forms -/

theorem recognize?_classLine :
    Rule.recognize? rules (classLine id) = some ("class", .declaration ⟨id, none, none, []⟩) := by
  have hparameters : Matcher.optional parameters [] = (none, []) := rfl
  have hlabel : Matcher.optional (between "[" "]") [] = (none, []) := rfl
  have hstereotype : Matcher.optional gapStereotype [] = (none, []) := rfl
  have hbody : Matcher.optional body [] = (none, []) := rfl
  have hread := @declaration_eq (.bare id) hid [] rfl
  simp only [hparameters, hlabel, hstereotype, hbody, NameForm.text, List.append_nil] at hread
  exact recognize?_of_declaration (setOff_cons _).startsInName_eq hread

theorem recognize?_memberLine (hwords : id ∉ statementWords) {line : List Char} {item : BodyItem}
    (hitem : BodyItem.ofLine? line = some item) :
    Rule.recognize? rules (memberLine id line) = some ("member", .member id item) := by
  have hstop : startsInName (' ' :: ':' :: ' ' :: line) = false := (setOff_cons _).startsInName_eq
  have hname : name (memberLine id line) = some (id, ' ' :: ':' :: ' ' :: line) :=
    hid.name_append hstop
  have hwords : anyWord? statementWords (memberLine id line) = none :=
    hid.anyWord?_append (by decide) hwords hstop
  have hheader : anyWord? Dialect.headerWords (memberLine id line) = none :=
    anyWord?_eq_none_of_subset hwords (List.subset_cons_self _ _)
  have hdeclaration : declaration (memberLine id line) = none := by
    simp [declaration, word?_eq_none_of_mem hwords List.mem_cons_self]
  have hstereotyped : stereotyped (memberLine id line) = none :=
    stereotyped_eq_none (opensName_of_startsInName (hid.startsInName_append _))
  have hrelation : relation (memberLine id line) = none := by
    have hcardinality : Matcher.optional cardinality (' ' :: ':' :: ' ' :: line) =
        (none, ' ' :: ':' :: ' ' :: line) := optional_of_eq_none (quoted_eq_none (by decide) _)
    have hgap : skipGap (' ' :: ':' :: ' ' :: line) = ':' :: ' ' :: line := rfl
    have hoperator : Matcher.operator operators true (':' :: ' ' :: line) = none := by
      have hmarks : ∀ row ∈ operators, row.1.toList ≠ [] ∧ ':' ∉ row.1.toList := by decide
      rw [Matcher.operator, List.findSome?_eq_none_iff]
      intro row hrow
      have hstrip := strip?_cons_of_notMem (hmarks row hrow).2 (hmarks row hrow).1 (' ' :: line)
      simp [spelled?, hstrip]
    simp [relation, hname, hcardinality, hgap, hoperator]
  have hmember : member (memberLine id line) = some ((id, item), []) := by
    have hcolon : afterColon? (' ' :: ':' :: ' ' :: line) = some (' ' :: line) := rfl
    have hsame : BodyItem.ofLine? (' ' :: line) = some item := by
      rw [BodyItem.ofLine?, trim_cons (by decide), ← BodyItem.ofLine?, hitem]
    simp [member, hname, hcolon, hsame]
  simp only [Rule.recognize?, rules, List.findSome?_cons, Rule.ofWords, Rule.ofMatcher, hheader,
    hdeclaration, hstereotyped, hrelation, hmember, Option.map_none, Option.map_some]

/-! ### Fragments of the two forms -/

variable {items : List (List Char)} (hitems : ∀ l ∈ items, ItemLine l)

theorem fits_blockForm (hitems : ∀ l ∈ items, ItemLine l) : (blockForm id items).Fits where
  name := hid
  opening := by
    have htext : openingLine (.bare id) =
        "class".toList ++ ((' ' :: id.toList ++ [' ']) ++ ['\x7b']) := by
      simp [openingLine, NameForm.text]
    refine ⟨?_, ?_⟩
    · have hbreak := hid.notMem (by decide : isNameChar '\n' = false)
      simp [blockForm, openingLine, NameForm.text, hbreak]
    · have htrim := trim_append (s := "class".toList) (by decide) (by decide)
        (t := ['\x7b']) (by decide) (by decide) (' ' :: id.toList ++ [' '])
      rw [← htext] at htrim
      exact htrim
  body := by
    intro l hl
    refine ⟨(hitems l hl).line_break, ?_⟩
    rw [(hitems l hl).trim_eq]
    by_contra hclose
    obtain ⟨s, rfl⟩ := exists_cons_of_closesBlock (eq_true_of_ne_false hclose)
    exact (hitems _ hl).brace List.mem_cons_self
  closing := (by decide : '\n' ∉ ['\x7d'] ∧ closesBlock (trim ['\x7d']) = true)

theorem fragments_blockForm (hitems : ∀ l ∈ items, ItemLine l) {before : List (List Char)}
    (hbefore : leavesOpen (before.flatMap meaningfulLines) = false) (after : List (List Char)) :
    fragments (joinLines (before ++ (blockForm id items).lines ++ after)) =
      declaredOnce (fragments (joinLines before)) id (items.filterMap BodyItem.ofLine?) []
        (fragments (joinLines after)) := by
  have hfits := fits_blockForm hid hitems
  have hlines : (blockForm id items).bodyLines = items := by
    have hcounts : ∀ l ∈ items, meaningfulLines l = [l] := by
      intro l hl
      have h := hitems l hl
      exact meaningfulLines_of_trim h.line_break h.trim_eq h.ne_nil h.comment
    rw [WrittenBlock.bodyLines, blockForm, List.flatMap_congr hcounts, List.flatMap_singleton']
  have hbody : bodyItems (beforeBrace (joinLines items)) = items.filterMap BodyItem.ofLine? :=
    (bodyItems_beforeBrace_iff fun l hl => (hitems l hl).line_break).mpr
      fun l hl => (hitems l hl).brace
  have hdeclaration : (blockForm id items).declaration =
      ⟨id, none, none, items.filterMap BodyItem.ofLine?⟩ := by
    rw [WrittenBlock.declaration, hlines, hbody]
    rfl
  have hmeaning : Rule.meaning? rules (blockForm id items).statement =
      some (.declaration ⟨id, none, none, items.filterMap BodyItem.ofLine?⟩) := by
    rw [Rule.meaning?, WrittenBlock.recognize?_statement hfits, hdeclaration]
    rfl
  rw [fragments, WrittenBlock.statements_lines hfits hbefore, List.filterMap_append,
    List.filterMap_cons_some hmeaning]
  rfl

theorem fragments_separateForm (hwords : id ∉ statementWords) (hitems : ∀ l ∈ items, ItemLine l)
    {before : List (List Char)} (hbefore : leavesOpen (before.flatMap meaningfulLines) = false)
    (after : List (List Char)) :
    fragments (joinLines (before ++ separateForm id items ++ after)) =
      declaredOnce (fragments (joinLines before)) id [] (items.filterMap BodyItem.ofLine?)
        (fragments (joinLines after)) := by
  have hword : id ≠ "class" := by
    rintro rfl
    exact hwords List.mem_cons_self
  have hlines : ∀ l ∈ separateForm id items, StatementLine l := by
    rw [separateForm, List.forall_mem_cons]
    refine ⟨statementLine_classLine hid, ?_⟩
    intro l hl
    obtain ⟨item, hitem, rfl⟩ := List.mem_map.mp hl
    exact statementLine_memberLine hid hword (hitems item hitem)
  have hclass : Rule.meaning? rules (classLine id) = some (.declaration ⟨id, none, none, []⟩) :=
    congrArg (Option.map Prod.snd) (recognize?_classLine hid)
  have hmembers : (items.map (memberLine id)).filterMap (Rule.meaning? rules) =
      (items.filterMap BodyItem.ofLine?).map (.member id) := by
    rw [List.filterMap_map, List.map_filterMap]
    apply List.filterMap_congr
    intro line hline
    obtain ⟨item, hitem⟩ := Option.isSome_iff_exists.mp (hitems line hline).item
    rw [Function.comp_apply, hitem, Rule.meaning?, recognize?_memberLine hid hwords hitem]
    rfl
  rw [fragments, statements_append_lines hlines hbefore, List.filterMap_append,
    List.filterMap_append, separateForm, List.filterMap_cons_some hclass, hmembers, declaredOnce,
    List.append_assoc, List.cons_append]
  rfl

end Forms

/-! ### Markers in the two forms -/

theorem occurs_memberLine {d : Dialect} {m : String} (hm : m ∈ d.markers) (id : String)
    (item : List Char) :
    occurs m.toList (memberLine id item) = (occurs m.toList id.toList || occurs m.toList item) := by
  have hsplit : memberLine id item = (id.toList ++ [' ']) ++ ':' :: ([' '] ++ item) := by
    simp [memberLine]
  have hcolon := occurs_append_cons (Dialect.notMem_marker hm ':' (by decide))
    (Dialect.marker_ne_nil hm) (id.toList ++ [' ']) ([' '] ++ item)
  rw [hsplit, hcolon, Dialect.occurs_append_outside hm (by decide),
    Dialect.occurs_outside_append hm (by decide)]

/-- The two forms have the same markers. -/
theorem any_occurs_separateForm {d : Dialect} {m : String} (hm : m ∈ d.markers) (id : String)
    (items : List (List Char)) :
    (separateForm id items).any (occurs m.toList) =
      (blockForm id items).lines.any (occurs m.toList) := by
  have hopening : occurs m.toList (openingLine (.bare id)) = occurs m.toList (classLine id) := by
    have htext : openingLine (.bare id) = classLine id ++ [' ', '\x7b'] := by
      simp [openingLine, classLine_eq, NameForm.text]
    rw [htext, Dialect.occurs_append_outside hm (by decide)]
  have hclosing : occurs m.toList ['\x7d'] = false := Dialect.occurs_of_outside hm (by decide)
  have hblock : (blockForm id items).lines.any (occurs m.toList) =
      (occurs m.toList (classLine id) || items.any (occurs m.toList)) := by
    simp [WrittenBlock.lines, blockForm, hopening, hclosing]
  rw [hblock, separateForm, List.any_cons, List.any_map]
  cases hclass : occurs m.toList (classLine id) with
  | true => rfl
  | false =>
      have hid : occurs m.toList id.toList = false := by
        by_contra hname
        obtain ⟨u, v, huv⟩ := occurs_iff.mp (eq_true_of_ne_false hname)
        have hyes : occurs m.toList (classLine id) = true :=
          occurs_iff.mpr ⟨"class".toList ++ ' ' :: u, v, by simp [classLine_eq, huv]⟩
        exact Bool.false_ne_true (hclass.symm.trans hyes)
      have hmembers : (occurs m.toList ∘ memberLine id) = occurs m.toList := by
        funext item
        rw [Function.comp_apply, occurs_memberLine hm, hid, Bool.false_or]
      rw [hmembers]

/-! ### Members with their sigils -/

theorem ofLine?_sigil {m : Member} (hname : Trimmed m.name)
    (htrim : trim (m.visibility.sigil :: m.name.toList) = m.visibility.sigil :: m.name.toList) :
    BodyItem.ofLine? (m.visibility.sigil :: m.name.toList) = some (BodyItem.ofMember m) := by
  have hopening : '<' ≠ m.visibility.sigil := by cases m.visibility <;> decide
  have hstereotype : BodyItem.stereotype? (m.visibility.sigil :: m.name.toList) = none := by
    simp [BodyItem.stereotype?, Matcher.stereotype, between, strip?, hopening]
  have hsplit : BodyItem.splitSigil (m.visibility.sigil :: m.name.toList) =
      (m.visibility, m.name.toList) := by
    simp [BodyItem.splitSigil, hname.trim_eq]
  have hmember : BodyItem.member? (m.visibility.sigil :: m.name.toList) =
      some (BodyItem.ofMember m) := by
    simp [BodyItem.member?, hsplit, hname.ne_nil]
  rw [BodyItem.ofLine?, htrim, hstereotype, hmember]

theorem filterMap_field?_ofMember (ms : List Member) :
    (ms.map BodyItem.ofMember).filterMap BodyItem.field? =
      ms.filter fun m => '(' ∉ m.name.toList := by
  rw [List.filterMap_map, ← List.filterMap_eq_filter]
  apply List.filterMap_congr
  intro m _
  by_cases h : '(' ∈ m.name.toList <;>
    simp [BodyItem.ofMember, BodyItem.field?, Option.guard, h]

theorem filterMap_method?_ofMember (ms : List Member) :
    (ms.map BodyItem.ofMember).filterMap BodyItem.method? =
      ms.filter fun m => '(' ∈ m.name.toList := by
  rw [List.filterMap_map, ← List.filterMap_eq_filter]
  apply List.filterMap_congr
  intro m _
  by_cases h : '(' ∈ m.name.toList <;>
    simp [BodyItem.ofMember, BodyItem.method?, Option.guard, h]

theorem filterMap_stereotypeText?_ofMember (ms : List Member) :
    (ms.map BodyItem.ofMember).filterMap BodyItem.stereotypeText? = [] := by
  rw [List.filterMap_eq_nil_iff]
  intro item hitem
  obtain ⟨m, _, rfl⟩ := List.mem_map.mp hitem
  by_cases h : '(' ∈ m.name.toList <;> simp [BodyItem.ofMember, BodyItem.stereotypeText?, h]

/-- A class of which nothing else is said can have its items in its body, or each on a line of its
own behind the declaration. The outcome is the same, and the class has its members in order. -/
theorem member_forms_agree {id : String} (hid : Bare id) (hwords : id ∉ statementWords)
    {items : List (List Char)} (hitems : ∀ l ∈ items, ItemLine l) {before after : List (List Char)}
    (hbefore : leavesOpen (before.flatMap meaningfulLines) = false)
    (hother : ∀ f ∈ fragments (joinLines before) ++ fragments (joinLines after),
      f.describes id = false) {p : Parser}
    (hp : p.dialectOf? (String.ofList (joinLines (before ++ (blockForm id items).lines ++ after))) =
      some .classes) :
    p.tryParse (String.ofList (joinLines (before ++ separateForm id items ++ after))) =
        p.tryParse (String.ofList (joinLines (before ++ (blockForm id items).lines ++ after))) ∧
      ∀ ms : List Member, (∀ m ∈ ms, Trimmed m.name) →
        items = ms.map (fun m => m.visibility.sigil :: m.name.toList) →
        (p.parse (String.ofList (joinLines (before ++ (blockForm id items).lines ++ after)))).node?
            id =
          some { id, label := id, kind := .classifier
                 attributes := ms.filter fun m => '(' ∉ m.name.toList
                 methods := ms.filter fun m => '(' ∈ m.name.toList } := by
  have hblock := fragments_blockForm hid hitems hbefore after
  have hseparate := fragments_separateForm hid hwords hitems hbefore after
  refine ⟨?_, ?_⟩
  · have hdialect : p.dialectOf?
        (String.ofList (joinLines (before ++ separateForm id items ++ after))) = some .classes := by
      rw [← hp]
      refine Parser.dialectOf?_congr fun _ d m hm => ?_
      simp only [String.toList_ofList, joinLines, Dialect.occurs_lines hm, List.any_append,
        any_occurs_separateForm hm]
    have hgraph := graph_eq_of_declaredOnce [] (items.filterMap BodyItem.ofLine?) hother hseparate
      hblock
    rw [Parser.tryParse_eq_graph? hdialect, Parser.tryParse_eq_graph? hp, Dialect.graph?_eq,
      Dialect.graph?_eq, String.toList_ofList, String.toList_ofList, hgraph]
  · intro ms hnames hsigils
    have hread : items.filterMap BodyItem.ofLine? = ms.map BodyItem.ofMember := by
      rw [hsigils, List.filterMap_map, ← List.filterMap_eq_map]
      apply List.filterMap_congr
      intro m hm
      have hline := hitems (m.visibility.sigil :: m.name.toList) (hsigils ▸ List.mem_map_of_mem hm)
      exact ofLine?_sigil (hnames m hm) hline.trim_eq
    have hmem : id ∈ classIds (declaredOnce (fragments (joinLines before)) id
        (items.filterMap BodyItem.ofLine?) [] (fragments (joinLines after))) :=
      mem_classIds_declaredOnce _ _
    rw [← hblock] at hmem
    rw [Parser.parse_eq_graph hp, String.toList_ofList, node?_graph hmem, hblock,
      classOf_declaredOnce_self _ _ hother, List.append_nil, hread,
      filterMap_stereotypeText?_ofMember, classNode, filterMap_field?_ofMember,
      filterMap_method?_ofMember]
    rfl

/-- The class is called like a directive, and another class has members outside of its body. -/
theorem member_forms_agree_note :
    let items := ["+a : Int", "#go(n)", "-<<b"].map String.toList
    let ms : List Member := [⟨"a : Int", .pub⟩, ⟨"go(n)", .prot⟩, ⟨"<<b", .priv⟩]
    let before := ["classDiagram", "note <|-- B"].map String.toList
    let after := ["note for note", "B : +y"].map String.toList
    let block := String.ofList (joinLines (before ++ (blockForm "note" items).lines ++ after))
    let separate := String.ofList (joinLines (before ++ separateForm "note" items ++ after))
    Bare "note" ∧ "note" ∉ statementWords ∧ (∀ l ∈ items, ItemLine l) ∧
      leavesOpen (before.flatMap meaningfulLines) = false ∧
      (∀ f ∈ fragments (joinLines before) ++ fragments (joinLines after),
        f.describes "note" = false) ∧
      Parser.detecting.dialectOf? block = some .classes ∧ (∀ m ∈ ms, Trimmed m.name) ∧
      items = ms.map (fun m => m.visibility.sigil :: m.name.toList) ∧
      Parser.detecting.tryParse separate = Parser.detecting.tryParse block ∧
      (Parser.detecting.parse block).node? "note" = some
        { id := "note", label := "note", kind := .classifier
          attributes := [⟨"a : Int", .pub⟩, ⟨"<<b", .priv⟩], methods := [⟨"go(n)", .prot⟩] } := by
  intro items ms before after block separate
  have hid : Bare "note" := by decide
  have hwords : "note" ∉ statementWords := by decide
  have hitems : ∀ l ∈ items, ItemLine l := by decide +kernel
  have hbefore : leavesOpen (before.flatMap meaningfulLines) = false := by decide +kernel
  have hother : ∀ f ∈ fragments (joinLines before) ++ fragments (joinLines after),
      f.describes "note" = false := by decide +kernel
  have hp : Parser.detecting.dialectOf? block = some .classes := by decide +kernel
  have hnames : ∀ m ∈ ms, Trimmed m.name := by decide
  have hsigils : items = ms.map fun m => m.visibility.sigil :: m.name.toList := by decide
  obtain ⟨hsame, hnode⟩ := member_forms_agree hid hwords hitems hbefore hother hp
  refine ⟨hid, hwords, hitems, hbefore, hother, hp, hnames, hsigils, hsame, ?_⟩
  exact (hnode ms hnames hsigils).trans (by decide)

end TextDiagram.Class
