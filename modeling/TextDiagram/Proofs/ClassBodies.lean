import TextDiagram.Class.Statement
import TextDiagram.Proofs.Blocks
import TextDiagram.Proofs.NameForms

/-!
# Bodies of classes

A block of lines is one statement, and its text is read again for the body of the class. There the
first closing brace ends the body, wherever in a line it stands. So all lines of a body are read in
full exactly if none of them holds a closing brace.
-/

namespace TextDiagram.Class

open Text Matcher

/-! ### Texts of items -/

namespace BodyItem

/-- The name of a member, or the text of a stereotype. -/
def text : BodyItem → String
  | field m => m.name
  | method m => m.name
  | stereotype text => text

@[simp] theorem text_ofMember (m : Member) : (ofMember m).text = m.name := by
  unfold ofMember
  split <;> rfl

theorem eq_append_of_stereotype? {line : List Char} {text : String}
    (h : stereotype? line = some text) :
    ∃ body rest, line = "<<".toList ++ (body ++ ">>".toList ++ rest) ∧ trim rest = [] ∧
      text = restText body := by
  obtain ⟨⟨_, rest⟩, hfilter, rfl⟩ := Option.map_eq_some_iff.mp h
  obtain ⟨hread, hrest⟩ := Option.filter_eq_some_iff.mp hfilter
  obtain ⟨⟨body, _⟩, hbetween, hpair⟩ := Option.map_eq_some_iff.mp hread
  obtain ⟨rfl, rfl⟩ := Prod.mk.inj hpair
  obtain ⟨s, hs, hcut⟩ := Option.bind_eq_some_iff.mp hbetween
  refine ⟨body, _, ?_, by simpa using hrest, rfl⟩
  rw [strip?_eq_some_iff.mp hs, eq_append_of_cut? hcut]

theorem splitSigil_sublist (line : List Char) : (splitSigil line).2.Sublist line := by
  cases line with
  | nil => exact List.Sublist.refl []
  | cons c s =>
      rw [splitSigil]
      cases Visibility.ofSigil? c with
      | some v => exact (trim_sublist s).cons c
      | none => exact List.Sublist.refl _

theorem mem_splitSigil {c : Char} (hblank : isBlank c = false)
    (hsigil : ∀ v : Visibility, c ≠ v.sigil) {line : List Char} (hc : c ∈ line) :
    c ∈ (splitSigil line).2 := by
  cases line with
  | nil => exact hc
  | cons d s =>
      rw [splitSigil]
      cases hd : Visibility.ofSigil? d with
      | none => exact hc
      | some v =>
          have hv : v.sigil = d := by simpa using List.find?_some hd
          have hne : c ≠ d := hv ▸ hsigil v
          exact mem_trim ((List.mem_cons.mp hc).resolve_left hne) hblank

/-- The text of an item is a part of its line. -/
theorem mem_of_ofLine? {line : List Char} {item : BodyItem} (h : ofLine? line = some item)
    {c : Char} (hc : c ∈ item.text.toList) : c ∈ line := by
  apply (trim_sublist line).subset
  rw [ofLine?] at h
  cases hst : stereotype? (trim line) with
  | some text =>
      rw [hst] at h
      obtain rfl := Option.some.inj h
      obtain ⟨body, rest, hline, _, rfl⟩ := eq_append_of_stereotype? hst
      rw [text, restText, String.toList_ofList] at hc
      rw [hline]
      simp [(trim_sublist body).subset hc]
  | none =>
      rw [hst] at h
      simp only [member?, Option.ite_none_left_eq_some, Option.some.injEq] at h
      rw [← h.2, text_ofMember, String.toList_ofList] at hc
      exact (splitSigil_sublist _).subset hc

/-- A character that is neither blank nor part of a mark is kept in the text of the item. -/
theorem exists_ofLine?_of_mem {c : Char} (hblank : isBlank c = false)
    (hsigil : ∀ v : Visibility, c ≠ v.sigil) (hmark : c ∉ ['<', '>']) {line : List Char}
    (hc : c ∈ line) : ∃ item, ofLine? line = some item ∧ c ∈ item.text.toList := by
  have hc : c ∈ trim line := mem_trim hc hblank
  rw [ofLine?]
  cases hst : stereotype? (trim line) with
  | some text =>
      refine ⟨_, rfl, ?_⟩
      obtain ⟨body, rest, hline, hrest, rfl⟩ := eq_append_of_stereotype? hst
      have hnot : c ∉ rest := by
        intro hmem
        rw [trim_eq_nil_iff.mp hrest c hmem] at hblank
        exact Bool.false_ne_true hblank.symm
      have hbody : c ∈ body := by
        simp only [List.mem_cons, List.not_mem_nil, or_false, not_or] at hmark
        rw [hline] at hc
        simpa [hnot, hmark.1, hmark.2] using hc
      simpa [BodyItem.text, restText] using mem_trim hbody hblank
  | none =>
      have hname : c ∈ (splitSigil (trim line)).2 := mem_splitSigil hblank hsigil hc
      have hne : (splitSigil (trim line)).2 ≠ [] := List.ne_nil_of_mem hname
      exact ⟨ofMember ⟨String.ofList (splitSigil (trim line)).2, (splitSigil (trim line)).1⟩,
        by simp [member?, hne], by simpa using hname⟩

end BodyItem

/-! ### Items of several lines -/

theorem bodyItems_append_cons (s t : List Char) :
    bodyItems (s ++ '\n' :: t) = bodyItems s ++ bodyItems t := by
  rw [bodyItems, lines_append_cons, List.filterMap_append]
  rfl

theorem bodyItems_of_notMem {l : List Char} (hl : '\n' ∉ l) :
    bodyItems l = (BodyItem.ofLine? l).toList := by
  rw [bodyItems, lines_of_notMem hl]
  cases h : BodyItem.ofLine? l <;> simp [h]

/-- What stands in front of the first closing brace. -/
def beforeBrace (s : List Char) : List Char :=
  s.takeWhile fun c => c != '\x7d'

theorem beforeBrace_append {s : List Char} (hs : '\x7d' ∉ s) (t : List Char) :
    beforeBrace (s ++ t) = s ++ beforeBrace t := by
  refine List.takeWhile_append_of_pos ?_
  intro c hc
  simpa using fun h : c = '\x7d' => hs (h ▸ hc)

theorem beforeBrace_append_of_mem {s : List Char} (hs : '\x7d' ∈ s) (t : List Char) :
    beforeBrace (s ++ t) = beforeBrace s := by
  obtain ⟨u, v, rfl⟩ := List.append_of_mem hs
  induction u with
  | nil => simp [beforeBrace]
  | cons c u ih =>
      by_cases hc : c = '\x7d'
      · simp [beforeBrace, hc]
      · have hrest := ih (by simp)
        simpa [beforeBrace, hc] using hrest

theorem notMem_beforeBrace (s : List Char) : '\x7d' ∉ beforeBrace s := by
  intro h
  simpa using List.mem_takeWhile_imp h

/-- A line with a closing brace is cut short, and that changes its item. -/
theorem ofLine?_beforeBrace_ne {l : List Char} (hl : '\x7d' ∈ l) :
    ∃ item, BodyItem.ofLine? l = some item ∧ BodyItem.ofLine? (beforeBrace l) ≠ some item := by
  obtain ⟨item, hitem, hmem⟩ :=
    BodyItem.exists_ofLine?_of_mem (by decide) (by intro v; cases v <;> decide) (by decide) hl
  refine ⟨item, hitem, fun hcut => ?_⟩
  exact notMem_beforeBrace l (BodyItem.mem_of_ofLine? hcut hmem)

theorem bodyItems_joinLines_cons {l : List Char} (hline : '\n' ∉ l) (hbrace : '\x7d' ∉ l)
    (L : List (List Char)) :
    bodyItems (beforeBrace (joinLines (l :: L))) =
      (BodyItem.ofLine? l).toList ++ bodyItems (beforeBrace (joinLines L)) := by
  by_cases hL : L = []
  · have hwhole : beforeBrace l = l := by simpa [beforeBrace] using beforeBrace_append hbrace []
    have hempty : bodyItems (beforeBrace (joinLines [])) = [] := rfl
    rw [hL, joinLines, List.intercalate_singleton, hwhole, bodyItems_of_notMem hline, hempty,
      List.append_nil]
  · have hbreak : beforeBrace ('\n' :: joinLines L) = '\n' :: beforeBrace (joinLines L) := rfl
    rw [joinLines, intercalate_cons_of_ne_nil hL, beforeBrace_append hbrace, ← joinLines, hbreak,
      bodyItems_append_cons, bodyItems_of_notMem hline]

theorem beforeBrace_joinLines_cons {l : List Char} (hbrace : '\x7d' ∈ l)
    (L : List (List Char)) : beforeBrace (joinLines (l :: L)) = beforeBrace l := by
  by_cases hL : L = []
  · rw [hL, joinLines, List.intercalate_singleton]
  · rw [joinLines, intercalate_cons_of_ne_nil hL, beforeBrace_append_of_mem hbrace]

/-- The items in front of the first closing brace are those of all lines exactly if there is no
closing brace. -/
theorem bodyItems_beforeBrace_iff {L : List (List Char)} (hL : ∀ l ∈ L, '\n' ∉ l) :
    bodyItems (beforeBrace (joinLines L)) = L.filterMap BodyItem.ofLine? ↔
      ∀ l ∈ L, '\x7d' ∉ l := by
  induction L with
  | nil => simp [show bodyItems (beforeBrace (joinLines [])) = [] from rfl]
  | cons l L ih =>
      have hline : '\n' ∉ l := hL l List.mem_cons_self
      have hrest := ih fun m hm => hL m (List.mem_cons_of_mem l hm)
      have hitems : (l :: L).filterMap BodyItem.ofLine? =
          (BodyItem.ofLine? l).toList ++ L.filterMap BodyItem.ofLine? := by
        cases h : BodyItem.ofLine? l <;> simp [h]
      rw [hitems, List.forall_mem_cons]
      by_cases hbrace : '\x7d' ∈ l
      · obtain ⟨item, hitem, hcut⟩ := ofLine?_beforeBrace_ne hbrace
        have hshort : '\n' ∉ beforeBrace l := fun h =>
          hline ((List.takeWhile_sublist _).subset h)
        rw [beforeBrace_joinLines_cons hbrace, bodyItems_of_notMem hshort, hitem]
        refine iff_of_false (fun hsame => ?_) fun h => h.1 hbrace
        cases hread : BodyItem.ofLine? (beforeBrace l) with
        | none => simp [hread] at hsame
        | some cut =>
            rw [hread] at hsame hcut
            obtain ⟨heq, _⟩ := List.cons.inj hsame
            exact hcut (congrArg some heq)
      · rw [bodyItems_joinLines_cons hline hbrace, List.append_cancel_left_eq, hrest]
        exact (and_iff_right hbrace).symm

theorem exists_cons_of_closesBlock {line : List Char} (h : closesBlock line = true) :
    ∃ s, line = '\x7d' :: s := by
  cases line with
  | nil => exact absurd h Bool.false_ne_true
  | cons c s => exact ⟨s, by simpa [closesBlock] using h⟩

/-- A line that starts with a closing brace adds nothing to the items in front of it. -/
theorem bodyItems_beforeBrace_concat {L : List (List Char)} (hL : ∀ l ∈ L, '\n' ∉ l)
    {closing : List Char} (hclosing : closesBlock closing = true) :
    bodyItems (beforeBrace (joinLines (L ++ [closing]))) =
      bodyItems (beforeBrace (joinLines L)) := by
  induction L with
  | nil =>
      obtain ⟨s, rfl⟩ := exists_cons_of_closesBlock hclosing
      rfl
  | cons l L ih =>
      have hline : '\n' ∉ l := hL l List.mem_cons_self
      rw [List.cons_append]
      by_cases hbrace : '\x7d' ∈ l
      · rw [beforeBrace_joinLines_cons hbrace, beforeBrace_joinLines_cons hbrace]
      · rw [bodyItems_joinLines_cons hline hbrace, bodyItems_joinLines_cons hline hbrace,
          ih fun m hm => hL m (List.mem_cons_of_mem l hm)]

/-! ### Declarations -/

/-- Nothing goes wrong up to the name of a class, whatever follows. -/
theorem declaration_eq {name : NameForm} (hname : name.Fits) {u : List Char}
    (hu : startsInName u = false) :
    declaration ("class".toList ++ ' ' :: (name.text ++ u)) = (do
      let (_, s) := Matcher.optional parameters u
      let (label, s) := Matcher.optional (between "[" "]") s
      let (stereotype, s) := Matcher.optional gapStereotype s
      let (body, s) := Matcher.optional body s
      return (⟨name.id, label.bind unquotedText?, stereotype, bodyItems (body.getD [])⟩, s)) := by
  have hword : word? "class" ("class".toList ++ ' ' :: (name.text ++ u)) =
      some (' ' :: (name.text ++ u)) := word?_append "class" (setOff_cons _).startsInName_eq
  have hgap : gap? (' ' :: (name.text ++ u)) = some (name.text ++ u) := by
    rw [gap?, if_pos (by decide), NameForm.skipGap_text hname]
  simp only [declaration, hword, hgap, NameForm.name_text hname hu, Option.bind_eq_bind,
    Option.bind_some]

theorem recognize?_of_declaration {u rest : List Char} (hu : startsInName u = false)
    {d : Declaration} (h : declaration ("class".toList ++ u) = some (d, rest)) :
    Rule.recognize? rules ("class".toList ++ u) = some ("class", .declaration d) := by
  have hheader : anyWord? Dialect.headerWords ("class".toList ++ u) = none :=
    (by decide : Bare "class").anyWord?_append (by decide) (by decide) hu
  simp only [Rule.recognize?, rules, List.findSome?_cons, Rule.ofWords, Rule.ofMatcher, hheader, h,
    Option.map_none, Option.map_some]

/-! ### Written blocks -/

/-- The line that opens the block of a class. -/
def openingLine (name : NameForm) : List Char :=
  "class".toList ++ ' ' :: (name.text ++ [' ', '\x7b'])

/-- A class that is written over several lines, with the lines as they stand in the text. -/
structure WrittenBlock where
  name : NameForm
  opening : List Char
  body : List (List Char)
  closing : List Char

namespace WrittenBlock

/-- The body goes on to the first line that starts with a closing brace. -/
structure Fits (b : WrittenBlock) : Prop where
  name : b.name.Fits
  opening : '\n' ∉ b.opening ∧ trim b.opening = openingLine b.name
  body : ∀ l ∈ b.body, '\n' ∉ l ∧ closesBlock (trim l) = false
  closing : '\n' ∉ b.closing ∧ closesBlock (trim b.closing) = true

instance (b : WrittenBlock) : Decidable b.Fits :=
  decidable_of_iff (b.name.Fits ∧ ('\n' ∉ b.opening ∧ trim b.opening = openingLine b.name) ∧
      (∀ l ∈ b.body, '\n' ∉ l ∧ closesBlock (trim l) = false) ∧
      '\n' ∉ b.closing ∧ closesBlock (trim b.closing) = true)
    ⟨fun ⟨h₁, h₂, h₃, h₄⟩ => ⟨h₁, h₂, h₃, h₄⟩, fun h => ⟨h.name, h.opening, h.body, h.closing⟩⟩

def lines (b : WrittenBlock) : List (List Char) :=
  b.opening :: (b.body ++ [b.closing])

/-- The lines of the body without the blank ones and the comments. -/
def bodyLines (b : WrittenBlock) : List (List Char) :=
  b.body.flatMap meaningfulLines

/-- The block as one statement. -/
def statement (b : WrittenBlock) : List Char :=
  joinLines (openingLine b.name :: (b.bodyLines ++ [trim b.closing]))

/-- What is read from the block. -/
def declaration (b : WrittenBlock) : Declaration where
  id := b.name.id
  label := none
  stereotype := none
  body := bodyItems (beforeBrace (joinLines b.bodyLines))

end WrittenBlock

theorem openingLine_append (name : NameForm) (t : List Char) :
    openingLine name ++ t = "class".toList ++ ' ' :: (name.text ++ ' ' :: '\x7b' :: t) := by
  simp [openingLine]

theorem opensBlock_openingLine (name : NameForm) : opensBlock (openingLine name) = true := by
  have hlast : (openingLine name).getLast? = some '\x7b' := by
    simp [openingLine, List.getLast?_append, List.getLast?_cons]
  have hfirst : firstWord (openingLine name) = "class".toList := rfl
  rw [opensBlock, hlast, hfirst]
  rfl

/-- What follows the opening line is the body. -/
theorem recognize?_openingLine {name : NameForm} (hname : name.Fits) (t : List Char) :
    Rule.recognize? rules (openingLine name ++ t) =
      some ("class", .declaration ⟨name.id, none, none, bodyItems (beforeBrace t)⟩) := by
  have hgap : skipGap (' ' :: '\x7b' :: t) = '\x7b' :: t := skipGap_cons (by decide) t
  have hparameters : Matcher.optional parameters (' ' :: '\x7b' :: t) =
      (none, ' ' :: '\x7b' :: t) := rfl
  have hlabel : Matcher.optional (between "[" "]") (' ' :: '\x7b' :: t) =
      (none, ' ' :: '\x7b' :: t) := rfl
  have hstereotype : Matcher.optional gapStereotype (' ' :: '\x7b' :: t) =
      (none, ' ' :: '\x7b' :: t) := by
    refine optional_of_eq_none ?_
    rw [gapStereotype, hgap]
    rfl
  obtain ⟨rest, hbody⟩ : ∃ rest,
      Matcher.optional body (' ' :: '\x7b' :: t) = (some (beforeBrace t), rest) := by
    have hopen : strip? ['\x7b'] ('\x7b' :: t) = some t := strip?_append ['\x7b'] t
    refine ⟨(t.dropWhile fun c => c != '\x7d').drop 1, ?_⟩
    simp only [Matcher.optional, body, hgap, hopen, Option.map_some, beforeBrace]
  have hread := declaration_eq hname (setOff_cons ('\x7b' :: t)).startsInName_eq
  simp only [hparameters, hlabel, hstereotype, hbody] at hread
  rw [openingLine_append]
  exact recognize?_of_declaration (setOff_cons _).startsInName_eq hread

theorem statements_joinLines (xs : List (List Char)) :
    statements (joinLines xs) = (group [] (xs.flatMap meaningfulLines)).map joinLines := by
  rw [statements, joinLines, meaningfulLines_intercalate]

namespace WrittenBlock

variable {b : WrittenBlock}

theorem mem_bodyLines (hb : b.Fits) {l : List Char} (hl : l ∈ b.bodyLines) :
    '\n' ∉ l ∧ closesBlock l = false := by
  obtain ⟨k, hk, hlk⟩ := List.mem_flatMap.mp hl
  obtain ⟨hline, hopen⟩ := hb.body k hk
  have hmem := hlk
  rw [meaningfulLines_of_notMem hline] at hmem
  rw [List.mem_singleton.mp (List.mem_of_mem_filter hmem)]
  exact ⟨fun h => hline ((trim_sublist k).subset h), hopen⟩

theorem meaningfulLines_lines (hb : b.Fits) :
    b.lines.flatMap meaningfulLines = openingLine b.name :: (b.bodyLines ++ [trim b.closing]) := by
  have hopening : meaningfulLines b.opening = [openingLine b.name] := by
    have hcomment : isComment (openingLine b.name) = false := rfl
    rw [← hb.opening.2] at hcomment ⊢
    refine meaningfulLines_eq_singleton hb.opening.1 ?_ hcomment
    rw [hb.opening.2, openingLine]
    exact List.append_ne_nil_of_left_ne_nil (by decide) _
  have hclosing : meaningfulLines b.closing = [trim b.closing] := by
    obtain ⟨s, hs⟩ := exists_cons_of_closesBlock hb.closing.2
    refine meaningfulLines_eq_singleton hb.closing.1 ?_ ?_
    · simp [hs]
    · rw [hs]
      rfl
  rw [lines, List.flatMap_cons, List.flatMap_append, List.flatMap_singleton, hopening, hclosing]
  rfl

/-- A block stands among the statements of a text as one of them. -/
theorem statements_lines (hb : b.Fits) {before : List (List Char)}
    (hbefore : leavesOpen (before.flatMap meaningfulLines) = false) (after : List (List Char)) :
    statements (joinLines (before ++ b.lines ++ after)) =
      statements (joinLines before) ++ b.statement :: statements (joinLines after) := by
  have hblock := group_block (opensBlock_openingLine b.name)
    (fun l hl => (mem_bodyLines hb hl).2) hb.closing.2 (after.flatMap meaningfulLines)
  rw [statements_joinLines, List.flatMap_append, List.flatMap_append, List.append_assoc,
    group_append hbefore, meaningfulLines_lines hb, List.cons_append, List.append_assoc,
    List.singleton_append, hblock, List.map_append, List.map_cons, ← statements_joinLines,
    ← statements_joinLines]
  rfl

theorem recognize?_statement (hb : b.Fits) :
    Rule.recognize? rules b.statement = some ("class", .declaration b.declaration) := by
  have hbody : bodyItems (beforeBrace ('\n' :: joinLines (b.bodyLines ++ [trim b.closing]))) =
      b.declaration.body := by
    have hbreak : ∀ s, beforeBrace ('\n' :: s) = [] ++ '\n' :: beforeBrace s := fun _ => rfl
    rw [hbreak, bodyItems_append_cons,
      bodyItems_beforeBrace_concat (fun l hl => (mem_bodyLines hb hl).1) hb.closing.2]
    rfl
  rw [statement, joinLines, intercalate_cons_of_ne_nil (by simp), ← joinLines,
    recognize?_openingLine hb.name, hbody]
  rfl

/-- A block is one statement, and its lines are those of the text. The body of the class is what
stands in front of the first closing brace. It is all lines of the body exactly if none of them
holds a closing brace. -/
theorem body_whole_iff_no_brace (hb : b.Fits) {before : List (List Char)}
    (hbefore : leavesOpen (before.flatMap meaningfulLines) = false) (after : List (List Char)) :
    statements (joinLines (before ++ b.lines ++ after)) =
        statements (joinLines before) ++ b.statement :: statements (joinLines after) ∧
      Rule.recognize? rules b.statement = some ("class", .declaration b.declaration) ∧
      (b.declaration.body = b.bodyLines.filterMap BodyItem.ofLine? ↔
        ∀ l ∈ b.bodyLines, '\x7d' ∉ l) :=
  ⟨statements_lines hb hbefore after, recognize?_statement hb,
    bodyItems_beforeBrace_iff fun _ hl => (mem_bodyLines hb hl).1⟩

theorem body_whole_iff_no_brace_commented :
    let b : WrittenBlock :=
      { name := .quoted '"' "Two Words", opening := "  class \"Two Words\" \x7b ".toList
        body := ["+a", "", " %% no \x7d", "<<s>>\r"].map String.toList
        closing := "\x7d end".toList }
    let before := ["classDiagram", "class A \x7b", "\x7d"].map String.toList
    b.Fits ∧ leavesOpen (before.flatMap meaningfulLines) = false ∧
      statements (joinLines (before ++ b.lines ++ ["A --> B".toList])) =
        ["classDiagram".toList, "class A \x7b\n\x7d".toList, b.statement, "A --> B".toList] ∧
      Rule.recognize? rules b.statement = some ("class", .declaration
        ⟨"Two Words", none, none, [.field ⟨"a", .pub⟩, .stereotype "s"]⟩) := by
  intro b before
  have hb : b.Fits := by decide
  have hbefore : leavesOpen (before.flatMap meaningfulLines) = false := by decide
  obtain ⟨hstatements, hread, hbody⟩ := body_whole_iff_no_brace hb hbefore ["A --> B".toList]
  have hdeclaration : b.declaration =
      ⟨"Two Words", none, none, b.bodyLines.filterMap BodyItem.ofLine?⟩ :=
    congrArg (Declaration.mk "Two Words" none none) (hbody.mpr (by decide))
  refine ⟨hb, hbefore, hstatements.trans (by decide +kernel), hread.trans ?_⟩
  rw [hdeclaration]
  decide +kernel

/-- A brace inside a member ends the body: the member is cut short, and the next one is lost. -/
theorem body_cut_at_brace :
    let b : WrittenBlock :=
      { name := .bare "X", opening := "class X \x7b".toList
        body := ["+a\x7bb\x7d", "+c"].map String.toList, closing := "\x7d".toList }
    b.Fits ∧ statements (joinLines b.lines) = [b.statement] ∧
      b.bodyLines.filterMap BodyItem.ofLine? =
        [.field ⟨"a\x7bb\x7d", .pub⟩, .field ⟨"c", .pub⟩] ∧
      Rule.recognize? rules b.statement =
        some ("class", .declaration ⟨"X", none, none, [.field ⟨"a\x7bb", .pub⟩]⟩) := by
  refine ⟨?_, ?_, ?_, ?_⟩ <;> decide +kernel

end WrittenBlock

end TextDiagram.Class
