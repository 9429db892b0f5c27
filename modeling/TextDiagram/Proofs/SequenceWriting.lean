import TextDiagram.Proofs.FlowArrows
import TextDiagram.Proofs.NameForms
import TextDiagram.Sequence.Statement

/-!
# Writing a sequence diagram

A statement of a sequence diagram is written from the names of its roles, the spelling of an arrow
and the texts that belong to it. The rules read every such statement back as the declaration, the
message or the note that it was written from. A mark behind an arrow may make up a longer spelling
with it, but then one of the same meaning.
-/

namespace TextDiagram.Sequence

open Text Matcher
open TextDiagram.Flow (Trimmed)

/-- The words that keep a statement from being a message or a note. -/
def statementWords : List String :=
  Dialect.headerWords ++ [RoleKind.participant.keyword, RoleKind.actor.keyword]

/-- How a statement can be written. A note may also end at its colon. -/
inductive WrittenStatement where
  | declaration (role : RoleKind) (name : NameForm) (shown : Option String)
  | message (left : NameForm) (spelling : String) (arrow : MessageArrow) (mark : List Char)
      (right : NameForm) (text : Option String)
  | note (place : String) (role : NameForm) (second : Option NameForm) (text : Option String)

def activationMarks : List (List Char) :=
  [[], ['+'], ['-']]

def notePlaces : List String :=
  ["over", "left of", "right of"]

def aliasText : Option String → List Char
  | none => []
  | some shown => ' ' :: 'a' :: 's' :: ' ' :: shown.toList

def messageText : Option String → List Char
  | none => []
  | some text => ':' :: ' ' :: text.toList

def secondText : Option NameForm → List Char
  | none => []
  | some second => ',' :: second.text

def noteText : Option String → List Char
  | none => [':']
  | some text => ':' :: ' ' :: text.toList

namespace WrittenStatement

def text : WrittenStatement → List Char
  | declaration role name shown => role.keyword.toList ++ ' ' :: (name.text ++ aliasText shown)
  | message left spelling _ mark right text =>
      left.text ++ ' ' :: (spelling.toList ++ mark ++ ' ' :: (right.text ++ messageText text))
  | note place role second text =>
      "Note".toList ++ ' ' :: (place.toList ++ ' ' :: (role.text ++ (secondText second ++
        noteText text)))

def fragment : WrittenStatement → Fragment
  | declaration role name shown => .declaration ⟨role, name.id, shown⟩
  | message left _ arrow _ right text => .message ⟨left.id, arrow, right.id, text⟩
  | note _ role second text => .note ⟨role.id, second.map NameForm.id, text.getD ""⟩

def rule : WrittenStatement → String
  | declaration role .. => role.keyword
  | message .. => "message"
  | note .. => "note"

def Fits : WrittenStatement → Prop
  | declaration _ name shown => name.Fits ∧
      ∀ s ∈ shown, Trimmed s ∧ '"' ∉ s.toList ∧ '\'' ∉ s.toList
  | message left spelling arrow mark right text => left.Fits ∧ left.Avoids statementWords ∧
      (spelling, arrow) ∈ messageArrows ∧ mark ∈ activationMarks ∧ right.Fits ∧
      ∀ s ∈ text, Trimmed s
  | note place role second text => place ∈ notePlaces ∧ role.Fits ∧ (∀ f ∈ second, f.Fits) ∧
      ∀ s ∈ text, trim s.toList = s.toList

end WrittenStatement

/-! ### Declarations -/

theorem skipGap_of_trim {s : List Char} (h : trim s = s) : skipGap s = s := by
  cases s with
  | nil => rfl
  | cons c s =>
      have hblank : isBlank c = false := by
        have hhead := List.dropWhile_eq_self_iff.mp (trim_eq_self_iff.mp h).1 (by simp)
        simpa using hhead
      have hspace : c ≠ ' ' := by
        rintro rfl
        exact absurd hblank (by decide)
      have htab : c ≠ '\t' := by
        rintro rfl
        exact absurd hblank (by decide)
      exact List.dropWhile_cons_of_neg (by simp [isGap, hspace, htab])

theorem aliasClause_aliasText {shown : String} (h : trim shown.toList = shown.toList) :
    aliasClause (aliasText (some shown)) = some (shown.toList, []) := by
  have hword : word? "as" ('a' :: 's' :: ' ' :: shown.toList) = some (' ' :: shown.toList) :=
    word?_append "as" (by decide : isNameChar ' ' = false)
  have hgap : skipGap ('a' :: 's' :: ' ' :: shown.toList) = 'a' :: 's' :: ' ' :: shown.toList :=
    rfl
  simp [aliasClause, aliasText, gap?, isGap, hgap, hword, skipGap_of_trim h]

theorem unquotedText?_of_notMem {shown : String} (h : Trimmed shown) (hdouble : '"' ∉ shown.toList)
    (hsingle : '\'' ∉ shown.toList) : unquotedText? shown.toList = some shown := by
  have hstrip : ∀ quote, quote ∉ shown.toList → strip? [quote] shown.toList = none := by
    intro quote hquote
    obtain ⟨c, s, hs⟩ := List.exists_cons_of_ne_nil h.ne_nil
    rw [hs] at hquote ⊢
    have hne : quote ≠ c := fun heq => hquote (heq ▸ List.mem_cons_self)
    simp [strip?, hne]
  have hunquote : unquote shown.toList = shown.toList := by
    simp [unquote, h.trim_eq, hstrip _ hdouble, hstrip _ hsingle]
  simp [unquotedText?, hunquote, h.ne_nil]

theorem declaration_text {role : RoleKind} {name : NameForm} {shown : Option String}
    (h : (WrittenStatement.declaration role name shown).Fits) :
    declaration role (WrittenStatement.declaration role name shown).text =
      some (⟨role, name.id, shown⟩, []) := by
  obtain ⟨hname, hshown⟩ := h
  have hkeyword := word?_append role.keyword
    (setOff_cons (name.text ++ aliasText shown)).startsInName_eq
  have hgap : gap? (' ' :: (name.text ++ aliasText shown)) = some (name.text ++ aliasText shown) :=
    congrArg some (NameForm.skipGap_text hname _)
  cases shown with
  | none =>
      have hid : Matcher.name (name.text ++ aliasText none) = some (name.id, []) :=
        NameForm.name_text hname rfl
      have hclause : Matcher.optional aliasClause [] = (none, []) := rfl
      simp [declaration, WrittenStatement.text, hkeyword, hgap, hid, hclause]
  | some shown =>
      obtain ⟨htrimmed, hdouble, hsingle⟩ := hshown shown rfl
      have hid : Matcher.name (name.text ++ aliasText (some shown)) =
          some (name.id, aliasText (some shown)) :=
        NameForm.name_text hname (setOff_cons _).startsInName_eq
      have hclause := optional_of_eq_some (aliasClause_aliasText htrimmed.trim_eq)
      have hshown := unquotedText?_of_notMem htrimmed hdouble hsingle
      simp [declaration, WrittenStatement.text, hkeyword, hgap, hid, hclause, hshown]

theorem declaration_eq_none {role : RoleKind} {s : List Char} (h : word? role.keyword s = none) :
    declaration role s = none := by
  simp [declaration, h]

theorem anyWord?_keyword (role : RoleKind) (t : List Char) :
    anyWord? Dialect.headerWords (role.keyword.toList ++ ' ' :: t) = none := by
  have hbare : Bare role.keyword := by cases role <;> decide
  have hnew : role.keyword ∉ Dialect.headerWords := by cases role <;> decide
  exact hbare.anyWord?_append (by decide) hnew (setOff_cons t).startsInName_eq

theorem word?_participant_actor (t : List Char) :
    word? RoleKind.participant.keyword (RoleKind.actor.keyword.toList ++ ' ' :: t) = none := by
  have hbare : Bare RoleKind.actor.keyword := by decide
  have hwords : anyWord? [RoleKind.participant.keyword]
      (RoleKind.actor.keyword.toList ++ ' ' :: t) = none :=
    hbare.anyWord?_append (by decide) (by decide) (setOff_cons t).startsInName_eq
  exact word?_eq_none_of_mem hwords List.mem_cons_self

/-- The rules for messages and notes are reached by every text that starts with none of the words
before them. -/
theorem recognize?_eq_of_anyWord? {s : List Char} (h : anyWord? statementWords s = none) :
    Rule.recognize? rules s =
      ((note s).map fun (n, _) => ("note", .note n)).or
        (((message s).map fun (m, _) => ("message", .message m)).or
          ((anyWord? directiveWords s).map fun _ => ("directive", .directive))) := by
  have hheader : anyWord? Dialect.headerWords s = none :=
    anyWord?_eq_none_of_subset h (List.subset_append_left _ _)
  have hdeclaration : ∀ role, declaration role s = none := by
    intro role
    refine declaration_eq_none (word?_eq_none_of_mem h (List.mem_append_right _ ?_))
    cases role <;> decide
  simp only [Rule.recognize?, rules, declarationRule, List.findSome?_cons, List.findSome?_nil,
    Rule.ofWords, Rule.ofMatcher, hheader, hdeclaration, Option.map_none, Option.map_map]
  cases note s <;> cases message s <;> cases anyWord? directiveWords s <;> rfl

/-! ### Notes -/

theorem notePlace?_append {place : String} (hplace : place ∈ notePlaces) (t : List Char) :
    notePlace? (place.toList ++ ' ' :: t) = some (' ' :: t) := by
  simp only [notePlaces, List.mem_cons, List.not_mem_nil, or_false] at hplace
  rcases hplace with rfl | rfl | rfl
  · rw [notePlace?, word?_append "over" (setOff_cons t).startsInName_eq]
  · simp [notePlace?, notePlace?.beside?, word?, strip?, gap?, isGap, skipGap]
  · simp [notePlace?, notePlace?.beside?, word?, strip?, gap?, isGap, skipGap]

theorem skipGap_place {place : String} (hplace : place ∈ notePlaces) (t : List Char) :
    skipGap (place.toList ++ t) = place.toList ++ t := by
  simp only [notePlaces, List.mem_cons, List.not_mem_nil, or_false] at hplace
  rcases hplace with rfl | rfl | rfl <;> rfl

theorem secondRole_text {second : NameForm} (h : second.Fits) (t : List Char) :
    secondRole (secondText (some second) ++ ':' :: t) = some (second.id, ':' :: t) := by
  have hstart : startsInName (':' :: t) = false := (by decide : isNameChar ':' = false)
  have hname := NameForm.name_text h hstart
  have hgap : skipGap (',' :: (second.text ++ ':' :: t)) = ',' :: (second.text ++ ':' :: t) := rfl
  simp [secondRole, secondText, hgap, strip?, NameForm.skipGap_text h, hname]

theorem anyWord?_noteWords {w : String} (hw : w ∈ noteWords) (t : List Char) :
    anyWord? noteWords (w.toList ++ ' ' :: t) = some (' ' :: t) := by
  have hstart := (setOff_cons t).startsInName_eq
  simp only [noteWords, List.mem_cons, List.not_mem_nil, or_false] at hw
  rcases hw with rfl | rfl | rfl <;> simp [anyWord?, noteWords, word?, strip?, hstart]

theorem exists_noteText_eq {text : Option String} (h : ∀ s ∈ text, trim s.toList = s.toList) :
    ∃ u, noteText text = ':' :: u ∧ restText u = text.getD "" := by
  cases text with
  | none => exact ⟨[], rfl, by decide⟩
  | some text => exact ⟨' ' :: text.toList, rfl, restText_space (h text rfl)⟩

theorem note_text {place : String} {role : NameForm} {second : Option NameForm}
    {text : Option String} (h : (WrittenStatement.note place role second text).Fits) :
    note (WrittenStatement.note place role second text).text =
      some (⟨role.id, second.map NameForm.id, text.getD ""⟩, []) := by
  obtain ⟨hplace, hrole, hsecond, htext⟩ := h
  obtain ⟨u, hcolon, hrest⟩ := exists_noteText_eq htext
  let behind := secondText second ++ ':' :: u
  have hword := fun t => anyWord?_noteWords (w := "Note") List.mem_cons_self t
  have hgap : gap? (' ' :: (place.toList ++ ' ' :: (role.text ++ behind))) =
      some (place.toList ++ ' ' :: (role.text ++ behind)) :=
    congrArg some (skipGap_place hplace _)
  have hrolegap : gap? (' ' :: (role.text ++ behind)) = some (role.text ++ behind) :=
    congrArg some (NameForm.skipGap_text hrole _)
  have hstart : startsInName behind = false := by
    cases second with
    | none => exact (by decide : isNameChar ':' = false)
    | some second => exact (by decide : isNameChar ',' = false)
  have hsecondRole : Matcher.optional secondRole behind = (second.map NameForm.id, ':' :: u) := by
    cases second with
    | none => exact optional_of_eq_none rfl
    | some second => exact optional_of_eq_some (secondRole_text (hsecond second rfl) _)
  have htextOf : (WrittenStatement.note place role second text).text =
      "Note".toList ++ ' ' :: (place.toList ++ ' ' :: (role.text ++ behind)) := by
    rw [WrittenStatement.text, hcolon]
  rw [htextOf]
  simp only [note, hword, hgap, notePlace?_append hplace, hrolegap,
    NameForm.name_text hrole hstart, hsecondRole, afterColon?_colon, hrest,
    Option.bind_eq_bind, Option.bind_some, Option.pure_def]

/-! ### Messages -/

/-- An arrow keeps its meaning whatever mark stands behind it, and leaves at most the mark. -/
theorem operator_messageArrows {spelling : String} {arrow : MessageArrow}
    (harrow : (spelling, arrow) ∈ messageArrows) {mark : List Char} (hmark : mark ∈ activationMarks)
    (t : List Char) : ∃ left ∈ activationMarks,
      operator messageArrows false (spelling.toList ++ mark ++ ' ' :: t) =
        some (arrow, left ++ ' ' :: t) := by
  have hspaces : ∀ row ∈ messageArrows, ' ' ∉ row.1.toList := by decide
  have hrows : ∀ row ∈ messageArrows, ∀ mark ∈ activationMarks, ∃ left ∈ activationMarks,
      operator messageArrows false (row.1.toList ++ mark) = some (row.2, left) := by decide
  obtain ⟨left, hleft, hread⟩ := hrows _ harrow mark hmark
  refine ⟨left, hleft, ?_⟩
  rw [operator_append_cons (by decide) hspaces, hread]
  rfl

theorem skipActivation_append {mark : List Char} (hmark : mark ∈ activationMarks)
    (t : List Char) : skipActivation (mark ++ ' ' :: t) = ' ' :: t := by
  simp only [activationMarks, List.mem_cons, List.not_mem_nil, or_false] at hmark
  rcases hmark with rfl | rfl | rfl <;> rfl

theorem notePlace?_eq_none {c : Char} (hc : c ∉ ['o', 'l', 'r']) (s : List Char) :
    notePlace? (c :: s) = none := by
  simp only [List.mem_cons, List.not_mem_nil, or_false, not_or] at hc
  simp [notePlace?, notePlace?.beside?, word?, strip?, Ne.symm hc.1, Ne.symm hc.2.1,
    Ne.symm hc.2.2]

/-- The words of a note are names of roles as well, but no note goes on with an arrow. -/
theorem note_eq_none {left : NameForm} (hleft : left.Fits) {row : String × MessageArrow}
    (hrow : row ∈ messageArrows) (t : List Char) :
    note (left.text ++ ' ' :: (row.1.toList ++ t)) = none := by
  by_cases hnew : left.Avoids noteWords
  · have hword := NameForm.anyWord?_text hleft (by decide) (by decide) hnew
      (setOff_cons (row.1.toList ++ t)).startsInName_eq
    simp [note, hword]
  · cases left with
    | quoted quote id => exact absurd trivial hnew
    | bare id =>
        have hword := anyWord?_noteWords (not_not.mp hnew) (row.1.toList ++ t)
        have hgap : gap? (' ' :: (row.1.toList ++ t)) = some (row.1.toList ++ t) :=
          congrArg some ((skipGap_space _).symm.trans (skipGap_spelling (by decide) hrow t))
        have hplace : notePlace? (row.1.toList ++ t) = none := by
          have hheads : ∀ row ∈ messageArrows,
              row.1.toList.head?.any (fun c => c ∉ ['o', 'l', 'r']) := by decide
          obtain ⟨c, s, hs, hc⟩ := exists_cons_of_head?_any (hheads row hrow)
          rw [hs]
          exact notePlace?_eq_none (of_decide_eq_true hc) (s ++ t)
        simp [note, NameForm.text, hword, hgap, hplace]

theorem message_text {left right : NameForm} {spelling : String} {arrow : MessageArrow}
    {mark : List Char} {text : Option String}
    (h : (WrittenStatement.message left spelling arrow mark right text).Fits) :
    message (WrittenStatement.message left spelling arrow mark right text).text =
      some (⟨left.id, arrow, right.id, text⟩, []) := by
  obtain ⟨hleft, _, harrow, hmark, hright, htext⟩ := h
  let behind := right.text ++ messageText text
  obtain ⟨rest, hrest, hoperator⟩ := operator_messageArrows harrow hmark behind
  have hname : name (left.text ++ ' ' :: (spelling.toList ++ mark ++ ' ' :: behind)) =
      some (left.id, ' ' :: (spelling.toList ++ mark ++ ' ' :: behind)) :=
    NameForm.name_text hleft (setOff_cons _).startsInName_eq
  have hgap : skipGap (' ' :: (spelling.toList ++ mark ++ ' ' :: behind)) =
      spelling.toList ++ mark ++ ' ' :: behind := by
    rw [List.append_assoc]
    exact skipGap_spelling (by decide) harrow _
  have hstart : startsInName (messageText text) = false := by
    cases text with
    | none => rfl
    | some text => exact (by decide : isNameChar ':' = false)
  have hright : name (skipGap (skipActivation (rest ++ ' ' :: behind))) =
      some (right.id, messageText text) := by
    rw [skipActivation_append hrest, NameForm.skipGap_space_text hright,
      NameForm.name_text hright hstart]
  have hcolon : colonText (messageText text) = text := by
    cases text with
    | none => rfl
    | some text => exact colonText_colon (htext text rfl).trim_eq (htext text rfl).ne_nil
  have htextOf : (WrittenStatement.message left spelling arrow mark right text).text =
      left.text ++ ' ' :: (spelling.toList ++ mark ++ ' ' :: behind) := rfl
  rw [htextOf]
  simp only [message, hname, hgap, hoperator, hright, hcolon, Option.bind_eq_bind,
    Option.bind_some, Option.pure_def]

/-- Every statement is read back as what it was written from. -/
theorem statement_read_as_written {s : WrittenStatement} (hs : s.Fits) :
    Rule.recognize? rules s.text = some (s.rule, s.fragment) := by
  cases s with
  | declaration role name shown =>
      have hheader := anyWord?_keyword role (name.text ++ aliasText shown)
      have hread := declaration_text hs
      rw [WrittenStatement.text] at hread ⊢
      cases role with
      | participant =>
          simp [Rule.recognize?, rules, declarationRule, Rule.ofWords, Rule.ofMatcher, hheader,
            hread, WrittenStatement.rule, WrittenStatement.fragment]
      | actor =>
          have hother := declaration_eq_none
            (word?_participant_actor (name.text ++ aliasText shown))
          simp [Rule.recognize?, rules, declarationRule, Rule.ofWords, Rule.ofMatcher, hheader,
            hother, hread, WrittenStatement.rule, WrittenStatement.fragment]
  | message left spelling arrow mark right text =>
      have ⟨hleft, hnew, harrow, _⟩ := hs
      have hwords : anyWord? statementWords
          (WrittenStatement.message left spelling arrow mark right text).text = none :=
        NameForm.anyWord?_text hleft (by decide) (by decide) hnew (setOff_cons _).startsInName_eq
      have hnote : Sequence.note
          (WrittenStatement.message left spelling arrow mark right text).text = none := by
        rw [WrittenStatement.text, List.append_assoc]
        exact note_eq_none hleft harrow _
      rw [recognize?_eq_of_anyWord? hwords, hnote, message_text hs]
      rfl
  | note place role second text =>
      have hbare : Bare "Note" := by decide
      have hwords : anyWord? statementWords
          (WrittenStatement.note place role second text).text = none :=
        hbare.anyWord?_append (by decide) (by decide) (setOff_cons _).startsInName_eq
      rw [recognize?_eq_of_anyWord? hwords, note_text hs]
      rfl

/-- The mark makes up a longer spelling with the arrow. -/
theorem statement_read_as_written_marked :
    let s : WrittenStatement :=
      .message (.bare "Note") "<-" ⟨.sync, true⟩ ['-'] (.quoted '"' "web server") (some "done")
    String.ofList s.text = "Note <-- \"web server\": done" ∧ s.Fits ∧
      Rule.recognize? rules s.text =
        some ("message", .message ⟨"Note", ⟨.sync, true⟩, "web server", some "done"⟩) := by
  intro s
  have hs : s.Fits := ⟨by decide, by decide, by decide, by decide, by decide, by decide⟩
  exact ⟨by decide, hs, statement_read_as_written hs⟩

end TextDiagram.Sequence
