import TextDiagram.Proofs.ClassAssembly
import TextDiagram.Proofs.ClassBodies
import TextDiagram.Proofs.ClassWriting
import TextDiagram.Proofs.LineEnds

/-!
# Blocks that are left open

A block of a class diagram that is not closed takes in all lines behind it. Its text is then another
statement, but which class it declares, or which edge it gives, is decided on its first line. So a
text that is continued gives every class and every edge that it gave before.
-/

namespace TextDiagram

/-- Statements that each rule reads the same have the same meaning. -/
theorem Rule.map_meaning?_congr {α β : Type} {rules : List (Rule α)} {g : α → β} {s t : List Char}
    (h : ∀ rule ∈ rules, (rule.read? s).map g = (rule.read? t).map g) :
    (meaning? rules s).map g = (meaning? rules t).map g := by
  have hmeaning : ∀ u, (meaning? rules u).map g =
      rules.findSome? fun rule => (rule.read? u).map g := by
    intro u
    simp only [meaning?, recognize?, List.map_findSome?, Function.comp_def, Option.map_map]
  rw [hmeaning, hmeaning]
  exact Text.findSome?_congr h

namespace Class

open Text Matcher

/-- What a fragment adds to the graph. -/
inductive Content where
  | node (id : String)
  | edge (ends : String × String)
  deriving DecidableEq

def Fragment.content? : Fragment → Option Content
  | declaration d => some (.node d.id)
  | member id _ => some (.node id)
  | relation r => some (.edge (r.source, r.target))
  | directive | stereotyped .. => none

def contents (fs : List Fragment) : List Content :=
  fs.filterMap Fragment.content?

/-! ### What is decided on the first line -/

theorem map_id_declaration (s : List Char) :
    (declaration s).map (fun p => p.1.id) =
      (((word? "class" s).bind gap?).bind name).map Prod.fst := by
  rw [declaration]
  cases word? "class" s with
  | none => rfl
  | some s =>
      cases hgap : gap? s with
      | none => simp [hgap]
      | some s => cases hname : name s <;> simp [hgap, hname]

theorem map_id_declaration_append_break (s u : List Char) :
    (declaration (s ++ '\n' :: u)).map (fun p => p.1.id) =
      (declaration s).map fun p => p.1.id := by
  rw [map_id_declaration, map_id_declaration, word?_append_break (by decide)]
  cases word? "class" s with
  | none => rfl
  | some s =>
      rw [Option.map_some, Option.bind_some, Option.bind_some, gap?_append_break]
      cases gap? s with
      | none => rfl
      | some s =>
          rw [Option.map_some, Option.bind_some, Option.bind_some, name_stopsAtBreak]
          cases name s <;> rfl

theorem cardinality_stopsBefore {c : Char} {u : List Char} (h : Parts c u) :
    cardinality.StopsBefore (c :: u) := by
  intro s
  rw [cardinality, skipGap_append_cons h.isGap_eq, quoted_stopsBefore h, cardinality]

/-- A relation up to its label. -/
def relationHead : Matcher (String × Operator × String) := fun s => do
  let (left, s) ← name s
  let (_, s) := Matcher.optional cardinality s
  let (operator, s) ← Matcher.operator operators true (skipGap s)
  let (_, s) := Matcher.optional cardinality s
  let (right, s) ← name (skipGap s)
  return ((left, operator, right), s)

theorem relation_eq (s : List Char) :
    relation s = (relationHead s).map fun (head, rest) =>
      (⟨head.1, head.2.1, head.2.2, colonText rest⟩, []) := by
  rw [relation, relationHead]
  cases name s with
  | none => rfl
  | some read =>
      simp only [Option.bind_eq_bind, Option.bind_some]
      cases Matcher.operator operators true (skipGap (Matcher.optional cardinality read.2).2) with
      | none => rfl
      | some read =>
          simp only [Option.bind_some]
          cases name (skipGap (Matcher.optional cardinality read.2).2) <;> rfl

theorem relationHead_stopsBefore {c : Char} {u : List Char} (h : Parts c u)
    (hc : ∀ row ∈ operators, c ∉ row.1.toList) : relationHead.StopsBefore (c :: u) := by
  intro s
  simp only [relationHead, name_stopsBefore h s]
  cases name s with
  | none => rfl
  | some read =>
      obtain ⟨left, s⟩ := read
      simp only [Option.map_some, Option.bind_eq_bind, Option.bind_some,
        (cardinality_stopsBefore h).optional_eq, skipGap_append_cons h.isGap_eq,
        operator_stopsBefore h hc true _]
      cases Matcher.operator operators true (skipGap (Matcher.optional cardinality s).2) with
      | none => rfl
      | some read =>
          obtain ⟨op, s⟩ := read
          simp only [Option.map_some, Option.bind_some, (cardinality_stopsBefore h).optional_eq,
            skipGap_append_cons h.isGap_eq, name_stopsBefore h _]
          cases name (skipGap (Matcher.optional cardinality s).2) <;> rfl

theorem map_ends_relation_append_break (s u : List Char) :
    (relation (s ++ '\n' :: u)).map (fun p => (p.1.source, p.1.target)) =
      (relation s).map fun p => (p.1.source, p.1.target) := by
  rw [relation_eq, relation_eq, relationHead_stopsBefore (parts_break u) (by decide),
    Option.map_map, Option.map_map, Option.map_map]
  rfl

/-- The line that opens a block starts with the whole word and ends in the brace. -/
theorem exists_openingLine {line : List Char} (htrim : trim line = line)
    (hopen : opensBlock line = true) :
    ∃ s, line = "class".toList ++ s ∧ startsInName s = false ∧ s.getLast? = some '\x7b' := by
  obtain ⟨hlast, hword⟩ := Bool.and_eq_true_iff.mp hopen
  rw [beq_iff_eq] at hlast hword
  rw [firstWord, (trim_eq_self_iff.mp htrim).1] at hword
  let s := line.dropWhile fun c => !isBlank c
  have hline : line = "class".toList ++ s := by
    rw [← hword]
    exact List.takeWhile_append_dropWhile.symm
  have hne : s ≠ [] := by
    intro hnil
    rw [hline, hnil] at hlast
    exact absurd hlast (by decide)
  refine ⟨s, hline, ?_, ?_⟩
  · have hblank := List.head_dropWhile_not (fun c => !isBlank c) hne
    obtain ⟨c, t, hs⟩ := List.exists_cons_of_ne_nil hne
    by_contra hname
    have hc : isNameChar c = true := by simpa [hs, startsInName] using hname
    have hhead : (line.dropWhile fun c => !isBlank c).head hne = c := by
      simp only [show line.dropWhile (fun c => !isBlank c) = c :: t from hs, List.head_cons]
    rw [hhead, isBlank_eq_false_of_isNameChar hc] at hblank
    exact Bool.false_ne_true hblank.symm
  · rwa [hline, List.getLast?_append_of_ne_nil _ hne] at hlast

theorem brace_mem_of_afterColon? {s text : List Char} (hlast : s.getLast? = some '\x7b')
    (h : afterColon? s = some text) : '\x7b' ∈ text := by
  obtain ⟨gap, hgap⟩ : skipGap s <:+ s := List.dropWhile_suffix _
  have hcolon : skipGap s = ':' :: text := strip?_eq_some_iff.mp h
  rw [← hgap, hcolon, List.getLast?_append_of_ne_nil _ (List.cons_ne_nil _ _)] at hlast
  cases text with
  | nil => exact absurd hlast (by decide)
  | cons c text => exact List.mem_of_getLast? (by simpa using hlast)

/-- A text with a brace in it is always read as an item. -/
theorem map_id_member_append_break {s : List Char} (hs : startsInName s = false)
    (hlast : s.getLast? = some '\x7b') (u : List Char) :
    (member ("class".toList ++ (s ++ '\n' :: u))).map (fun p => p.1.1) =
      (member ("class".toList ++ s)).map fun p => p.1.1 := by
  have hclass : Bare "class" := by decide
  have hitem : ∀ text : List Char, '\x7b' ∈ text → ∃ item, BodyItem.ofLine? text = some item := by
    intro text htext
    obtain ⟨item, hread, _⟩ := BodyItem.exists_ofLine?_of_mem (by decide)
      (by intro v; cases v <;> decide) (by decide) htext
    exact ⟨item, hread⟩
  simp only [member, hclass.name_append hs,
    hclass.name_append ((startsInName_append_break s u).trans hs), Option.bind_eq_bind,
    Option.bind_some, afterColon?_append_break]
  cases hcolon : afterColon? s with
  | none => rfl
  | some text =>
      have hbrace := brace_mem_of_afterColon? hlast hcolon
      obtain ⟨item, hread⟩ := hitem text hbrace
      obtain ⟨other, hother⟩ := hitem (text ++ '\n' :: u) (List.mem_append_left _ hbrace)
      simp [hread, hother]

/-- What stands behind the line that opens a block makes no difference for what is added. -/
theorem content?_append_break {line : List Char} (htrim : trim line = line)
    (hopen : opensBlock line = true) (u : List Char) :
    (Rule.meaning? rules (line ++ '\n' :: u)).map Fragment.content? =
      (Rule.meaning? rules line).map Fragment.content? := by
  obtain ⟨s, rfl, hs, hlast⟩ := exists_openingLine htrim hopen
  have hclass : Bare "class" := by decide
  have hstereotyped : ∀ t, stereotyped ("class".toList ++ t) = none := fun t =>
    stereotyped_eq_none (opensName_of_startsInName (hclass.startsInName_append t))
  have hwords : ∀ words : List String, (∀ w ∈ words, '\n' ∉ w.toList) →
      ((Rule.ofWords "" words Fragment.directive).read? ("class".toList ++ s ++ '\n' :: u)).map
          Fragment.content? =
        ((Rule.ofWords "" words Fragment.directive).read? ("class".toList ++ s)).map
          Fragment.content? := by
    intro words hbreaks
    simp only [Rule.ofWords, anyWord?_append_break hbreaks, Option.map_map]
    rfl
  have hdeclaration := congrArg (Option.map fun id => some (Content.node id))
    (map_id_declaration_append_break ("class".toList ++ s) u)
  have hrelation := congrArg (Option.map fun ends => some (Content.edge ends))
    (map_ends_relation_append_break ("class".toList ++ s) u)
  have hmember := congrArg (Option.map fun id => some (Content.node id))
    (map_id_member_append_break hs hlast u)
  rw [← List.append_assoc] at hmember
  simp only [Option.map_map] at hdeclaration hrelation hmember
  refine Rule.map_meaning?_congr fun rule hrule => ?_
  simp only [rules, List.mem_cons, List.not_mem_nil, or_false] at hrule
  rcases hrule with rfl | rfl | rfl | rfl | rfl | rfl
  · exact hwords _ (by decide)
  · simp only [Rule.ofMatcher, Option.map_map]
    exact hdeclaration
  · rw [List.append_assoc]
    simp only [Rule.ofMatcher, hstereotyped, Option.map_none]
  · simp only [Rule.ofMatcher, Option.map_map]
    exact hrelation
  · simp only [Rule.ofMatcher, Option.map_map]
    exact hmember
  · exact hwords _ (by decide)

/-! ### Texts that are continued -/

theorem content?_joinLines_cons {opening : List Char} (htrim : trim opening = opening)
    (hopen : opensBlock opening = true) (lines : List (List Char)) :
    (Rule.meaning? rules (joinLines (opening :: lines))).bind Fragment.content? =
      (Rule.meaning? rules opening).bind Fragment.content? := by
  by_cases hlines : lines = []
  · rw [hlines, joinLines, List.intercalate_singleton]
  · have hsame := congrArg (·.bind id) (content?_append_break htrim hopen (joinLines lines))
    rw [joinLines, intercalate_cons_of_ne_nil hlines, ← joinLines]
    simpa only [Option.bind_map, Function.id_comp] using hsame

theorem contents_fragments (s : List Char) :
    contents (fragments s) = (group [] (meaningfulLines s)).filterMap fun lines =>
      (Rule.meaning? rules (joinLines lines)).bind Fragment.content? := by
  rw [contents, fragments, statements, List.filterMap_filterMap, List.filterMap_map]
  rfl

/-- A text that is continued adds to the graph what it did before, and more. -/
theorem contents_prefix (s t : List Char) :
    contents (fragments s) <+: contents (fragments (s ++ '\n' :: t)) := by
  rw [contents_fragments, contents_fragments, meaningfulLines_append_cons]
  cases hopen : leavesOpen (meaningfulLines s) with
  | false =>
      rw [group_append hopen, List.filterMap_append]
      exact List.prefix_append _ _
  | true =>
      obtain ⟨before, opening, body, hlines, hbefore, hopens, hbody⟩ := exists_opening hopen
      have hopening : opening ∈ meaningfulLines s := by simp [hlines]
      have htrim : trim opening = opening := (mem_meaningfulLines hopening).1
      have hnone := group_append_of_leavesOpen hbefore hopens hbody []
      have hmore := group_append_of_leavesOpen hbefore hopens hbody (meaningfulLines t)
      have hopened : body.reverse ++ [opening] ≠ [] := by simp
      obtain ⟨more, rest, hgroup⟩ := exists_group_eq hopened (meaningfulLines t)
      have hlast : group (body.reverse ++ [opening]) [] = [opening :: body] := by simp [group]
      have hreverse : (body.reverse ++ [opening]).reverse ++ more = opening :: (body ++ more) := by
        simp
      rw [List.append_nil, hlast] at hnone
      rw [hgroup, hreverse] at hmore
      rw [hlines, hnone, List.append_assoc, List.cons_append, hmore, List.filterMap_append,
        List.filterMap_append]
      refine (List.prefix_append_right_inj _).mpr ?_
      rw [List.filterMap_cons, List.filterMap_cons, content?_joinLines_cons htrim hopens,
        content?_joinLines_cons htrim hopens, List.filterMap_nil]
      cases (Rule.meaning? rules opening).bind Fragment.content? with
      | none => exact List.nil_prefix
      | some content => exact List.prefix_append [content] _

end Class

end TextDiagram
