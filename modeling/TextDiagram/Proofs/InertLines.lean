import Mathlib.Logic.Relation
import TextDiagram.Proofs.Blocks
import TextDiagram.Proofs.Markers
import TextDiagram.Proofs.Outcome

/-!
# Lines that do not matter

Blank lines, comments, blanks around a line and returns in front of line breaks leave the lines that
count as they are, and lines that are read as nothing add nothing to the graph. So none of them
matters for what is read from a text. Where the dialect is detected they must leave the markers alone
as well.
-/

namespace TextDiagram

open Text
open TextDiagram.Class (group joinLines leavesOpen opensBlock group_append)

namespace Text

/-- Trimming does not go past a text that is trimmed. -/
theorem exists_trim_append {u : List Char} (hu : trim u = u) (hne : u ≠ []) (s : List Char) :
    ∃ t, trim (u ++ s) = u ++ t := by
  obtain ⟨hstart, hend⟩ := trim_eq_self_iff.mp hu
  rw [trim, trimStart_append hstart hne, trimEnd, List.reverse_append, List.dropWhile_append]
  split
  · exact ⟨[], by rw [List.append_nil]; exact hend⟩
  · exact ⟨trimEnd s, by rw [List.reverse_append, List.reverse_reverse]; rfl⟩

theorem meaningfulLines_of_blank {l : List Char} (hl : ∀ c ∈ l, isBlank c = true ∧ c ≠ '\n') :
    meaningfulLines l = [] :=
  meaningfulLines_eq_nil (fun h => (hl '\n' h).2 rfl)
    (.inl (trim_eq_nil_iff.mpr fun c hc => (hl c hc).1))

theorem meaningfulLines_of_comment {gap text : List Char} (hgap : ∀ c ∈ gap, isBlank c = true)
    (hline : '\n' ∉ gap ++ commentMark ++ text) :
    meaningfulLines (gap ++ commentMark ++ text) = [] := by
  obtain ⟨t, ht⟩ := exists_trim_append (by decide : trim commentMark = commentMark) (by decide) text
  refine meaningfulLines_eq_nil hline (.inr ?_)
  rw [List.append_assoc, trim_blank_append hgap, ht, isComment, strip?_append]
  rfl

theorem meaningfulLines_of_padded {l left right : List Char} (hl : '\n' ∉ l)
    (hleft : ∀ c ∈ left, isBlank c = true ∧ c ≠ '\n')
    (hright : ∀ c ∈ right, isBlank c = true ∧ c ≠ '\n') :
    meaningfulLines (left ++ l ++ right) = meaningfulLines l := by
  have hline : '\n' ∉ left ++ l ++ right := by
    simp only [List.mem_append, not_or]
    exact ⟨⟨fun h => (hleft _ h).2 rfl, hl⟩, fun h => (hright _ h).2 rfl⟩
  rw [meaningfulLines_of_notMem hline, meaningfulLines_of_notMem hl,
    trim_append_blank fun c hc => (hright c hc).1, trim_blank_append fun c hc => (hleft c hc).1]

/-- The text with a return in front of each line break. -/
def withReturns (s : List Char) : List Char :=
  s.flatMap fun c => if c = '\n' then ['\r', '\n'] else [c]

theorem withReturns_of_notMem {l : List Char} (hl : '\n' ∉ l) : withReturns l = l := by
  have hsame : ∀ c ∈ l, (if c = '\n' then ['\r', '\n'] else [c]) = [c] := by
    intro c hc
    rw [if_neg]
    rintro rfl
    exact hl hc
  rw [withReturns, List.flatMap_congr hsame, List.flatMap_singleton']

/-- What is put together from lines, and does not see a return at the end of a line, does not see
returns in front of line breaks. -/
theorem eq_of_withReturns {β : Type} {f : List Char → β} {op : β → β → β}
    (hbreak : ∀ s t, f (s ++ '\n' :: t) = op (f s) (f t))
    (hreturn : ∀ l, '\n' ∉ l → f (l ++ ['\r']) = f l) (s : List Char) :
    f (withReturns s) = f s := by
  induction h : s.length using Nat.strongRecOn generalizing s with
  | ind n ih =>
      by_cases hs : '\n' ∈ s
      · obtain ⟨l, t, rfl, hl⟩ := List.eq_append_cons_of_mem hs
        have hsplit : withReturns (l ++ '\n' :: t) = (l ++ ['\r']) ++ '\n' :: withReturns t := by
          rw [withReturns, List.flatMap_append, List.flatMap_cons, if_pos rfl, ← withReturns,
            ← withReturns, withReturns_of_notMem hl]
          simp
        have hlength : t.length < n := by
          simp only [← h, List.length_append, List.length_cons]
          omega
        rw [hsplit, hbreak, hbreak, hreturn l hl, ih t.length hlength t rfl]
      · rw [withReturns_of_notMem hs]

theorem meaningfulLines_withReturns (s : List Char) :
    meaningfulLines (withReturns s) = meaningfulLines s := by
  refine eq_of_withReturns meaningfulLines_append_cons (fun l hl => ?_) s
  exact meaningfulLines_of_padded hl (List.forall_mem_nil _) (by decide)

end Text

namespace Dialect

/-! ### Statements of the lines that count -/

/-- The statements of the lines that count. -/
def divide (d : Dialect) (lines : List (List Char)) : List (List Char) :=
  match d with
  | flow => lines.flatMap Flow.splitStatements
  | sequence => lines
  | classes => (group [] lines).map joinLines

theorem statements_eq_divide (d : Dialect) (s : List Char) :
    d.statements s = d.divide (meaningfulLines s) := by
  cases d <;> rfl

/-- Lines are divided apart from those before them, unless these leave a block open. -/
theorem divide_append {d : Dialect} {xs : List (List Char)}
    (hxs : d = .classes → leavesOpen xs = false) (ys : List (List Char)) :
    d.divide (xs ++ ys) = d.divide xs ++ d.divide ys := by
  cases d with
  | flow => exact List.flatMap_append
  | sequence => rfl
  | classes => rw [divide, group_append (hxs rfl), List.map_append]; rfl

/-! ### Statements that say nothing -/

/-- The name of the rule that recognizes a statement. -/
def ruleName? (d : Dialect) (statement : List Char) : Option String :=
  match d with
  | flow => (Rule.recognize? Flow.rules statement).map Prod.fst
  | sequence => (Rule.recognize? Sequence.rules statement).map Prod.fst
  | classes => (Rule.recognize? Class.rules statement).map Prod.fst

/-- No rule recognizes the statement, or it is a header or a directive. -/
def saysNothing (d : Dialect) (statement : List Char) : Bool :=
  (d.ruleName? statement).all fun name => name ∈ ["header", "directive"]

end Dialect

/-- What a rule for headers or directives reads is the same for every statement. -/
theorem Rule.meaning?_of_name {α : Type} {rules : List (Rule α)} {names : List String} {a : α}
    (hrules : ∀ rule ∈ rules, rule.name ∈ names → ∃ words, rule = .ofWords rule.name words a)
    {s : List Char} (hs : ((recognize? rules s).map Prod.fst).all (fun name => name ∈ names))
    {b : α} (hb : meaning? rules s = some b) : b = a := by
  obtain ⟨⟨name, _⟩, hread, rfl⟩ := Option.map_eq_some_iff.mp hb
  have hname : name ∈ names := by simpa [hread] using hs
  obtain ⟨rule, hrule, hfit⟩ := List.exists_of_findSome?_eq_some hread
  obtain ⟨c, hc, hpair⟩ := Option.map_eq_some_iff.mp hfit
  obtain ⟨rfl, rfl⟩ := Prod.mk.inj hpair
  obtain ⟨words, hwords⟩ := hrules rule hrule hname
  rw [hwords] at hc
  obtain ⟨_, _, hsame⟩ := Option.map_eq_some_iff.mp hc
  exact hsame.symm

/-- Where one meaning does not count among others, statements that have no other do not count. -/
theorem Rule.filterMap_meaning?_insert {α β : Type} {rules : List (Rule α)} {a : α}
    {g : List α → β}
    (hg : ∀ L : List α, (∀ b ∈ L, b = a) → ∀ xs ys, g (xs ++ (L ++ ys)) = g (xs ++ ys))
    {L : List (List Char)} (hL : ∀ s ∈ L, ∀ b, meaning? rules s = some b → b = a)
    (xs ys : List (List Char)) :
    g ((xs ++ (L ++ ys)).filterMap (meaning? rules)) =
      g ((xs ++ ys).filterMap (meaning? rules)) := by
  have hsame : ∀ b ∈ L.filterMap (meaning? rules), b = a := by
    intro b hb
    obtain ⟨s, hs, hsb⟩ := List.mem_filterMap.mp hb
    exact hL s hs b hsb
  rw [List.filterMap_append, List.filterMap_append, hg _ hsame, List.filterMap_append]

/-- Elements of which nothing is taken do not count among others. -/
theorem filterMap_insert {α β : Type} {part? : α → Option β} {a : α} (ha : part? a = none)
    {L : List α} (hL : ∀ b ∈ L, b = a) (xs ys : List α) :
    (xs ++ (L ++ ys)).filterMap part? = (xs ++ ys).filterMap part? := by
  have hnone : L.filterMap part? = [] := by
    rw [List.filterMap_eq_nil_iff]
    intro b hb
    rw [hL b hb, ha]
  rw [List.filterMap_append, List.filterMap_append, List.filterMap_append, hnone, List.nil_append]

namespace Flow

theorem meaning?_of_saysNothing {s : List Char} (hs : Dialect.flow.saysNothing s = true)
    (f : Fragment) (hf : Rule.meaning? rules s = some f) : f = .directive := by
  refine Rule.meaning?_of_name ?_ hs hf
  intro rule hrule hname
  simp only [rules, List.mem_cons, List.not_mem_nil, or_false] at hrule
  rcases hrule with rfl | rfl | rfl
  · exact ⟨_, rfl⟩
  · exact ⟨_, rfl⟩
  · exact absurd hname (by decide)

theorem steps_insert (L : List Fragment) (hL : ∀ f ∈ L, f = .directive) (xs ys : List Fragment) :
    steps (xs ++ (L ++ ys)) = steps (xs ++ ys) := by
  rw [steps, steps, filterMap_insert rfl hL]

end Flow

namespace Sequence

theorem meaning?_of_saysNothing {s : List Char} (hs : Dialect.sequence.saysNothing s = true)
    (f : Fragment) (hf : Rule.meaning? rules s = some f) : f = .directive := by
  refine Rule.meaning?_of_name ?_ hs hf
  intro rule hrule hname
  simp only [rules, List.mem_cons, List.not_mem_nil, or_false] at hrule
  rcases hrule with rfl | rfl | rfl | rfl | rfl | rfl
  · exact ⟨_, rfl⟩
  · exact absurd hname (by decide)
  · exact absurd hname (by decide)
  · exact absurd hname (by decide)
  · exact absurd hname (by decide)
  · exact ⟨_, rfl⟩

theorem steps_insert (L : List Fragment) (hL : ∀ f ∈ L, f = .directive) (xs ys : List Fragment) :
    steps (xs ++ (L ++ ys)) = steps (xs ++ ys) := by
  have hdeclarations : declarations (xs ++ (L ++ ys)) = declarations (xs ++ ys) := by
    rw [declarations, declarations, filterMap_insert rfl hL]
  have hmessages : messages (xs ++ (L ++ ys)) = messages (xs ++ ys) := filterMap_insert rfl hL xs ys
  have hnotes : notes (xs ++ (L ++ ys)) = notes (xs ++ ys) := filterMap_insert rfl hL xs ys
  rw [steps, steps, roles, roles, hdeclarations, hmessages, hnotes]

end Sequence

namespace Class

theorem meaning?_of_saysNothing {s : List Char} (hs : Dialect.classes.saysNothing s = true)
    (f : Fragment) (hf : Rule.meaning? rules s = some f) : f = .directive := by
  refine Rule.meaning?_of_name ?_ hs hf
  intro rule hrule hname
  simp only [rules, List.mem_cons, List.not_mem_nil, or_false] at hrule
  rcases hrule with rfl | rfl | rfl | rfl | rfl | rfl
  · exact ⟨_, rfl⟩
  · exact absurd hname (by decide)
  · exact absurd hname (by decide)
  · exact absurd hname (by decide)
  · exact absurd hname (by decide)
  · exact ⟨_, rfl⟩

theorem steps_insert (L : List Fragment) (hL : ∀ f ∈ L, f = .directive) (xs ys : List Fragment) :
    steps (xs ++ (L ++ ys)) = steps (xs ++ ys) := by
  have hdeclarations : declarations (xs ++ (L ++ ys)) = declarations (xs ++ ys) :=
    filterMap_insert rfl hL xs ys
  have hrelations : relations (xs ++ (L ++ ys)) = relations (xs ++ ys) :=
    filterMap_insert rfl hL xs ys
  have hmembers : members (xs ++ (L ++ ys)) = members (xs ++ ys) := filterMap_insert rfl hL xs ys
  rw [steps, steps, stereotypes, stereotypes, hdeclarations, hrelations, hmembers,
    filterMap_insert rfl hL]

end Class

namespace Dialect

/-- Statements that say nothing do not count among others. -/
theorem steps_eq_of_insert {d : Dialect} {s t : List Char} {xs L ys : List (List Char)}
    (hs : d.statements s = xs ++ ys) (ht : d.statements t = xs ++ (L ++ ys))
    (hL : ∀ l ∈ L, d.saysNothing l = true) : d.steps t = d.steps s := by
  cases d with
  | flow =>
      have hnone := fun l hl => Flow.meaning?_of_saysNothing (hL l hl)
      rw [steps, steps, show Flow.statements t = _ from ht, show Flow.statements s = _ from hs]
      exact Rule.filterMap_meaning?_insert Flow.steps_insert hnone xs ys
  | sequence =>
      have hnone := fun l hl => Sequence.meaning?_of_saysNothing (hL l hl)
      rw [steps, steps, show Sequence.statements t = _ from ht,
        show Sequence.statements s = _ from hs]
      exact Rule.filterMap_meaning?_insert Sequence.steps_insert hnone xs ys
  | classes =>
      have hnone := fun l hl => Class.meaning?_of_saysNothing (hL l hl)
      rw [steps, steps, show Class.statements t = _ from ht, show Class.statements s = _ from hs]
      exact Rule.filterMap_meaning?_insert Class.steps_insert hnone xs ys

theorem steps_congr {d : Dialect} {s t : List Char} (h : d.statements s = d.statements t) :
    d.steps s = d.steps t := by
  have ht : d.statements t = [] ++ d.statements t := rfl
  have hs : d.statements s = [] ++ ([] ++ d.statements t) := h
  exact steps_eq_of_insert ht hs (List.forall_mem_nil _)

/-- A line that opens no block stands apart where no block is open. -/
theorem statements_joinLines_cons {d : Dialect} {before : List (List Char)} {line : List Char}
    (hbefore : d = .classes → leavesOpen (before.flatMap meaningfulLines) = false)
    (hline : '\n' ∉ line) (hopens : d = .classes → opensBlock (trim line) = false)
    (after : List (List Char)) :
    d.statements (joinLines (before ++ line :: after)) =
      d.statements (joinLines before) ++ (d.statements line ++ d.statements (joinLines after)) := by
  have hleaves : d = .classes → leavesOpen (meaningfulLines line) = false := by
    intro hd
    rw [meaningfulLines_of_notMem hline]
    cases hcounts : !(trim line).isEmpty && !isComment (trim line) with
    | true => simpa [hcounts, leavesOpen, Class.openBehind] using hopens hd
    | false => simp [hcounts, leavesOpen]
  simp only [statements_eq_divide, joinLines, meaningfulLines_intercalate, List.flatMap_append,
    List.flatMap_cons, divide_append hbefore, divide_append hleaves]

theorem statements_joinLines_append {d : Dialect} {before : List (List Char)}
    (hbefore : d = .classes → leavesOpen (before.flatMap meaningfulLines) = false)
    (after : List (List Char)) :
    d.statements (joinLines (before ++ after)) =
      d.statements (joinLines before) ++ d.statements (joinLines after) := by
  simp only [statements_eq_divide, joinLines, meaningfulLines_intercalate, List.flatMap_append,
    divide_append hbefore]

end Dialect

namespace Parser

/-! ### Edits that do not matter -/

/-- A change of a text that should not matter to the parser. -/
inductive Edit (p : Parser) : List Char → List Char → Prop where
  | blank (before after : List (List Char)) {line : List Char}
      (hline : ∀ c ∈ line, isBlank c = true ∧ c ≠ '\n') :
      Edit p (joinLines (before ++ after)) (joinLines (before ++ line :: after))
  | comment (before after : List (List Char)) {gap text : List Char}
      (hgap : ∀ c ∈ gap, isBlank c = true) (hline : '\n' ∉ gap ++ commentMark ++ text)
      (hmarker : p.dialect? = none → ∀ d : Dialect, ∀ m ∈ d.markers,
        occurs m.toList (gap ++ commentMark ++ text) = false) :
      Edit p (joinLines (before ++ after))
        (joinLines (before ++ (gap ++ commentMark ++ text) :: after))
  /-- The dialect has to be given, because a header is a marker. In a class diagram a line that
  stands in a block is part of it. -/
  | inert {d : Dialect} (hd : p.dialect? = some d) (before after : List (List Char))
      {line : List Char} (hline : '\n' ∉ line)
      (hblock : d = .classes → leavesOpen (before.flatMap meaningfulLines) = false ∧
        opensBlock (trim line) = false)
      (hnothing : ∀ s ∈ d.statements line, d.saysNothing s = true) :
      Edit p (joinLines (before ++ after)) (joinLines (before ++ line :: after))
  | padded (before after : List (List Char)) {line left right : List Char} (hline : '\n' ∉ line)
      (hleft : ∀ c ∈ left, isBlank c = true ∧ c ≠ '\n')
      (hright : ∀ c ∈ right, isBlank c = true ∧ c ≠ '\n') :
      Edit p (joinLines (before ++ line :: after))
        (joinLines (before ++ (left ++ line ++ right) :: after))
  | returns (source : List Char) : Edit p source (withReturns source)

variable {p : Parser} {s t : List Char}

theorem tryParse_congr (hdialect : p.dialectOf? (String.ofList s) = p.dialectOf? (String.ofList t))
    (hsteps : ∀ d, p.dialectOf? (String.ofList s) = some d → d.steps s = d.steps t) :
    p.tryParse (String.ofList s) = p.tryParse (String.ofList t) := by
  cases hd : p.dialectOf? (String.ofList s) with
  | none => rw [tryParse, tryParse, ← hdialect, hd]
  | some d =>
      rw [tryParse_eq_graph? hd, tryParse_eq_graph? (hdialect ▸ hd), String.toList_ofList,
        String.toList_ofList, Dialect.graph?, Dialect.graph?, Dialect.scan, Dialect.scan,
        hsteps d hd]

/-- Texts with the same lines that count and the same markers are the same to a parser. -/
theorem tryParse_congr_lines (hlines : meaningfulLines s = meaningfulLines t)
    (hmarkers : p.dialect? = none → ∀ d, ∀ m ∈ Dialect.markers d,
      occurs m.toList s = occurs m.toList t) :
    p.tryParse (String.ofList s) = p.tryParse (String.ofList t) := by
  refine tryParse_congr (dialectOf?_congr ?_) fun d _ => Dialect.steps_congr ?_
  · simpa only [String.toList_ofList] using hmarkers
  · rw [Dialect.statements_eq_divide, Dialect.statements_eq_divide, hlines]

/-- A line can be replaced by one that counts the same and has the same markers. -/
theorem tryParse_replace {line other : List Char}
    (hlines : meaningfulLines line = meaningfulLines other)
    (hmarkers : p.dialect? = none → ∀ d, ∀ m ∈ Dialect.markers d,
      occurs m.toList line = occurs m.toList other) (before after : List (List Char)) :
    p.tryParse (String.ofList (joinLines (before ++ line :: after))) =
      p.tryParse (String.ofList (joinLines (before ++ other :: after))) := by
  refine tryParse_congr_lines ?_ fun hp d m hm => ?_
  · simp only [joinLines, meaningfulLines_intercalate, List.flatMap_append, List.flatMap_cons,
      hlines]
  · simp only [joinLines, Dialect.occurs_lines hm, List.any_append, List.any_cons,
      hmarkers hp d m hm]

/-- A line can be left out if it does not count and has no marker. -/
theorem tryParse_insert {line : List Char} (hline : meaningfulLines line = [])
    (hmarkers : p.dialect? = none → ∀ d, ∀ m ∈ Dialect.markers d, occurs m.toList line = false)
    (before after : List (List Char)) :
    p.tryParse (String.ofList (joinLines (before ++ line :: after))) =
      p.tryParse (String.ofList (joinLines (before ++ after))) := by
  refine tryParse_congr_lines ?_ fun hp d m hm => ?_
  · simp only [joinLines, meaningfulLines_intercalate, List.flatMap_append, List.flatMap_cons,
      hline, List.nil_append]
  · simp only [joinLines, Dialect.occurs_lines hm, List.any_append, List.any_cons,
      hmarkers hp d m hm, Bool.false_or]

theorem Edit.tryParse_eq (h : p.Edit s t) :
    p.tryParse (String.ofList t) = p.tryParse (String.ofList s) := by
  have houtside : ∀ {v : List Char}, (∀ c ∈ v, isBlank c = true ∧ c ≠ '\n') →
      ∀ c ∈ v, Dialect.isOutside c = true := by
    intro v hv c hc
    exact Bool.or_eq_true_iff.mpr (.inl (hv c hc).1)
  cases h with
  | blank before after hline =>
      refine tryParse_insert (meaningfulLines_of_blank hline) (fun _ d m hm => ?_) before after
      exact Dialect.occurs_of_outside hm (houtside hline)
  | comment before after hgap hline hmarker =>
      exact tryParse_insert (meaningfulLines_of_comment hgap hline) hmarker before after
  | @inert d hd before after line hline hblock hnothing =>
      have hdialect : ∀ source : String, p.dialectOf? source = some d := by
        intro source
        rw [dialectOf?, hd, Option.some_or]
      have hbefore := fun hclasses => (hblock hclasses).1
      have hopens := fun hclasses => (hblock hclasses).2
      have hwithout := Dialect.statements_joinLines_append hbefore after
      have hwith := Dialect.statements_joinLines_cons hbefore hline hopens after
      refine tryParse_congr (by rw [hdialect, hdialect]) fun e he => ?_
      obtain rfl : d = e := Option.some.inj ((hdialect _).symm.trans he)
      exact Dialect.steps_eq_of_insert hwithout hwith hnothing
  | padded before after hline hleft hright =>
      refine tryParse_replace (meaningfulLines_of_padded hline hleft hright) (fun _ d m hm => ?_)
        before after
      rw [Dialect.occurs_append_outside hm (houtside hright),
        Dialect.occurs_outside_append hm (houtside hleft)]
  | returns =>
      refine tryParse_congr_lines (meaningfulLines_withReturns s) fun _ d m hm => ?_
      have hbreak := occurs_append_cons (Dialect.notMem_marker hm '\n' (by decide))
        (Dialect.marker_ne_nil hm)
      have hreturn : ∀ l, occurs m.toList (l ++ ['\r']) = occurs m.toList l :=
        Dialect.occurs_append_outside hm (by decide)
      exact eq_of_withReturns hbreak (fun l _ => hreturn l) s

/-- No number of such edits, made or undone in any order, changes the outcome of parsing a text. -/
theorem tryParse_eq_of_edits (h : Relation.EqvGen p.Edit s t) :
    p.tryParse (String.ofList s) = p.tryParse (String.ofList t) := by
  induction h with
  | rel s t h => exact h.tryParse_eq.symm
  | refl s => rfl
  | symm s t _ ih => exact ih.symm
  | trans s t u _ _ ihst ihtu => exact ihst.trans ihtu

/-- A block is commented, spaced out and followed by a note. -/
theorem tryParse_eq_of_edits_block :
    let p := forced .classes
    let s := ["class A \x7b", "+x", "\x7d", "A --> B"].map String.toList
    let t := ["class A \x7b", " %% sequenceDiagram", "", "\t+x ", "\x7d", "note \"n\"",
      "A --> B"].map String.toList
    Relation.EqvGen p.Edit (joinLines s) (withReturns (joinLines t)) ∧
      p.tryParse (String.ofList (joinLines s)) =
        p.tryParse (String.ofList (withReturns (joinLines t))) := by
  intro p s t
  have hcomment := @Edit.comment p ["class A \x7b".toList] (s.drop 1) [' ']
    " sequenceDiagram".toList (by decide) (by decide) (by simp [p, forced])
  have hblank := @Edit.blank p (t.take 2) (s.drop 1) [] (List.forall_mem_nil _)
  have hpadded := @Edit.padded p (t.take 3) (s.drop 2) "+x".toList ['\t'] [' '] (by decide)
    (by decide) (by decide)
  have hnote := @Edit.inert p .classes rfl (t.take 5) (s.drop 3) "note \"n\"".toList (by decide)
    (fun _ => by decide +kernel) (by decide +kernel)
  have hedits : Relation.EqvGen p.Edit (joinLines s) (withReturns (joinLines t)) :=
    ((((Relation.EqvGen.rel _ _ hcomment).trans _ _ _ (.rel _ _ hblank)).trans _ _ _
      (.rel _ _ hpadded)).trans _ _ _ (.rel _ _ hnote)).trans _ _ _ (.rel _ _ (Edit.returns _))
  exact ⟨hedits, tryParse_eq_of_edits hedits⟩

end Parser

end TextDiagram
