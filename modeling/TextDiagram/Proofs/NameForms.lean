import TextDiagram.Matcher.Spelling
import TextDiagram.Proofs.Names

/-!
# Written names, operators and texts

A name can be written bare or in quotes, and either way it is read back from the front of a text.
Only a bare name can be mistaken for a word. No spelling of an operator holds a space, so an
operator ends at the space behind it at the latest. A text behind a colon is the last part of its
statement.
-/

namespace TextDiagram.Matcher

open Text

/-! ### Quoted texts -/

theorem quotedBy_append {quote : Char} {body : List Char} (hquote : quote ∉ body)
    (hline : '\n' ∉ body) (t : List Char) :
    quotedBy quote (quote :: (body ++ quote :: t)) = some (body, t) := by
  let inside := fun c : Char => c != quote && c != '\n'
  have hinside : ∀ c ∈ body, inside c = true := by
    intro c hc
    have hne : c ≠ quote := fun h => hquote (h ▸ hc)
    have hbreak : c ≠ '\n' := fun h => hline (h ▸ hc)
    simp [inside, hne, hbreak]
  have hend : ¬ inside quote = true := by simp [inside]
  have htake : (body ++ quote :: t).takeWhile inside = body := by
    rw [List.takeWhile_append_of_pos hinside, List.takeWhile_cons_of_neg hend, List.append_nil]
  have hdrop : (body ++ quote :: t).dropWhile inside = quote :: t := by
    rw [List.dropWhile_append_of_pos hinside, List.dropWhile_cons_of_neg hend]
  simp [quotedBy, strip?, inside, htake, hdrop]

theorem quoted_append {quote : Char} (hmark : quote ∈ ['"', '\'']) {body : List Char}
    (hquote : quote ∉ body) (hline : '\n' ∉ body) (t : List Char) :
    quoted (quote :: (body ++ quote :: t)) = some (body, t) := by
  have hbody := quotedBy_append hquote hline t
  simp only [List.mem_cons, List.not_mem_nil, or_false] at hmark
  rcases hmark with rfl | rfl
  · exact orElse_eq_some_iff.mpr (.inl hbody)
  · exact orElse_eq_some_iff.mpr (.inr ⟨quotedBy_eq_none (by decide) _, hbody⟩)

theorem quoted_eq_none {c : Char} (hc : c ∉ ['"', '\'']) (s : List Char) :
    quoted (c :: s) = none := by
  simp only [List.mem_cons, List.not_mem_nil, or_false, not_or] at hc
  simp [quoted, orElse, quotedBy_eq_none hc.1, quotedBy_eq_none hc.2]

/-! ### Names -/

theorem name_eq_none {c : Char} (hc : opensName [c] = false) (s : List Char) :
    name (c :: s) = none := by
  obtain ⟨hname, hquotes⟩ := Bool.or_eq_false_iff.mp hc
  have hquoted := quoted_eq_none (of_decide_eq_false hquotes) s
  simp [name, orElse, quotedName, hquoted, bareName, hname]

inductive NameForm where
  | bare (id : String)
  | quoted (quote : Char) (id : String)

/-- A name that is read back from between two quotes. -/
structure Quotable (quote : Char) (id : String) : Prop where
  mark : quote ∈ ['"', '\'']
  ne_nil : id.toList ≠ []
  trim_eq : trim id.toList = id.toList
  notMem : quote ∉ id.toList
  line : '\n' ∉ id.toList

instance (quote : Char) (id : String) : Decidable (Quotable quote id) :=
  decidable_of_iff (quote ∈ ['"', '\''] ∧ id.toList ≠ [] ∧ trim id.toList = id.toList ∧
      quote ∉ id.toList ∧ '\n' ∉ id.toList)
    ⟨fun h => ⟨h.1, h.2.1, h.2.2.1, h.2.2.2.1, h.2.2.2.2⟩,
      fun h => ⟨h.mark, h.ne_nil, h.trim_eq, h.notMem, h.line⟩⟩

namespace NameForm

def id : NameForm → String
  | bare id => id
  | quoted _ id => id

def text : NameForm → List Char
  | bare id => id.toList
  | quoted quote id => quote :: (id.toList ++ [quote])

def Fits : NameForm → Prop
  | bare id => Bare id
  | quoted quote id => Quotable quote id

instance : (f : NameForm) → Decidable f.Fits
  | bare id => inferInstanceAs (Decidable (Bare id))
  | quoted quote id => inferInstanceAs (Decidable (Quotable quote id))

def isBare : NameForm → Bool
  | bare _ => true
  | quoted .. => false

/-- A name in quotes is never taken for a word. -/
def Avoids (ws : List String) : NameForm → Prop
  | bare id => id ∉ ws
  | quoted .. => True

instance (ws : List String) : (f : NameForm) → Decidable (f.Avoids ws)
  | bare id => inferInstanceAs (Decidable (id ∉ ws))
  | quoted .. => inferInstanceAs (Decidable True)

variable {f : NameForm} {t : List Char}

theorem opensName_text (hf : f.Fits) (t : List Char) : opensName (f.text ++ t) = true := by
  cases f with
  | bare id => exact opensName_of_startsInName (Bare.startsInName_append hf t)
  | quoted quote id =>
      exact Bool.or_eq_true_iff.mpr (.inr (decide_eq_true (Quotable.mark hf)))

theorem skipGap_text (hf : f.Fits) (t : List Char) : skipGap (f.text ++ t) = f.text ++ t :=
  skipGap_of_opensName (opensName_text hf t)

theorem skipGap_space_text (hf : f.Fits) (t : List Char) :
    skipGap (' ' :: (f.text ++ t)) = f.text ++ t := by
  rw [skipGap_space, skipGap_text hf]

theorem name_text (hf : f.Fits) (ht : startsInName t = false) :
    name (f.text ++ t) = some (f.id, t) := by
  cases f with
  | bare id => exact Bare.name_append hf ht
  | quoted quote id =>
      obtain ⟨hmark, hne, htrim, hquote, hline⟩ := hf
      have hquoted := quoted_append hmark hquote hline t
      have hname : quotedName (quote :: (id.toList ++ quote :: t)) = some (id.toList, t) := by
        simp [quotedName, hquoted, htrim, hne]
      have htext : (quoted quote id).text ++ t = quote :: (id.toList ++ quote :: t) := by
        simp [text]
      simp [name, htext, orElse, hname, NameForm.id]

theorem quoted_text_of_isBare (hf : f.Fits) (hbare : f.isBare = true) (t : List Char) :
    Matcher.quoted (f.text ++ t) = none := by
  cases f with
  | quoted quote id => exact absurd hbare Bool.false_ne_true
  | bare id =>
      obtain ⟨c, s, hs⟩ := List.exists_cons_of_ne_nil (Bare.ne_nil hf)
      have hc : isNameChar c = true := Bare.isNameChar hf c (by simp [hs])
      have hquote : c ∉ ['"', '\''] := by
        intro hmem
        have hno := (by decide : ∀ d ∈ ['"', '\''], isNameChar d = false) c hmem
        exact Bool.false_ne_true (hno.symm.trans hc)
      rw [text, hs]
      exact quoted_eq_none hquote (s ++ t)

theorem quoted_text (hf : f.Fits) (hquoted : f.isBare = false) (t : List Char) :
    Matcher.quoted (f.text ++ t) = some (f.id.toList, t) := by
  cases f with
  | bare id => exact absurd hquoted.symm Bool.false_ne_true
  | quoted quote id =>
      have htext : (quoted quote id).text ++ t = quote :: (id.toList ++ quote :: t) := by
        simp [text]
      rw [htext]
      exact quoted_append (Quotable.mark hf) (Quotable.notMem hf) (Quotable.line hf) t

/-- A name that cannot be taken for one of the words is not. -/
theorem anyWord?_text (hf : f.Fits) {ws : List String}
    (hws : ∀ w ∈ ws, String.ofList (w.toList.takeWhile isNameChar) ∈ ws) (hempty : "" ∉ ws)
    (hnew : f.Avoids ws) (ht : startsInName t = false) : anyWord? ws (f.text ++ t) = none := by
  cases f with
  | bare id => exact Bare.anyWord?_append hf hws hnew ht
  | quoted quote id =>
      rw [anyWord?, List.findSome?_eq_none_iff]
      intro w hw
      by_contra hsome
      obtain ⟨rest, hrest⟩ := Option.ne_none_iff_exists'.mp hsome
      have hquote : isNameChar quote = false :=
        (by decide : ∀ c ∈ ['"', '\''], isNameChar c = false) quote (Quotable.mark hf)
      have hnil : w.toList.takeWhile isNameChar = [] := by
        rw [← takeWhile_eq_of_word? hrest]
        exact List.takeWhile_cons_of_neg (by simp [hquote])
      have hmem := hws w hw
      rw [hnil] at hmem
      exact hempty hmem

end NameForm

theorem word?_append (w : String) {t : List Char} (ht : startsInName t = false) :
    word? w (w.toList ++ t) = some t := by
  simp [word?, Option.filter_some, ht]

/-! ### Operators -/

section Operator

variable {β : Type} {table : Spellings β}

theorem spelled?_append_cons {c : Char} (hname : isNameChar c = false) {spelling : String}
    (hc : c ∉ spelling.toList) (wholeNames : Bool) (s t : List Char) :
    spelled? wholeNames spelling (s ++ c :: t) =
      (spelled? wholeNames spelling s).map (· ++ c :: t) := by
  rw [spelled?, strip?_append_cons hc, spelled?]
  cases strip? spelling.toList s with
  | none => rfl
  | some rest =>
      have hstart : startsInName (rest ++ c :: t) = startsInName rest := by
        cases rest with
        | nil => exact hname
        | cons d rest => rfl
      simp only [Option.map_some, Option.filter_some, hstart]
      split <;> rfl

/-- Nothing behind a character that is neither part of a name nor of a spelling counts for which
operator is read. -/
theorem operator_append_cons {c : Char} (hname : isNameChar c = false)
    (htable : ∀ row ∈ table, c ∉ row.1.toList) (wholeNames : Bool) (s t : List Char) :
    operator table wholeNames (s ++ c :: t) =
      (operator table wholeNames s).map fun (value, rest) => (value, rest ++ c :: t) := by
  rw [operator, operator, List.map_findSome?]
  refine findSome?_congr fun row hrow => ?_
  simp only [spelled?_append_cons hname (htable row hrow), Function.comp_apply, Option.map_map]
  rfl

theorem skipGap_spelling (htable : ∀ row ∈ table, row.1.toList.head?.any (!isGap ·))
    {row : String × β} (hrow : row ∈ table) (t : List Char) :
    skipGap (' ' :: (row.1.toList ++ t)) = row.1.toList ++ t := by
  obtain ⟨c, s, hs, hc⟩ := exists_cons_of_head?_any (htable row hrow)
  rw [hs]
  exact skipGap_cons ((Bool.not_eq_true' _).mp hc) (s ++ t)

end Operator

/-! ### Texts behind a colon -/

theorem restText_space {text : String} (h : trim text.toList = text.toList) :
    restText (' ' :: text.toList) = text := by
  rw [restText, trim_cons (by decide), h, String.ofList_toList]

theorem afterColon?_colon (s : List Char) : afterColon? (':' :: s) = some s := rfl

theorem afterColon?_space (s : List Char) : afterColon? (' ' :: s) = afterColon? s := by
  rw [afterColon?, skipGap_space, afterColon?]

theorem colonText_colon {text : String} (h : trim text.toList = text.toList)
    (hne : text.toList ≠ []) : colonText (':' :: ' ' :: text.toList) = some text := by
  have hfull : text ≠ "" := fun hempty => hne (by rw [hempty]; rfl)
  simp [colonText, afterColon?_colon, restText_space h, Option.filter_some, hfull]

end TextDiagram.Matcher
