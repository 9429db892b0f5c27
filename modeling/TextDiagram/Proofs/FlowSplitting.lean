import TextDiagram.Proofs.FlowNesting
import TextDiagram.Proofs.Lines

/-!
# Several statements on a line

Statements that are joined by semicolons are found again exactly if no statement ends inside one of
them and all but the last one leave nothing open. Chains of which all names and labels are enclosed
are such statements, and then a line of them says the same as one line for each.
-/

namespace TextDiagram.Flow

open Text Matcher Nesting

/-- The text is one statement for every one that was joined. -/
structure Separable (statements : List (List Char)) : Prop where
  separatesIn : ∀ s ∈ statements, outside.separatesIn s = false
  after : ∀ s ∈ statements.dropLast, outside.after s = outside

instance (statements : List (List Char)) : Decidable (Separable statements) :=
  decidable_of_iff ((∀ s ∈ statements, outside.separatesIn s = false) ∧
      ∀ s ∈ statements.dropLast, outside.after s = outside)
    ⟨fun h => ⟨h.1, h.2⟩, fun h => ⟨h.separatesIn, h.after⟩⟩

theorem separable_cons_iff {s : List Char} {L : List (List Char)} (hL : L ≠ []) :
    Separable (s :: L) ↔
      outside.separatesIn s = false ∧ outside.after s = outside ∧ Separable L := by
  obtain ⟨t, L, rfl⟩ := List.exists_cons_of_ne_nil hL
  constructor
  · intro h
    refine ⟨h.separatesIn s List.mem_cons_self, h.after s (by simp), ?_, ?_⟩
    · exact fun u hu => h.separatesIn u (List.mem_cons_of_mem s hu)
    · exact fun u hu => h.after u (by simp [hu])
  · rintro ⟨hs, hafter, hrest⟩
    refine ⟨List.forall_mem_cons.mpr ⟨hs, hrest.separatesIn⟩, ?_⟩
    rw [List.dropLast_cons_cons]
    exact List.forall_mem_cons.mpr ⟨hafter, hrest.after⟩

/-! ### Segments -/

theorem segments_append {n : Nesting} {s : List Char} (hs : n.separatesIn s = false)
    (segment t : List Char) :
    segments n segment (s ++ t) = segments (n.after s) (s.reverse ++ segment) t := by
  induction s generalizing n segment with
  | nil => rfl
  | cons c s ih =>
      obtain ⟨hc, hs⟩ := Bool.or_eq_false_iff.mp hs
      rw [List.cons_append, segments, if_neg (by simp [hc]), ih hs, List.reverse_cons,
        List.append_assoc]
      rfl

theorem segments_eq_singleton {n : Nesting} {s : List Char} (hs : n.separatesIn s = false)
    (segment : List Char) : segments n segment s = [segment.reverse ++ s] := by
  have h := segments_append hs segment []
  rw [List.append_nil] at h
  simp [h, segments]

theorem segments_append_cons {n : Nesting} {s : List Char} (hs : n.separatesIn s = false)
    (hafter : n.after s = outside) (segment t : List Char) :
    segments n segment (s ++ ';' :: t) = (segment.reverse ++ s) :: segments outside [] t := by
  rw [segments_append hs, hafter, segments, if_pos (by decide : outside.separates ';' = true)]
  simp

theorem exists_of_separatesIn {n : Nesting} {s : List Char} (hs : n.separatesIn s = true) :
    ∃ u v, s = u ++ ';' :: v ∧ n.separatesIn u = false ∧ n.after u = outside := by
  induction s generalizing n with
  | nil => exact absurd hs Bool.false_ne_true
  | cons c s ih =>
      cases hc : n.separates c with
      | true =>
          obtain ⟨hsemicolon, hn⟩ := Bool.and_eq_true_iff.mp hc
          obtain rfl := eq_of_beq hsemicolon
          exact ⟨[], s, rfl, rfl, eq_of_beq hn⟩
      | false =>
          rw [separatesIn, hc, Bool.false_or] at hs
          obtain ⟨u, v, rfl, hu, hafter⟩ := ih hs
          exact ⟨c :: u, v, rfl, by rw [separatesIn, hc, hu]; rfl, hafter⟩

theorem segments_ne_nil (n : Nesting) (segment s : List Char) : segments n segment s ≠ [] := by
  induction s generalizing n segment with
  | nil => exact List.cons_ne_nil _ _
  | cons c s ih =>
      rw [segments]
      split
      · exact List.cons_ne_nil _ _
      · exact ih _ _

theorem exists_intercalate_cons_eq (s : List Char) (L : List (List Char)) :
    ∃ u, [';'].intercalate (s :: L) = s ++ u := by
  by_cases hL : L = []
  · exact ⟨[], by simp [hL]⟩
  · exact ⟨';' :: [';'].intercalate L, intercalate_cons_of_ne_nil hL s⟩

theorem intercalate_segments (n : Nesting) (segment s : List Char) :
    [';'].intercalate (segments n segment s) = segment.reverse ++ s := by
  induction s generalizing n segment with
  | nil => simp [segments]
  | cons c s ih =>
      rw [segments]
      split
      · rename_i hc
        obtain rfl : c = ';' := eq_of_beq (Bool.and_eq_true_iff.mp hc).1
        rw [intercalate_cons_of_ne_nil (segments_ne_nil _ _ _), ih]
        rfl
      · rw [ih, List.reverse_cons, List.append_assoc]
        rfl

/-! ### Joined statements -/

theorem segments_intercalate {L : List (List Char)} (hne : L ≠ []) (hL : Separable L) :
    segments outside [] ([';'].intercalate L) = L := by
  induction L with
  | nil => exact absurd rfl hne
  | cons s L ih =>
      by_cases hlast : L = []
      · subst hlast
        simp [segments_eq_singleton (hL.separatesIn s List.mem_cons_self)]
      · obtain ⟨hs, hafter, hrest⟩ := (separable_cons_iff hlast).mp hL
        rw [intercalate_cons_of_ne_nil hlast, segments_append_cons hs hafter, ih hlast hrest]
        rfl

theorem separable_of_segments_intercalate {L : List (List Char)} (hne : L ≠ [])
    (h : segments outside [] ([';'].intercalate L) = L) : Separable L := by
  induction L with
  | nil => exact absurd rfl hne
  | cons s L ih =>
      cases hsep : outside.separatesIn ([';'].intercalate (s :: L)) with
      | false =>
          rw [segments_eq_singleton hsep] at h
          obtain ⟨_, rfl⟩ := List.cons.inj h
          exact ⟨by simpa using hsep, by simp⟩
      | true =>
          obtain ⟨u, v, htext, hu, hafter⟩ := exists_of_separatesIn hsep
          rw [htext, segments_append_cons hu hafter] at h
          obtain ⟨hsame, hrest⟩ := List.cons.inj h
          obtain rfl : u = s := hsame
          have hL : L ≠ [] := hrest ▸ segments_ne_nil _ _ _
          rw [intercalate_cons_of_ne_nil hL, List.append_cancel_left_eq] at htext
          obtain ⟨_, rfl⟩ := List.cons.inj htext
          exact (separable_cons_iff hL).mpr ⟨hu, hafter, ih hL hrest⟩

theorem segments_intercalate_iff {L : List (List Char)} (hne : L ≠ []) :
    segments outside [] ([';'].intercalate L) = L ↔ Separable L :=
  ⟨separable_of_segments_intercalate hne, segments_intercalate hne⟩

/-! ### Statements -/

/-- The characters of the texts and one separator for each of them. -/
def weight : List (List Char) → Nat
  | [] => 0
  | s :: L => s.length + 1 + weight L

theorem length_intercalate {L : List (List Char)} (hne : L ≠ []) :
    ([';'].intercalate L).length + 1 = weight L := by
  induction L with
  | nil => exact absurd rfl hne
  | cons s L ih =>
      by_cases hlast : L = []
      · subst hlast
        simp [weight]
      · rw [intercalate_cons_of_ne_nil hlast, weight, ← ih hlast, List.length_append,
          List.length_cons]
        omega

/-- Texts that lose no character by trimming them were trimmed, and none of them was empty. -/
theorem weight_trim (L : List (List Char)) :
    weight ((L.map trim).filter fun s => !s.isEmpty) ≤ weight L ∧
      (weight ((L.map trim).filter fun s => !s.isEmpty) = weight L →
        (L.map trim).filter (fun s => !s.isEmpty) = L) := by
  induction L with
  | nil => exact ⟨Nat.le_refl _, fun _ => rfl⟩
  | cons s L ih =>
      obtain ⟨hle, heq⟩ := ih
      have hlength := (trim_sublist s).length_le
      cases hs : (trim s).isEmpty with
      | true =>
          simp only [List.map_cons, hs, Bool.not_true, Bool.false_eq_true, not_false_eq_true,
            List.filter_cons_of_neg, weight]
          constructor
          · omega
          · intro h
            omega
      | false =>
          simp only [List.map_cons, hs, Bool.not_false, List.filter_cons_of_pos, weight]
          constructor
          · omega
          · intro h
            have hsame : trim s = s := (trim_sublist s).eq_of_length (by omega)
            rw [hsame, heq (by omega)]

theorem splitStatements_intercalate_iff {L : List (List Char)} (hne : L ≠ [])
    (htrim : ∀ s ∈ L, trim s = s) (hfull : ∀ s ∈ L, s ≠ []) :
    splitStatements ([';'].intercalate L) = L ↔ Separable L := by
  rw [← segments_intercalate_iff hne]
  constructor
  · intro h
    have hsegments := intercalate_segments outside [] ([';'].intercalate L)
    have hweight : weight (segments outside [] ([';'].intercalate L)) = weight L := by
      rw [← length_intercalate (segments_ne_nil _ _ _), hsegments, ← length_intercalate hne]
      rfl
    have hkept := (weight_trim (segments outside [] ([';'].intercalate L))).2
    rw [splitStatements] at h
    rw [h] at hkept
    exact (hkept hweight.symm).symm
  · intro h
    rw [splitStatements, h, List.map_congr_left htrim, List.map_id', List.filter_eq_self]
    intro s hs
    simpa using hfull s hs

/-! ### Lines of statements -/

/-- A chain starts with a name, so it is not empty, and no line that starts with it is a comment. -/
theorem isComment_append_of_chain {s rest : List Char} {c : Chain} (h : chain s = some (c, rest))
    (t : List Char) : s ≠ [] ∧ isComment (s ++ t) = false := by
  have hpercent : ∀ u, chain ('%' :: u) = none := by
    intro u
    have hname : name ('%' :: u) = none := by
      simp [name, orElse, quotedName, quoted, quotedBy, bareName,
        (by decide : isNameChar '%' = false)]
    simp [chain, nodeRef, hname]
  cases s with
  | nil => simp [chain, nodeRef, name, orElse, quotedName, quoted, quotedBy, bareName] at h
  | cons d s =>
      refine ⟨List.cons_ne_nil d s, ?_⟩
      have hd : commentMark.head? ≠ some d := by
        intro hmark
        obtain rfl : '%' = d := Option.some.inj hmark
        rw [hpercent s] at h
        cases h
      rw [isComment, List.cons_append, strip?_cons_of_head?_ne hd (by decide)]
      rfl

theorem trim_intercalate {L : List (List Char)} (htrim : ∀ s ∈ L, trim s = s)
    (hfull : ∀ s ∈ L, s ≠ []) : trim ([';'].intercalate L) = [';'].intercalate L := by
  rw [trim_eq_self_iff]
  constructor
  · cases L with
    | nil => rfl
    | cons s L =>
        obtain ⟨u, hu⟩ := exists_intercalate_cons_eq s L
        have hs := (trim_eq_self_iff.mp (htrim s List.mem_cons_self)).1
        rw [hu]
        exact trimStart_append hs (hfull s List.mem_cons_self) u
  · induction L with
    | nil => rfl
    | cons s L ih =>
        have hs := (trim_eq_self_iff.mp (htrim s List.mem_cons_self)).2
        by_cases hlast : L = []
        · subst hlast
          simpa using hs
        · have hrest := ih (fun t ht => htrim t (List.mem_cons_of_mem s ht))
            fun t ht => hfull t (List.mem_cons_of_mem s ht)
          have hne : [';'].intercalate L ≠ [] := by
            obtain ⟨t, L, rfl⟩ := List.exists_cons_of_ne_nil hlast
            obtain ⟨u, hu⟩ := exists_intercalate_cons_eq t L
            rw [hu]
            exact List.append_ne_nil_of_left_ne_nil (hfull t (by simp)) u
          rw [intercalate_cons_of_ne_nil hlast, List.append_cons]
          exact trimEnd_append hrest hne _

theorem meaningfulLines_eq_self {source : List Char} {L : List (List Char)}
    (hlines : lines source = L) (htrim : ∀ s ∈ L, trim s = s)
    (hmeaning : ∀ s ∈ L, s ≠ [] ∧ isComment s = false) : meaningfulLines source = L := by
  rw [meaningfulLines, hlines, List.map_congr_left htrim, List.map_id', List.filter_eq_self]
  intro s hs
  simpa using hmeaning s hs

section Statements

variable {L : List (List Char)} (hne : L ≠ []) (htrim : ∀ s ∈ L, trim s = s)
  (hline : ∀ s ∈ L, '\n' ∉ s) (hchain : ∀ s ∈ L, ∃ c, chain s = some (c, []))

include hchain in
theorem ne_nil_and_isComment_of_mem {s : List Char} (hs : s ∈ L) (t : List Char) :
    s ≠ [] ∧ isComment (s ++ t) = false := by
  obtain ⟨c, hc⟩ := hchain s hs
  exact isComment_append_of_chain hc t

include hne htrim hline hchain

theorem statements_intercalate (hL : Separable L) : statements ([';'].intercalate L) = L := by
  have hfull : ∀ s ∈ L, s ≠ [] := fun s hs => (ne_nil_and_isComment_of_mem hchain hs []).1
  have hlines : lines ([';'].intercalate L) = [[';'].intercalate L] := by
    have hnewline : ∀ l ∈ [[';'].intercalate L], '\n' ∉ l := by
      rw [List.forall_mem_singleton]
      intro hmem
      rcases eq_or_mem_of_mem_intercalate hmem with heq | ⟨s, hs, hmem⟩
      · exact absurd heq (by decide)
      · exact hline s hs hmem
    simpa [lines] using List.splitOn_intercalate '\n' hnewline (List.cons_ne_nil _ _)
  have hmeaning : meaningfulLines ([';'].intercalate L) = [[';'].intercalate L] := by
    refine meaningfulLines_eq_self hlines ?_ ?_
    · rw [List.forall_mem_singleton]
      exact trim_intercalate htrim hfull
    · rw [List.forall_mem_singleton]
      obtain ⟨s, rest, rfl⟩ := List.exists_cons_of_ne_nil hne
      obtain ⟨u, hu⟩ := exists_intercalate_cons_eq s rest
      obtain ⟨hs, hcomment⟩ := ne_nil_and_isComment_of_mem hchain List.mem_cons_self u
      rw [hu]
      exact ⟨List.append_ne_nil_of_left_ne_nil hs u, hcomment⟩
  rw [statements, hmeaning, List.flatMap_singleton]
  exact (splitStatements_intercalate_iff hne htrim hfull).mpr hL

theorem statements_lines (hL : Separable L) : statements (['\n'].intercalate L) = L := by
  have hmeaning : meaningfulLines (['\n'].intercalate L) = L := by
    refine meaningfulLines_eq_self (List.splitOn_intercalate '\n' hline hne) htrim ?_
    intro s hs
    simpa using ne_nil_and_isComment_of_mem hchain hs []
  have hsplit : ∀ s ∈ L, splitStatements s = [s] := by
    intro s hs
    have hsingle : Separable [s] := ⟨by simpa using hL.separatesIn s hs, by simp⟩
    have hfull := (ne_nil_and_isComment_of_mem hchain hs []).1
    simpa using (splitStatements_intercalate_iff (List.cons_ne_nil s [])
      (by simpa using htrim s hs) (by simpa using hfull)).mpr hsingle
  rw [statements, hmeaning, List.flatMap_def, List.map_congr_left hsplit,
    ← List.flatMap_def, List.flatMap_singleton']

end Statements

/-- Chains that were joined by semicolons are split again into what they were exactly if they are
separable. They are if all their names and labels are enclosed, and then several statements on a
line are the same statements as one on each line. -/
theorem split_joined_chains {L : List (List Char)} (hne : L ≠ []) (htrim : ∀ s ∈ L, trim s = s)
    (hline : ∀ s ∈ L, '\n' ∉ s) (hchain : ∀ s ∈ L, ∃ c, chain s = some (c, [])) :
    (splitStatements ([';'].intercalate L) = L ↔ Separable L) ∧
      ((∀ s ∈ L, ∀ c, chain s = some (c, []) → Enclosed s c) → Separable L) ∧
      (Separable L → statements ([';'].intercalate L) = statements (['\n'].intercalate L)) := by
  have hfull : ∀ s ∈ L, s ≠ [] := fun s hs => (ne_nil_and_isComment_of_mem hchain hs []).1
  refine ⟨splitStatements_intercalate_iff hne htrim hfull, ?_, ?_⟩
  · intro henclosed
    have hkeeps : ∀ s ∈ L, outside.Keeps s := by
      intro s hs
      obtain ⟨c, hc⟩ := hchain s hs
      exact keeps_of_chain hc (henclosed s hs c hc)
    exact ⟨fun s hs => (hkeeps s hs).separatesIn,
      fun s hs => (hkeeps s ((List.dropLast_sublist L).subset hs)).after⟩
  · intro hL
    rw [statements_intercalate hne htrim hline hchain hL,
      statements_lines hne htrim hline hchain hL]

theorem split_joined_chains_enclosed :
    let L := ["A[\"x; (y)\"] --> B", "\"p;q\" -. go .-> C[r;s]:::big", "D>tag] --o E"].map
      String.toList
    L ≠ [] ∧ (∀ s ∈ L, trim s = s) ∧ (∀ s ∈ L, '\n' ∉ s) ∧
      (∀ s ∈ L, ∃ c, chain s = some (c, [])) ∧ splitStatements ([';'].intercalate L) = L := by
  intro L
  have hne : L ≠ [] := by decide
  have htrim : ∀ s ∈ L, trim s = s := by decide
  have hline : ∀ s ∈ L, '\n' ∉ s := by decide
  have hread : ∀ s ∈ L, (chain s).map Prod.snd = some [] := by decide +kernel
  have hchain : ∀ s ∈ L, ∃ c, chain s = some (c, []) := by
    intro s hs
    obtain ⟨⟨c, rest⟩, hc, rfl⟩ := Option.map_eq_some_iff.mp (hread s hs)
    exact ⟨c, hc⟩
  have hL : Separable L := by decide
  exact ⟨hne, htrim, hline, hchain, (split_joined_chains hne htrim hline hchain).1.mpr hL⟩

/-- Single quotes stand around names like double quotes, but semicolons in them separate. -/
theorem split_in_single_quotes :
    let s := "'a;b' --> C".toList
    trim s = s ∧ '\n' ∉ s ∧
      chain s = some (⟨⟨"a;b", none⟩, [⟨⟨.solid, none⟩, ⟨"C", none⟩⟩]⟩, []) ∧
      splitStatements s = ["'a".toList, "b' --> C".toList] := by
  refine ⟨by decide, by decide, by decide +kernel, by decide⟩

end TextDiagram.Flow
