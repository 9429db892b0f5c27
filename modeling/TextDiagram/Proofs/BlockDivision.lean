import TextDiagram.Proofs.Blocks

/-!
# What the statements of a class diagram look like

The lines that count are divided into single lines and blocks, and only one division of them has
the right look. So the statements hold every line once and in order, and whether a statement is a
block is seen from its lines.
-/

namespace TextDiagram.Class

open Text

/-! ### Divisions -/

/-- Only the last block may lack a line that closes it. -/
inductive Divided : List (List (List Char)) → Prop
  | nil : Divided []
  | single {line : List Char} {groups : List (List (List Char))}
      (hline : opensBlock line = false) (hgroups : Divided groups) : Divided ([line] :: groups)
  | block {opening closing : List Char} {body : List (List Char)}
      {groups : List (List (List Char))} (hopen : opensBlock opening = true)
      (hbody : ∀ l ∈ body, closesBlock l = false) (hclose : closesBlock closing = true)
      (hgroups : Divided groups) : Divided ((opening :: (body ++ [closing])) :: groups)
  | unfinished {opening : List Char} {body : List (List Char)} (hopen : opensBlock opening = true)
      (hbody : ∀ l ∈ body, closesBlock l = false) : Divided [opening :: body]

theorem group_unfinished {opening : List Char} {body : List (List Char)}
    (hopen : opensBlock opening = true) (hbody : ∀ l ∈ body, closesBlock l = false) :
    group [] (opening :: body) = [opening :: body] := by
  have hrest := group_append_of_open (List.cons_ne_nil opening []) hbody []
  rw [List.append_nil] at hrest
  simp [group, hopen, hrest]

theorem flatten_group (opened lines : List (List Char)) :
    (group opened lines).flatten = opened.reverse ++ lines := by
  induction lines generalizing opened with
  | nil =>
      rw [group]
      split_ifs with h <;> simp_all
  | cons line lines ih =>
      rw [group]
      split_ifs with hnil hopen hclose
      · rw [ih]
        simp_all
      · rw [List.flatten_cons, ih]
        simp_all
      · rw [List.flatten_cons, ih]
        simp
      · rw [ih]
        simp

theorem divided_group (lines : List (List Char)) : Divided (group [] lines) := by
  induction h : lines.length using Nat.strongRecOn generalizing lines with
  | ind n ih =>
      cases lines with
      | nil => exact .nil
      | cons line lines =>
          rw [List.length_cons] at h
          cases hopen : opensBlock line with
          | false =>
              rw [group_single hopen]
              exact .single hopen (ih lines.length (by omega) lines rfl)
          | true =>
              cases hfind : lines.find? closesBlock with
              | none =>
                  have hbody : ∀ l ∈ lines, closesBlock l = false := by
                    simpa using List.find?_eq_none.mp hfind
                  rw [group_unfinished hopen hbody]
                  exact .unfinished hopen hbody
              | some closing =>
                  obtain ⟨hclose, body, later, rfl, hbody⟩ :=
                    List.find?_eq_some_iff_append.mp hfind
                  have hbody : ∀ l ∈ body, closesBlock l = false := by simpa using hbody
                  rw [List.length_append, List.length_cons] at h
                  rw [group_block hopen hbody hclose]
                  exact .block hopen hbody hclose (ih later.length (by omega) later rfl)

theorem Divided.group_flatten {groups : List (List (List Char))} (h : Divided groups) :
    group [] groups.flatten = groups := by
  induction h with
  | nil => rfl
  | single hline _ ih => rw [List.flatten_cons, List.singleton_append, group_single hline, ih]
  | @block opening closing body groups hopen hbody hclose _ ih =>
      have hflat : ((opening :: (body ++ [closing])) :: groups).flatten =
          opening :: (body ++ closing :: groups.flatten) := by
        simp
      rw [hflat, group_block hopen hbody hclose, ih]
  | unfinished hopen hbody =>
      rw [List.flatten_cons, List.flatten_nil, List.append_nil, group_unfinished hopen hbody]

theorem group_eq_iff {lines : List (List Char)} {groups : List (List (List Char))} :
    group [] lines = groups ↔ Divided groups ∧ groups.flatten = lines := by
  constructor
  · rintro rfl
    exact ⟨divided_group lines, flatten_group [] lines⟩
  · rintro ⟨h, rfl⟩
    exact h.group_flatten

/-! ### What stands in front of a group -/

theorem leavesOpen_append {xs : List (List Char)} (hxs : leavesOpen xs = false)
    (ys : List (List Char)) : leavesOpen (xs ++ ys) = leavesOpen ys := by
  rw [leavesOpen, List.foldl_append, ← leavesOpen, hxs, leavesOpen]

theorem leavesOpen_block {opening closing : List Char} {body : List (List Char)}
    (hopen : opensBlock opening = true) (hbody : ∀ l ∈ body, closesBlock l = false)
    (hclose : closesBlock closing = true) :
    leavesOpen (opening :: (body ++ [closing])) = false := by
  have hinside : leavesOpen (opening :: body) = true := by
    induction body using List.reverseRecOn with
    | nil => exact hopen
    | append_singleton body line ih =>
        obtain ⟨hbody, hline⟩ := List.forall_mem_append.mp hbody
        rw [← List.cons_append, leavesOpen_concat, ih hbody]
        simpa [openBehind] using hline
  rw [← List.cons_append, leavesOpen_concat, hinside]
  simpa [openBehind] using hclose

/-- Every group starts where no block is open. -/
theorem Divided.of_append {before after : List (List (List Char))} {lines : List (List Char)}
    (h : Divided (before ++ lines :: after)) :
    leavesOpen before.flatten = false ∧ Divided (lines :: after) := by
  induction before with
  | nil => exact ⟨rfl, h⟩
  | cons first before ih =>
      rw [List.cons_append] at h
      generalize hrest : before ++ lines :: after = rest at h ih
      cases h with
      | @single line _ hline hgroups =>
          obtain ⟨hbefore, hlines⟩ := ih hgroups
          have hsingle : leavesOpen [line] = false := hline
          rw [List.flatten_cons, leavesOpen_append hsingle]
          exact ⟨hbefore, hlines⟩
      | block hopen hbody hclose hgroups =>
          obtain ⟨hbefore, hlines⟩ := ih hgroups
          rw [List.flatten_cons, leavesOpen_append (leavesOpen_block hopen hbody hclose)]
          exact ⟨hbefore, hlines⟩
      | unfinished => exact absurd hrest (by simp)

/-! ### Joined lines -/

theorem Divided.ne_nil {groups : List (List (List Char))} (h : Divided groups) :
    ∀ g ∈ groups, g ≠ [] := by
  induction h with
  | nil => exact fun g hg => absurd hg List.not_mem_nil
  | single _ _ ih => exact List.forall_mem_cons.mpr ⟨List.cons_ne_nil _ _, ih⟩
  | block _ _ _ _ ih => exact List.forall_mem_cons.mpr ⟨List.cons_ne_nil _ _, ih⟩
  | unfinished => exact List.forall_mem_singleton.mpr (List.cons_ne_nil _ _)

theorem joinLines_singleton (line : List Char) : joinLines [line] = line :=
  List.intercalate_singleton

theorem joinLines_cons {xs : List (List Char)} (hxs : xs ≠ []) (line : List Char) :
    joinLines (line :: xs) = line ++ '\n' :: joinLines xs :=
  intercalate_cons_of_ne_nil hxs line

theorem joinLines_append {xs ys : List (List Char)} (hxs : xs ≠ []) (hys : ys ≠ []) :
    joinLines (xs ++ ys) = joinLines xs ++ '\n' :: joinLines ys := by
  induction xs with
  | nil => exact absurd rfl hxs
  | cons line xs ih =>
      by_cases hlast : xs = []
      · subst hlast
        rw [List.singleton_append, joinLines_cons hys, joinLines_singleton]
      · have hrest : xs ++ ys ≠ [] := List.append_ne_nil_of_left_ne_nil hlast ys
        rw [List.cons_append, joinLines_cons hrest, joinLines_cons hlast, ih hlast,
          List.append_assoc, List.cons_append]

theorem joinLines_map_joinLines {groups : List (List (List Char))} (hne : ∀ g ∈ groups, g ≠ []) :
    joinLines (groups.map joinLines) = joinLines groups.flatten := by
  induction groups with
  | nil => rfl
  | cons g groups ih =>
      obtain ⟨hg, hne⟩ := List.forall_mem_cons.mp hne
      by_cases hlast : groups = []
      · simp [hlast, joinLines]
      · have hrest : groups.flatten ≠ [] := by
          obtain ⟨next, later, rfl⟩ := List.exists_cons_of_ne_nil hlast
          simp [hne next List.mem_cons_self]
        rw [List.map_cons, List.flatten_cons, joinLines_append hg hrest, ← ih hne,
          joinLines_cons (by simpa using hlast)]

theorem flatMap_lines_joinLines {groups : List (List (List Char))} (hne : ∀ g ∈ groups, g ≠ [])
    (hline : ∀ g ∈ groups, ∀ l ∈ g, '\n' ∉ l) :
    (groups.map joinLines).flatMap lines = groups.flatten := by
  have hlines : ∀ g ∈ groups, lines (joinLines g) = g := fun g hg =>
    List.splitOn_intercalate '\n' (hline g hg) (hne g hg)
  rw [List.flatMap_map, List.flatMap_congr hlines, List.flatten_eq_flatMap]
  rfl

/-! ### Statements -/

/-- The lines of a block behind its opening go on to the one that closes it. That one may be missing
where nothing follows. -/
structure IsBlock (opening : List Char) (rest : List (List Char)) (nothingFollows : Prop) :
    Prop where
  firstWord_opening : firstWord opening = "class".toList
  getLast?_opening : opening.getLast? = some '\x7b'
  within : ∀ l ∈ rest.dropLast, l.head? ≠ some '\x7d'
  closed : (∃ closing, rest.getLast? = some closing ∧ closing.head? = some '\x7d') ∨ nothingFollows

theorem opensBlock_iff {line : List Char} :
    opensBlock line = true ↔ line.getLast? = some '\x7b' ∧ firstWord line = "class".toList := by
  rw [opensBlock, Bool.and_eq_true, beq_iff_eq, beq_iff_eq]

theorem closesBlock_iff {line : List Char} :
    closesBlock line = true ↔ line.head? = some '\x7d' := by
  rw [closesBlock, beq_iff_eq]

theorem head?_ne_of_closesBlock {line : List Char} (h : closesBlock line = false) :
    line.head? ≠ some '\x7d' := by
  intro hhead
  rw [closesBlock_iff.mpr hhead] at h
  exact Bool.false_ne_true h.symm

theorem Divided.head {g : List (List Char)} {after : List (List (List Char))}
    (h : Divided (g :: after)) :
    (∃ line, g = [line] ∧ opensBlock line = false) ∨
      ∃ opening rest, g = opening :: rest ∧ IsBlock opening rest (after = []) := by
  cases h with
  | @single line _ hline _ => exact .inl ⟨line, rfl, hline⟩
  | @block opening closing body _ hopen hbody hclose _ =>
      obtain ⟨hbrace, hword⟩ := opensBlock_iff.mp hopen
      refine .inr ⟨opening, body ++ [closing], rfl, hword, hbrace, ?_, .inl ⟨closing, ?_, ?_⟩⟩
      · rw [List.dropLast_concat]
        exact fun l hl => head?_ne_of_closesBlock (hbody l hl)
      · exact List.getLast?_concat
      · exact closesBlock_iff.mp hclose
  | @unfinished opening body hopen hbody =>
      obtain ⟨hbrace, hword⟩ := opensBlock_iff.mp hopen
      refine .inr ⟨opening, body, rfl, hword, hbrace, fun l hl => ?_, .inr rfl⟩
      exact head?_ne_of_closesBlock (hbody l ((List.dropLast_sublist body).subset hl))

/-- The statements have the lines that count, each once and in order. A statement stands where no
block is open and is a single line that opens none, or else it is a block. -/
theorem statements_keep_lines (source : List Char) :
    joinLines (statements source) = joinLines (meaningfulLines source) ∧
      (statements source).flatMap lines = meaningfulLines source ∧
      ∀ before s after, statements source = before ++ s :: after →
        leavesOpen (before.flatMap lines) = false ∧
          (lines s = [s] ∧ opensBlock s = false ∨
            ∃ opening rest, lines s = opening :: rest ∧ IsBlock opening rest (after = [])) := by
  obtain ⟨hdivided, hflat⟩ := group_eq_iff.mp (Eq.refl (group [] (meaningfulLines source)))
  rw [statements]
  generalize group [] (meaningfulLines source) = groups at hdivided hflat ⊢
  have hline : ∀ g ∈ groups, ∀ l ∈ g, '\n' ∉ l := by
    intro g hg l hl
    have hmem : l ∈ meaningfulLines source := hflat ▸ List.mem_flatten.mpr ⟨g, hg, hl⟩
    exact (mem_meaningfulLines hmem).2.2.2
  refine ⟨?_, ?_, ?_⟩
  · rw [joinLines_map_joinLines hdivided.ne_nil, hflat]
  · rw [flatMap_lines_joinLines hdivided.ne_nil hline, hflat]
  · intro before s after hsplit
    obtain ⟨earlier, rest, rfl, rfl, hrest⟩ := List.map_eq_append_iff.mp hsplit
    obtain ⟨g, later, rfl, rfl, rfl⟩ := List.map_eq_cons_iff.mp hrest
    obtain ⟨hopen, hg⟩ := hdivided.of_append
    have hlines : lines (joinLines g) = g :=
      List.splitOn_intercalate '\n' (hline g (by simp)) (hdivided.ne_nil g (by simp))
    have hearlier : (earlier.map joinLines).flatMap lines = earlier.flatten :=
      flatMap_lines_joinLines (fun k hk => hdivided.ne_nil k (List.mem_append_left _ hk))
        fun k hk => hline k (List.mem_append_left _ hk)
    rw [hearlier, hlines, List.map_eq_nil_iff]
    refine ⟨hopen, hg.head.imp_left ?_⟩
    rintro ⟨line, rfl, hsingle⟩
    rw [joinLines_singleton]
    exact ⟨rfl, hsingle⟩

end TextDiagram.Class
