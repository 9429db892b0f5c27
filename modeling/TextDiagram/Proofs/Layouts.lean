import TextDiagram.Proofs.Exports
import TextDiagram.Proofs.Lines

/-!
# The two layouts of an export

What the pretty text of a value has more than the compact one are spaces and line feeds outside of
string literals. Inside a literal every quote, backslash and control character is escaped, so a text
of the value never ends its literal, and the compact text is a single line.
-/

namespace TextDiagram

namespace Json

/-! ### Literals in a text -/

/-- Where in a text a place lies. -/
inductive Region where
  | outside
  /-- In a string literal. -/
  | inside
  /-- In a string literal, behind the backslash of an escape. -/
  | escaped
  deriving DecidableEq

namespace Region

def step : Region → Char → Region
  | outside, c => if c = '"' then inside else outside
  | inside, c => if c = '"' then outside else if c = '\\' then escaped else inside
  | escaped, _ => inside

def after (r : Region) (s : List Char) : Region :=
  s.foldl step r

theorem after_append (r : Region) (s t : List Char) : r.after (s ++ t) = (r.after s).after t :=
  List.foldl_append

end Region

/-- A text that starts in the region, without the spaces and line feeds outside of its literals. -/
def unspaced (r : Region) : List Char → List Char
  | [] => []
  | c :: s =>
    if r = .outside ∧ c ∈ [' ', '\n'] then unspaced (r.step c) s
    else c :: unspaced (r.step c) s

theorem unspaced_append (r : Region) (s t : List Char) :
    unspaced r (s ++ t) = unspaced r s ++ unspaced (r.after s) t := by
  induction s generalizing r with
  | nil => rfl
  | cons c s ih =>
      have hrest := ih (r.step c)
      rw [List.cons_append, unspaced, unspaced, hrest]
      split <;> rfl

/-- The text leads back to the region where it starts, and nothing of it is left out. -/
structure Solid (r : Region) (s : List Char) : Prop where
  after_eq : r.after s = r
  unspaced_eq : unspaced r s = s

namespace Solid

variable {r : Region} {s t : List Char}

theorem nil (r : Region) : Solid r [] :=
  ⟨rfl, rfl⟩

theorem append (hs : Solid r s) (ht : Solid r t) : Solid r (s ++ t) where
  after_eq := by rw [Region.after_append, hs.after_eq, ht.after_eq]
  unspaced_eq := by rw [unspaced_append, hs.after_eq, hs.unspaced_eq, ht.unspaced_eq]

theorem flatMap {α : Type} {f : α → List Char} {as : List α} (h : ∀ a ∈ as, Solid r (f a)) :
    Solid r (as.flatMap f) := by
  induction as with
  | nil => exact nil r
  | cons a as ih =>
      obtain ⟨ha, has⟩ := List.forall_mem_cons.mp h
      exact ha.append (ih has)

theorem outside_of_forall (h : ∀ c ∈ s, c ∉ ['"', ' ', '\n']) : Solid .outside s := by
  induction s with
  | nil => exact nil _
  | cons c s ih =>
      obtain ⟨hc, hs⟩ := List.forall_mem_cons.mp h
      simp only [List.mem_cons, List.not_mem_nil, or_false, not_or] at hc
      have hfirst : Solid .outside [c] :=
        ⟨by simp [Region.after, Region.step, hc], by simp [unspaced, hc]⟩
      exact hfirst.append (ih hs)

theorem inside_of_forall (h : ∀ c ∈ s, c ∉ ['"', '\\']) : Solid .inside s := by
  induction s with
  | nil => exact nil _
  | cons c s ih =>
      obtain ⟨hc, hs⟩ := List.forall_mem_cons.mp h
      simp only [List.mem_cons, List.not_mem_nil, or_false, not_or] at hc
      have hfirst : Solid .inside [c] :=
        ⟨by simp [Region.after, Region.step, hc], by simp [unspaced]⟩
      exact hfirst.append (ih hs)

theorem escape_letter (letter : Char) : Solid .inside ['\\', letter] :=
  ⟨rfl, rfl⟩

end Solid

/-! ### Quoted texts -/

/-- The six characters with which a control character is written. -/
def controlEscape (n : Nat) : List Char :=
  ['\\', 'u', '0', '0', Nat.digitChar (n / 16), Nat.digitChar (n % 16)]

theorem escape_cases (c : Char) :
    (∃ letter, (letter, c) ∈ shortEscapes ∧ escape c = ['\\', letter]) ∨
      (c.toNat < 0x20 ∧ escape c = controlEscape c.toNat) ∨
      (0x20 ≤ c.toNat ∧ c ∉ ['"', '\\'] ∧ escape c = [c]) := by
  cases hfind : shortEscapes.find? fun e => e.2 == c with
  | some e =>
      obtain ⟨letter, d⟩ := e
      obtain rfl : d = c := by simpa using List.find?_some hfind
      exact .inl ⟨letter, List.mem_of_find?_eq_some hfind, by simp only [escape, hfind]⟩
  | none =>
      by_cases hcontrol : c.toNat < 0x20
      · exact .inr (.inl ⟨hcontrol, by simp only [escape, hfind, if_pos hcontrol, controlEscape]⟩)
      · have hunescaped : c ∉ ['"', '\\'] := by
          have hrows : ∀ d ∈ ['"', '\\'], ∃ e ∈ shortEscapes, e.2 = d := by decide
          intro hc
          obtain ⟨e, he, rfl⟩ := hrows c hc
          exact List.find?_eq_none.mp hfind e he (beq_self_eq_true e.2)
        refine .inr (.inr ⟨Nat.le_of_not_lt hcontrol, hunescaped, ?_⟩)
        simp only [escape, hfind, if_neg hcontrol]

theorem solid_escape (c : Char) : Solid .inside (escape c) := by
  rcases escape_cases c with ⟨letter, _, hescape⟩ | ⟨hcontrol, hescape⟩ | ⟨_, hc, hescape⟩
  · rw [hescape]
    exact .escape_letter letter
  · have hdigits : ∀ n < 0x20, ∀ d ∈ (controlEscape n).drop 2, d ∉ ['"', '\\'] := by decide
    rw [hescape]
    exact (Solid.escape_letter 'u').append (.inside_of_forall (hdigits _ hcontrol))
  · rw [hescape]
    exact .inside_of_forall (List.forall_mem_singleton.mpr hc)

theorem le_of_mem_escape {c d : Char} (hd : d ∈ escape c) : 0x20 ≤ d.toNat := by
  rcases escape_cases c with ⟨letter, hmem, hescape⟩ | ⟨hcontrol, hescape⟩ | ⟨hc, _, hescape⟩
  · have hletters : ∀ e ∈ shortEscapes, ∀ d ∈ ['\\', e.1], 0x20 ≤ d.toNat := by decide
    exact hletters _ hmem d (hescape ▸ hd)
  · have hdigits : ∀ n < 0x20, ∀ d ∈ controlEscape n, 0x20 ≤ d.toNat := by decide
    exact hdigits _ hcontrol d (hescape ▸ hd)
  · rw [hescape, List.mem_singleton] at hd
    exact hd ▸ hc

theorem solid_quote (s : List Char) : Solid .outside (quote s) := by
  have hbody : Solid .inside (s.flatMap escape) := .flatMap fun c _ => solid_escape c
  have hafter : Region.after .inside (s.flatMap escape ++ ['"']) = .outside := by
    rw [Region.after_append, hbody.after_eq]
    rfl
  have hunspaced : unspaced .inside (s.flatMap escape ++ ['"']) = s.flatMap escape ++ ['"'] := by
    rw [unspaced_append, hbody.unspaced_eq, hbody.after_eq]
    rfl
  exact ⟨hafter, congrArg ('"' :: ·) hunspaced⟩

theorem le_of_mem_quote {s : List Char} {c : Char} (hc : c ∈ quote s) : 0x20 ≤ c.toNat := by
  have hquote : 0x20 ≤ '"'.toNat := by decide
  rcases List.mem_append.mp hc with hc | hc
  · rcases List.mem_cons.mp hc with rfl | hc
    · exact hquote
    · obtain ⟨d, _, hd⟩ := List.mem_flatMap.mp hc
      exact le_of_mem_escape hd
  · rw [List.mem_singleton.mp hc]
    exact hquote

/-! ### Tokens -/

namespace Token

theorem le_of_isLiteralChar {c : Char} (h : isLiteralChar c = true) : 0x20 ≤ c.toNat := by
  have hcontrol : ∀ n < 0x20, isLiteralChar (Char.ofNat n) = false := by decide
  by_contra hc
  have hnone := hcontrol c.toNat (Nat.lt_of_not_le hc)
  rw [Char.ofNat_toNat, h] at hnone
  cases hnone

theorem notMem_of_isLiteralChar {c : Char} (h : isLiteralChar c = true) :
    c ∉ ['"', ' ', '\n'] := by
  have hchars : ∀ d ∈ ['"', ' ', '\n'], isLiteralChar d = false := by decide
  intro hc
  exact Bool.false_ne_true ((hchars c hc).symm.trans h)

theorem solid_text {t : Token} (h : t.Legible) : Solid .outside t.text := by
  cases t with
  | string s => exact solid_quote s.toList
  | number literal =>
      exact .outside_of_forall fun c hc =>
        notMem_of_isLiteralChar (isLiteralChar_of_isNumeral h hc)
  | bool b => cases b <;> exact .outside_of_forall (by decide)
  | null | openArray | closeArray | openObject | closeObject | comma | colon =>
      exact .outside_of_forall (by decide)

theorem le_of_mem_text {t : Token} (h : t.Legible) {c : Char} (hc : c ∈ t.text) :
    0x20 ≤ c.toNat := by
  cases t with
  | string s => exact le_of_mem_quote hc
  | number literal => exact le_of_isLiteralChar (isLiteralChar_of_isNumeral h hc)
  | bool b =>
      have hchars : ∀ b, ∀ d ∈ (bool b).text, 0x20 ≤ d.toNat := by decide
      exact hchars b c hc
  | null | openArray | closeArray | openObject | closeObject | comma | colon =>
      revert c
      decide

end Token

theorem legible_of_mem_tokens {v : Json} (hv : v.Legible) {t : Token} (ht : t ∈ v.tokens) :
    t.Legible := by
  have hreadable := readable_tokens v hv Token.detached_nil
  rw [List.append_nil] at hreadable
  exact hreadable.legible t ht

/-! ### Layouts -/

theorem unspaced_blanks {s : List Char} (hs : ∀ c ∈ s, c ∈ [' ', '\n']) :
    Region.after .outside s = .outside ∧ unspaced .outside s = [] := by
  induction s with
  | nil => exact ⟨rfl, rfl⟩
  | cons c s ih =>
      obtain ⟨hc, hs⟩ := List.forall_mem_cons.mp hs
      have hstep : Region.step .outside c = .outside :=
        (by decide : ∀ c ∈ [' ', '\n'], Region.step .outside c = .outside) c hc
      obtain ⟨hafter, hunspaced⟩ := ih hs
      refine ⟨?_, ?_⟩
      · rw [Region.after, List.foldl_cons, hstep]
        exact hafter
      · rw [unspaced, if_pos ⟨rfl, hc⟩, hstep, hunspaced]

theorem Piece.mem_blanks_of_mem_text {p : Piece} (hp : p.token? = none) :
    ∀ c ∈ p.text, c ∈ [' ', '\n'] := by
  cases p with
  | token t => cases hp
  | space => exact (by decide : ∀ c ∈ [' '], c ∈ [' ', '\n'])
  | newline depth =>
      intro c hc
      rcases List.mem_cons.mp hc with rfl | hc
      · decide
      · rw [List.eq_of_mem_replicate hc]
        decide

/-- Of the pieces of a text the tokens stay, and what stands between them goes. -/
theorem unspaced_pieces {ps : List Piece}
    (hps : ∀ t ∈ ps.filterMap Piece.token?, t.Legible) :
    unspaced .outside (ps.flatMap Piece.text) =
      (ps.filterMap Piece.token?).flatMap Token.text := by
  induction ps with
  | nil => rfl
  | cons p ps ih =>
      rw [List.flatMap_cons, unspaced_append]
      cases hp : p.token? with
      | none =>
          obtain ⟨hafter, hunspaced⟩ := unspaced_blanks (Piece.mem_blanks_of_mem_text hp)
          rw [List.filterMap_cons_none hp] at hps ⊢
          rw [hafter, hunspaced, List.nil_append, ih hps]
      | some t =>
          obtain rfl : p = .token t := by
            cases p with
            | token u => exact congrArg Piece.token (Option.some.inj hp)
            | space | newline _ => cases hp
          rw [List.filterMap_cons_some hp] at hps ⊢
          obtain ⟨ht, hps⟩ := List.forall_mem_cons.mp hps
          have hsolid := Token.solid_text ht
          rw [Piece.text, hsolid.unspaced_eq, hsolid.after_eq, ih hps, List.flatMap_cons]

theorem unspaced_pretty {v : Json} (hv : v.Legible) :
    unspaced .outside (v.render true).toList = (v.render false).toList := by
  have htokens := filterMap_pieces 0 v
  have hlegible : ∀ t ∈ (v.pieces 0).filterMap Piece.token?, t.Legible := by
    rw [htokens]
    exact fun t ht => legible_of_mem_tokens hv ht
  calc unspaced .outside (v.render true).toList
    _ = unspaced .outside ((v.pieces 0).flatMap Piece.text) :=
        congrArg (unspaced .outside) String.toList_ofList
    _ = v.tokens.flatMap Token.text := by rw [unspaced_pieces hlegible, htokens]
    _ = (v.render false).toList := String.toList_ofList.symm

theorem le_of_mem_compact {v : Json} (hv : v.Legible) {c : Char}
    (hc : c ∈ (v.render false).toList) : 0x20 ≤ c.toNat := by
  rw [show (v.render false).toList = v.tokens.flatMap Token.text from String.toList_ofList] at hc
  obtain ⟨t, ht, hc⟩ := List.mem_flatMap.mp hc
  exact Token.le_of_mem_text (legible_of_mem_tokens hv ht) hc

end Json

namespace Graph

/-- Both formats write a value that has no number in it. -/
theorem exists_exportText_eq (g : Graph) (format : ExportFormat) :
    ∃ v : Json, v.Legible ∧ ∀ isPretty, g.exportText ⟨format, isPretty⟩ = v.render isPretty := by
  cases format with
  | full => exact ⟨g.toJson, g.legible_toJson, fun _ => rfl⟩
  | wire =>
      exact ⟨(Wire.Graph.ofGraph g).toJson, Wire.Graph.legible_toJson_ofGraph g, fun _ => rfl⟩

/-- In either format, the pretty export of a graph without the spaces and line feeds outside of its
string literals is the compact export. The compact export has no control character and is a single
line. -/
theorem exportText_pretty_unspaced (g : Graph) (format : ExportFormat) :
    Json.unspaced .outside (g.exportText ⟨format, true⟩).toList =
        (g.exportText ⟨format, false⟩).toList ∧
      (∀ c ∈ (g.exportText ⟨format, false⟩).toList, 0x20 ≤ c.toNat) ∧
      Text.lines (g.exportText ⟨format, false⟩).toList =
        [(g.exportText ⟨format, false⟩).toList] := by
  obtain ⟨v, hv, htext⟩ := g.exists_exportText_eq format
  have hcontrol : ∀ c ∈ (v.render false).toList, 0x20 ≤ c.toNat :=
    fun c hc => Json.le_of_mem_compact hv hc
  rw [htext true, htext false]
  refine ⟨Json.unspaced_pretty hv, hcontrol, Text.lines_of_notMem ?_⟩
  intro hbreak
  exact absurd (hcontrol '\n' hbreak) (by decide)

end Graph

end TextDiagram
