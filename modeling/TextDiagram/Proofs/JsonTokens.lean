import Mathlib.Data.List.Chain
import Mathlib.Data.List.TakeWhile
import TextDiagram.Json.Record
import TextDiagram.Json.Layout

/-!
# Reading back the tokens of a JSON value

A quoted string ends at its own closing quote, whatever it holds, and a punctuation mark is one
character. A number or a name such as `null` goes on as long as there are characters of its kind, so
two of them must not stand side by side. In the tokens of a value they never do, and blanks between
tokens change nothing.
-/

namespace TextDiagram.Json

/-! ### Quoted strings -/

theorem hexNumber?_control : ∀ n < 0x20,
    hexNumber? ['0', '0', Nat.digitChar (n / 16), Nat.digitChar (n % 16)] = some n := by
  decide

variable {done s : List Char} {c : Char}

theorem readQuoted_short {letter : Char} (h : (letter, c) ∈ shortEscapes) :
    readQuoted done ('\\' :: letter :: s) = readQuoted (c :: done) s := by
  have hrows : ∀ e ∈ shortEscapes, e.1 ≠ 'u' ∧ shortEscape? e.1 = some e.2 := by decide
  obtain ⟨hletter, hshort⟩ := hrows _ h
  rw [readQuoted]
  · rw [hshort]
  · intro _ _ _ _ _ hu
    exact absurd hu hletter

theorem readQuoted_control (h : c.toNat < 0x20) :
    readQuoted done ('\\' :: 'u' :: '0' :: '0' :: Nat.digitChar (c.toNat / 16) ::
      Nat.digitChar (c.toNat % 16) :: s) = readQuoted (c :: done) s := by
  have hlow : isLowSurrogate c.toNat = false := by
    simp only [isLowSurrogate, Bool.and_eq_false_iff, decide_eq_false_iff_not]
    omega
  have hhigh : isHighSurrogate c.toNat = false := by
    simp only [isHighSurrogate, Bool.and_eq_false_iff, decide_eq_false_iff_not]
    omega
  rw [readQuoted]
  simp [hexNumber?_control _ h, hlow, hhigh, Char.ofNat_toNat]

theorem readQuoted_plain (hcontrol : ¬c.toNat < 0x20) (hquote : c ≠ '"') (hbackslash : c ≠ '\\') :
    readQuoted done (c :: s) = readQuoted (c :: done) s := by
  rw [readQuoted, if_neg hquote, if_neg hcontrol] <;> simp [hbackslash]

theorem readQuoted_escape : readQuoted done (escape c ++ s) = readQuoted (c :: done) s := by
  cases hfind : shortEscapes.find? fun e => e.2 == c with
  | some e =>
      obtain ⟨letter, d⟩ := e
      obtain rfl : d = c := by simpa using List.find?_some hfind
      simp only [escape, hfind, List.cons_append, List.nil_append]
      exact readQuoted_short (List.mem_of_find?_eq_some hfind)
  | none =>
      by_cases hcontrol : c.toNat < 0x20
      · simp only [escape, hfind, if_pos hcontrol, List.cons_append, List.nil_append]
        exact readQuoted_control hcontrol
      · simp only [escape, hfind, if_neg hcontrol, List.cons_append, List.nil_append]
        have hunescaped := List.find?_eq_none.mp hfind
        apply readQuoted_plain hcontrol
        · rintro rfl
          exact hunescaped _ List.mem_cons_self rfl
        · rintro rfl
          exact hunescaped _ (List.mem_cons_of_mem _ List.mem_cons_self) rfl

theorem readQuoted_flatMap_escape (done s rest : List Char) :
    readQuoted done (s.flatMap escape ++ '"' :: rest) = some (done.reverse ++ s, rest) := by
  induction s generalizing done with
  | nil =>
      rw [List.flatMap_nil, List.nil_append, List.append_nil, readQuoted]
      · rfl
      all_goals simp
  | cons c s ih =>
      rw [List.flatMap_cons, List.append_assoc, readQuoted_escape, ih, List.reverse_cons,
        List.append_assoc, List.singleton_append]

namespace Token

/-! ### Numerals -/

theorem isLiteralChar_of_isDigit {c : Char} (h : c.isDigit = true) : isLiteralChar c = true := by
  simp [isLiteralChar, Char.isAlphanum, h]

theorem mem_of_digits? {s rest : List Char} (h : digits? s = some rest) {c : Char} (hc : c ∈ s) :
    isLiteralChar c = true ∨ c ∈ rest := by
  cases s with
  | nil => cases h
  | cons d s =>
      obtain ⟨hdigit, hrest⟩ := Option.ite_none_right_eq_some.mp h
      obtain rfl := Option.some.inj hrest
      rcases List.mem_cons.mp hc with rfl | hc
      · exact .inl (isLiteralChar_of_isDigit hdigit)
      · rw [← List.takeWhile_append_dropWhile (p := Char.isDigit) (l := s)] at hc
        refine (List.mem_append.mp hc).imp ?_ id
        intro htake
        exact isLiteralChar_of_isDigit (List.mem_takeWhile_imp htake)

theorem mem_of_whole? {s rest : List Char} (h : whole? s = some rest) {c : Char} (hc : c ∈ s) :
    isLiteralChar c = true ∨ c ∈ rest := by
  unfold whole? at h
  split at h
  · obtain rfl := Option.some.inj h
    refine (List.mem_cons.mp hc).imp ?_ id
    rintro rfl
    decide
  · exact mem_of_digits? h hc

theorem mem_of_fraction? {s rest : List Char} (h : fraction? s = some rest) {c : Char}
    (hc : c ∈ s) : isLiteralChar c = true ∨ c ∈ rest := by
  unfold fraction? at h
  split at h
  · rcases List.mem_cons.mp hc with rfl | hc
    · exact .inl (by decide)
    · exact mem_of_digits? h hc
  · exact .inr (Option.some.inj h ▸ hc)

theorem mem_of_exponent? {s rest : List Char} (h : exponent? s = some rest) {c : Char}
    (hc : c ∈ s) : isLiteralChar c = true ∨ c ∈ rest := by
  unfold exponent? at h
  split at h
  · cases hc
  · split at h
    · rename_i mark t hmark
      rcases List.mem_cons.mp hc with rfl | hc
      · rcases hmark with rfl | rfl <;> exact .inl (by decide)
      · split at h
        · rcases List.mem_cons.mp hc with rfl | hc
          · exact .inl (by decide)
          · exact mem_of_digits? h hc
        · rcases List.mem_cons.mp hc with rfl | hc
          · exact .inl (by decide)
          · exact mem_of_digits? h hc
        · exact mem_of_digits? h hc
    · exact .inr (Option.some.inj h ▸ hc)

theorem isLiteralChar_of_isNumeral {s : List Char} (h : isNumeral s = true) {c : Char}
    (hc : c ∈ s) : isLiteralChar c = true := by
  obtain ⟨t, ht, hexponent⟩ := Option.bind_eq_some_iff.mp (beq_iff_eq.mp h)
  obtain ⟨u, hwhole, hfraction⟩ := Option.bind_eq_some_iff.mp ht
  have hunsigned : ∀ r, whole? r = some u → c ∈ r → isLiteralChar c = true := by
    intro r hr hc
    rcases mem_of_whole? hr hc with hdone | hc
    · exact hdone
    · rcases mem_of_fraction? hfraction hc with hdone | hc
      · exact hdone
      · exact (mem_of_exponent? hexponent hc).resolve_right List.not_mem_nil
  split at hwhole
  · rcases List.mem_cons.mp hc with rfl | hc
    · decide
    · exact hunsigned _ hwhole hc
  · exact hunsigned _ hwhole hc

/-! ### Single tokens -/

/-- Tokens whose text goes on as long as characters of its kind follow. -/
def isWord : Token → Bool
  | null | bool _ | number _ => true
  | _ => false

/-- A number has to be written as one. -/
def Legible : Token → Prop
  | number literal => isNumeral literal.toList = true
  | _ => True

/-- Neither token goes on in the other. -/
def Apart (t u : Token) : Prop :=
  t.isWord = false ∨ u.isWord = false

theorem literal?_text {t : Token} (hword : t.isWord = true) (h : t.Legible) :
    literal? t.text = some t := by
  cases t with
  | null => rfl
  | bool b => cases b <;> rfl
  | number literal =>
      have hnumeral : isNumeral literal.toList = true := h
      have hne : ∀ name : List Char, isNumeral name = false → literal.toList ≠ name := by
        rintro name hname rfl
        exact absurd (hname.symm.trans hnumeral) Bool.false_ne_true
      change literal? literal.toList = some (number literal)
      rw [literal?, if_neg (hne "null".toList (by decide)), if_neg (hne "true".toList (by decide)),
        if_neg (hne "false".toList (by decide)), if_pos hnumeral, String.ofList_toList]
  | openArray | closeArray | openObject | closeObject | comma | colon | string _ => cases hword

theorem isLiteralChar_of_mem_text {t : Token} (hword : t.isWord = true) (h : t.Legible) :
    ∀ c ∈ t.text, isLiteralChar c = true := by
  cases t with
  | null => decide
  | bool b => cases b <;> decide
  | number literal => exact fun c hc => isLiteralChar_of_isNumeral h hc
  | openArray | closeArray | openObject | closeObject | comma | colon | string _ => cases hword

theorem text_ne_nil {t : Token} (h : t.Legible) : t.text ≠ [] := by
  cases t with
  | bool b => cases b <;> decide
  | number literal =>
      intro hnil
      rw [Legible, show literal.toList = [] from hnil] at h
      exact absurd h (by decide)
  | string s => exact List.cons_ne_nil '"' (s.toList.flatMap escape ++ ['"'])
  | null | openArray | closeArray | openObject | closeObject | comma | colon => decide

theorem punctuation?_of_isLiteralChar {c : Char} (h : isLiteralChar c = true) :
    punctuation? c = none := by
  unfold punctuation?
  split <;> first | rfl | exact absurd h (by decide)

theorem first_text_of_isWord {t : Token} (hword : t.isWord = true) (h : t.Legible)
    {rest : List Char} (hrest : ∀ c ∈ rest.head?, isLiteralChar c = false) :
    first (t.text ++ rest) = some (t, rest) := by
  obtain ⟨c, s, htext⟩ := List.exists_cons_of_ne_nil (text_ne_nil h)
  have hchars := isLiteralChar_of_mem_text hword h
  have hliteral := literal?_text hword h
  rw [htext] at hchars hliteral ⊢
  obtain ⟨hc, hs⟩ := List.forall_mem_cons.mp hchars
  have hquote : c ≠ '"' := by
    rintro rfl
    exact absurd hc (by decide)
  have htake : (s ++ rest).takeWhile isLiteralChar = s := by
    rw [List.takeWhile_append_of_pos hs]
    cases rest with
    | nil => rw [List.takeWhile_nil, List.append_nil]
    | cons d rest => simp [hrest d rfl]
  have hdrop : (s ++ rest).dropWhile isLiteralChar = rest := by
    rw [List.dropWhile_append_of_pos hs]
    cases rest with
    | nil => rfl
    | cons d rest => simp [hrest d rfl]
  simp [first, punctuation?_of_isLiteralChar hc, hquote, htake, hdrop, hliteral]

theorem first_text {t : Token} (h : t.Legible) {rest : List Char}
    (hrest : t.isWord = true → ∀ c ∈ rest.head?, isLiteralChar c = false) :
    first (t.text ++ rest) = some (t, rest) := by
  cases t with
  | null | bool _ | number _ => exact first_text_of_isWord rfl h (hrest rfl)
  | openArray | closeArray | openObject | closeObject | comma | colon => rfl
  | string s =>
      have hread : readQuoted [] (s.toList.flatMap escape ++ ['"'] ++ rest) =
          some (s.toList, rest) := by
        rw [List.append_assoc]
        exact readQuoted_flatMap_escape [] s.toList rest
      calc first ('"' :: (s.toList.flatMap escape ++ ['"'] ++ rest))
        _ = (readQuoted [] (s.toList.flatMap escape ++ ['"'] ++ rest)).map fun p =>
              (string (String.ofList p.1), p.2) := rfl
        _ = some (string s, rest) := by simp only [hread, Option.map_some, String.ofList_toList]

theorem isSpace_eq_false_of_isLiteralChar {c : Char} (h : isLiteralChar c = true) :
    isSpace c = false := by
  apply decide_eq_false
  simp only [List.mem_cons, List.not_mem_nil, or_false]
  rintro (rfl | rfl | rfl | rfl) <;> exact absurd h (by decide)

theorem isSpace_eq_false_of_head?_text {t : Token} (h : t.Legible) :
    ∀ c ∈ t.text.head?, isSpace c = false := by
  intro c hc
  cases t with
  | null | bool _ | number _ =>
      apply isSpace_eq_false_of_isLiteralChar
      exact isLiteralChar_of_mem_text rfl h c (List.mem_of_mem_head? hc)
  | openArray | closeArray | openObject | closeObject | comma | colon | string _ =>
      obtain rfl := Option.some.inj hc
      decide

theorem isLiteralChar_eq_false_of_head?_text {t : Token} (hword : t.isWord = false) :
    ∀ c ∈ t.text.head?, isLiteralChar c = false := by
  intro c hc
  cases t with
  | null | bool _ | number _ => cases hword
  | openArray | closeArray | openObject | closeObject | comma | colon | string _ =>
      obtain rfl := Option.some.inj hc
      decide

/-! ### Texts made of pieces -/

theorem tokensFrom_eq (done : List Token) (s : List Char) :
    tokensFrom done s =
      match s.dropWhile isSpace with
      | [] => some done.reverse
      | c :: t => (first (c :: t)).bind fun (token, rest) => tokensFrom (token :: done) rest := by
  rw [tokensFrom]
  split
  · simp [*]
  · split <;> simp [*]

theorem tokensFrom_of_first {done : List Token} {s rest : List Char} {t : Token}
    (hs : ∀ c ∈ s.head?, isSpace c = false) (h : first s = some (t, rest)) :
    tokensFrom done s = tokensFrom (t :: done) rest := by
  cases s with
  | nil => cases h
  | cons c s =>
      have hdrop : (c :: s).dropWhile isSpace = c :: s := by simp [hs c rfl]
      rw [tokensFrom_eq, hdrop]
      simp only [h, Option.bind_some]

theorem tokensFrom_append {done : List Token} {blanks : List Char}
    (hblanks : ∀ c ∈ blanks, isSpace c = true) (s : List Char) :
    tokensFrom done (blanks ++ s) = tokensFrom done s := by
  rw [tokensFrom_eq, List.dropWhile_append_of_pos hblanks, ← tokensFrom_eq]

/-- Tokens that can be told apart in their text. -/
structure Readable (ts : List Token) : Prop where
  legible : ∀ t ∈ ts, t.Legible
  apart : ts.IsChain Apart

/-- Readable tokens that may also follow a word. -/
structure Detached (ts : List Token) : Prop extends Readable ts where
  head : ∀ t ∈ ts.head?, t.isWord = false

variable {t : Token} {ts : List Token}

theorem readable_cons_iff :
    Readable (t :: ts) ↔ t.Legible ∧ Readable ts ∧ (t.isWord = true → Detached ts) := by
  constructor
  · rintro ⟨hlegible, hapart⟩
    obtain ⟨ht, hts⟩ := List.forall_mem_cons.mp hlegible
    obtain ⟨hnext, hchain⟩ := List.isChain_cons.mp hapart
    refine ⟨ht, ⟨hts, hchain⟩, fun hword => ⟨⟨hts, hchain⟩, ?_⟩⟩
    intro u hu
    exact (hnext u hu).resolve_left (by simp [hword])
  · rintro ⟨ht, hts, hdetached⟩
    refine ⟨List.forall_mem_cons.mpr ⟨ht, hts.legible⟩, List.isChain_cons.mpr ⟨?_, hts.apart⟩⟩
    intro u hu
    cases hword : t.isWord with
    | false => exact .inl hword
    | true => exact .inr ((hdetached hword).head u hu)

theorem Readable.detached_cons (h : Readable ts) (hword : t.isWord = false) :
    Detached (t :: ts) where
  toReadable := by
    refine readable_cons_iff.mpr ⟨?_, h, fun hword' => absurd (hword.symm.trans hword') (by simp)⟩
    cases t with
    | number _ => cases hword
    | _ => trivial
  head u hu := Option.some.inj hu ▸ hword

theorem Detached.readable_cons (h : Detached ts) (ht : t.Legible) : Readable (t :: ts) :=
  readable_cons_iff.mpr ⟨ht, h.toReadable, fun _ => h⟩

theorem detached_nil : Detached [] where
  legible := by simp
  apart := .nil
  head := by simp

end Token

open Token

theorem Piece.isSpace_of_mem_text {p : Piece} (hp : p.token? = none) :
    ∀ c ∈ p.text, isSpace c = true := by
  cases p with
  | token t => cases hp
  | space => simp [text, isSpace]
  | newline depth =>
      intro c hc
      rcases List.mem_cons.mp hc with rfl | hc
      · decide
      · obtain rfl := List.eq_of_mem_replicate hc
        decide

/-- What follows a word is no part of it. -/
theorem isLiteralChar_eq_false_of_head?_flatMap {ps : List Piece}
    (hps : Detached (ps.filterMap Piece.token?)) :
    ∀ c ∈ (ps.flatMap Piece.text).head?, isLiteralChar c = false := by
  cases ps with
  | nil => simp
  | cons p ps =>
      cases p with
      | space | newline _ =>
          intro c hc
          obtain rfl := Option.some.inj hc
          decide
      | token t =>
          intro c hc
          apply isLiteralChar_eq_false_of_head?_text (hps.head t rfl) c
          rw [List.flatMap_cons, Piece.text,
            List.head?_append_of_ne_nil _ (text_ne_nil (hps.legible t List.mem_cons_self))] at hc
          exact hc

theorem tokensFrom_pieces (done : List Token) {ps : List Piece}
    (h : Readable (ps.filterMap Piece.token?)) :
    tokensFrom done (ps.flatMap Piece.text) =
      some (done.reverse ++ ps.filterMap Piece.token?) := by
  induction ps generalizing done with
  | nil => simp [tokensFrom_eq]
  | cons p ps ih =>
      cases hp : p.token? with
      | none =>
          rw [List.filterMap_cons_none hp] at h ⊢
          rw [List.flatMap_cons, tokensFrom_append (Piece.isSpace_of_mem_text hp)]
          exact ih done h
      | some t =>
          obtain rfl : p = .token t := by
            cases p with
            | token u => exact congrArg Piece.token (Option.some.inj hp)
            | space | newline _ => cases hp
          rw [List.filterMap_cons_some hp] at h ⊢
          obtain ⟨ht, hps, hdetached⟩ := readable_cons_iff.mp h
          have hfirst : first (t.text ++ ps.flatMap Piece.text) =
              some (t, ps.flatMap Piece.text) := by
            apply first_text ht
            intro hword
            exact isLiteralChar_eq_false_of_head?_flatMap (hdetached hword)
          have hhead : ∀ c ∈ (t.text ++ ps.flatMap Piece.text).head?, isSpace c = false := by
            rw [List.head?_append_of_ne_nil _ (text_ne_nil ht)]
            exact isSpace_eq_false_of_head?_text ht
          rw [List.flatMap_cons, Piece.text, tokensFrom_of_first hhead hfirst, ih _ hps,
            List.reverse_cons, List.append_assoc, List.singleton_append]

/-! ### Tokens of a value -/

/-- All numbers are written as numbers. -/
def Legible (v : Json) : Prop :=
  v.numbersAll (fun literal => isNumeral literal.toList) = true

mutual

theorem readable_tokens (v : Json) (hv : v.Legible) {rest : List Token} (hrest : Detached rest) :
    Readable (v.tokens ++ rest) := by
  match v with
  | .null | .bool _ | .string _ => exact hrest.readable_cons trivial
  | .number literal => exact hrest.readable_cons hv
  | .array [] | .object [] =>
      exact ((hrest.toReadable.detached_cons rfl).toReadable.detached_cons rfl).toReadable
  | .array (v :: vs) =>
      obtain ⟨hv, hvs⟩ := Bool.and_eq_true_iff.mp hv
      have hclosed : Detached (.closeArray :: rest) := hrest.toReadable.detached_cons rfl
      have hitems := readable_tokens v hv (detached_itemTokens vs hvs hclosed)
      simpa [tokens] using (hitems.detached_cons (t := .openArray) rfl).toReadable
  | .object ((key, v) :: fields) =>
      obtain ⟨hv, hfields⟩ := Bool.and_eq_true_iff.mp hv
      have hclosed : Detached (.closeObject :: rest) := hrest.toReadable.detached_cons rfl
      have hvalue := readable_tokens v hv (detached_fieldTokens fields hfields hclosed)
      have hcolon : Detached (.colon :: _) := hvalue.detached_cons rfl
      have hkey : Detached (.string key :: _) := hcolon.toReadable.detached_cons rfl
      simpa [tokens] using (hkey.toReadable.detached_cons (t := .openObject) rfl).toReadable

theorem detached_itemTokens (vs : List Json)
    (hvs : itemNumbersAll (fun literal => isNumeral literal.toList) vs = true)
    {rest : List Token} (hrest : Detached rest) : Detached (itemTokens vs ++ rest) := by
  match vs with
  | [] => exact hrest
  | v :: vs =>
      obtain ⟨hv, hvs⟩ := Bool.and_eq_true_iff.mp hvs
      have hitem := readable_tokens v hv (detached_itemTokens vs hvs hrest)
      simpa [itemTokens] using hitem.detached_cons (t := .comma) rfl

theorem detached_fieldTokens (fields : List (String × Json))
    (hfields : fieldNumbersAll (fun literal => isNumeral literal.toList) fields = true)
    {rest : List Token} (hrest : Detached rest) : Detached (fieldTokens fields ++ rest) := by
  match fields with
  | [] => exact hrest
  | (key, v) :: fields =>
      obtain ⟨hv, hfields⟩ := Bool.and_eq_true_iff.mp hfields
      have hvalue := readable_tokens v hv (detached_fieldTokens fields hfields hrest)
      have hcolon : Detached (.colon :: _) := hvalue.detached_cons rfl
      have hkey : Detached (.string key :: _) := hcolon.toReadable.detached_cons rfl
      simpa [fieldTokens] using hkey.toReadable.detached_cons (t := .comma) rfl

end

/-- In either layout a text is divided into the tokens that it was made of. -/
theorem tokens?_render (isPretty : Bool) {v : Json} (hv : v.Legible) :
    tokens? (v.render isPretty).toList = some v.tokens := by
  have hreadable : Readable v.tokens := by
    simpa using readable_tokens v hv detached_nil
  cases isPretty with
  | false =>
      have hpieces : (v.tokens.map Piece.token).filterMap Piece.token? = v.tokens := by
        rw [List.filterMap_map]
        exact List.filterMap_some
      have htext : (v.render false).toList = (v.tokens.map Piece.token).flatMap Piece.text := by
        rw [List.flatMap_map]
        exact String.toList_ofList
      rw [htext, tokens?, tokensFrom_pieces [] (hpieces.symm ▸ hreadable), hpieces]
      rfl
  | true =>
      have hpieces := filterMap_pieces 0 v
      have htext : (v.render true).toList = (v.pieces 0).flatMap Piece.text := String.toList_ofList
      rw [htext, tokens?, tokensFrom_pieces [] (hpieces.symm ▸ hreadable), hpieces]
      rfl

end TextDiagram.Json
