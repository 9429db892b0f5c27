import TextDiagram.Matcher

/-!
# Readers

A matcher hands on the rest of a text, a reader stands in the text and moves. A reader that fails
may have moved. If it has not, it is an optional matcher.
-/

namespace TextDiagram.Matcher

/-- A reader goes on from where it stands in the text, and stands there also after it failed. -/
abbrev Reader (α : Type) :=
  OptionT (StateM (List Char)) α

namespace Reader

variable {α β : Type}

@[simp] theorem run_get (s : List Char) : OptionT.run (get : Reader (List Char)) s = (some s, s) :=
  rfl

@[simp] theorem run_modify (f : List Char → List Char) (s : List Char) :
    OptionT.run (modify f : Reader PUnit) s = (some ⟨⟩, f s) := rfl

@[simp] theorem run_pure (a : α) (s : List Char) :
    OptionT.run (pure a : Reader α) s = (some a, s) := rfl

@[simp] theorem run_failure (s : List Char) : OptionT.run (failure : Reader α) s = (none, s) := rfl

theorem run_bind (r : Reader α) (f : α → Reader β) (s : List Char) :
    (r >>= f).run s = match r.run s with
      | (some a, t) => (f a).run t
      | (none, t) => (none, t) := by
  rw [OptionT.run_bind]
  change (match OptionT.run r s with
    | (a, t) => Option.elim a (pure none) (fun a => (f a).run) t) = _
  rcases OptionT.run r s with ⟨_ | a, t⟩ <;> rfl

theorem run_orElse (r r' : Reader α) (s : List Char) :
    (r <|> r').run s = match r.run s with
      | (some a, t) => (some a, t)
      | (none, t) => r'.run t := by
  rw [OptionT.run_orElse]
  change (match OptionT.run r s with
    | (a, t) => Option.elim a r'.run (fun a => pure (some a)) t) = _
  rcases OptionT.run r s with ⟨_ | a, t⟩ <;> rfl

/-- Readers that stand where they stood when they fail can be tried one after the other. -/
theorem run_foldr_orElse {ρ : Type} {read : ρ → Reader α} {m : ρ → Matcher α}
    (hread : ∀ row s, (read row).run s = optional (m row) s) (rows : List ρ) (s : List Char) :
    OptionT.run (rows.foldr (fun row later => read row <|> later) failure : Reader α) s =
      optional (fun s => rows.findSome? fun row => m row s) s := by
  induction rows with
  | nil => rfl
  | cons row rows ih =>
      rw [List.foldr_cons, run_orElse, hread]
      cases hrow : m row s with
      | none =>
          rw [optional_of_eq_none hrow]
          simpa [optional, hrow] using ih
      | some result =>
          obtain ⟨a, rest⟩ := result
          rw [optional_of_eq_some hrow]
          simp [optional, hrow]

end Reader

end TextDiagram.Matcher
