import TextDiagram.Proofs.Log

/-!
# What a scan keeps

A run may replace a node that stands for a reference. The scans of the three dialects never do: the
roles that messages name are declared before the messages are read, notes get ids that no role has,
and the other references are made up when nothing is declared any more.
-/

namespace TextDiagram

open Assembly

namespace Step

theorem kind_of_onNode {step : Step} {id : String} {n m : Node}
    (hdeclared : ∀ new, step = declare new → new.id = id → n.kind.isImplicit = false)
    (h : step.onNode id (some n) = some m) : m.kind = n.kind := by
  cases step with
  | declare new =>
      by_cases hid : new.id = id
      · have hresult := Node.redeclare_of_declared (hdeclared new rfl hid) new
        rw [onNode, if_pos hid, Option.elim_some, hresult] at h
        rw [← Option.some.inj h]
        rfl
      · rw [onNode, if_neg hid] at h
        rw [Option.some.inj h]
  | synthesize i kind =>
      rw [onNode, Option.getD_some, ite_self] at h
      rw [Option.some.inj h]
  | connect e => rw [Option.some.inj h]
  | label source target text kind => rw [Option.some.inj h]
  | stereotype i text =>
      simp only [onNode, Option.map_some] at h
      split at h
      · rw [← Option.some.inj h]
        split <;> rfl
      · rw [Option.some.inj h]

/-- Nothing takes the place of a node in an orderly run. -/
theorem Orderly.exists_get?_growsTo {before after : List Step} (h : Orderly (before ++ after))
    {id : String} {n : Node} (hn : (empty.run before).nodes.get? id = some n) :
    ∃ m, (empty.run (before ++ after)).nodes.get? id = some m ∧ n.GrowsTo m ∧ m.kind = n.kind := by
  induction after using List.reverseRecOn with
  | nil => exact ⟨n, by rwa [List.append_nil], .refl n, rfl⟩
  | append_singleton after step ih =>
      rw [← List.append_assoc] at h ⊢
      obtain ⟨hrest, -, -⟩ := orderly_append_iff.mp h
      obtain ⟨o, ho, hgrows, hkind⟩ := ih hrest
      have hid : o.id = id := (coherent_run_empty _).node_id id o ho
      obtain ⟨m, hm, hgrows'⟩ := step.exists_onNode_growsTo hid
      refine ⟨m, ?_, hgrows.trans hgrows', ?_⟩
      · rw [run_append, run_cons, run_nil, get?_apply, ho, hm]
      · rw [← hkind]
        refine kind_of_onNode ?_ hm
        rintro new rfl rfl
        exact h.isImplicit_of_get? ho

end Step

namespace Dialect

/-- Wherever a scan has come to, no node is discarded in the rest of it: what is declared again has
been declared before and is added to, and every node keeps its kind. -/
theorem scan_discards_nothing {d : Dialect} {source : List Char} {before after : List Step}
    (hsteps : d.steps source = before ++ after) :
    (∀ new rest old, after = .declare new :: rest →
      (empty.run before).nodes.get? new.id = some old →
        old.kind.isImplicit = false ∧
          ((empty.run before).declare new).nodes.get? new.id = some (old.augment new)) ∧
      ∀ id n, (empty.run before).nodes.get? id = some n →
        ∃ m, (d.scan source).nodes.get? id = some m ∧ n.GrowsTo m ∧ m.kind = n.kind := by
  have horderly := d.orderly_steps source
  rw [hsteps] at horderly
  constructor
  · rintro new rest old rfl hold
    have hdeclared := horderly.isImplicit_of_get? hold
    refine ⟨hdeclared, ?_⟩
    rw [get?_declare, hold, Step.onNode, if_pos rfl, Option.elim_some,
      Node.redeclare_of_declared hdeclared]
  · intro id n hn
    rw [scan, hsteps]
    exact horderly.exists_get?_growsTo hn

/-- A role is declared for the second time behind a message that names it. The steps for the message
come later all the same. -/
theorem scan_adds_to_declared_role :
    let first : Node := { id := "A", label := "A", kind := .participant }
    let second : Node := { id := "A", label := "C", kind := .actor }
    let message : Edge := { source := "A", target := "B", kind := .async, label := some "hi" }
    Dialect.sequence.steps "participant A\nA ->> B: hi\nactor A as C".toList =
        [.declare first] ++ [.declare second, .synthesize "A" .implicitParticipant,
          .synthesize "B" .implicitParticipant, .connect message] ∧
      (empty.run [.declare first]).nodes.get? second.id = some first ∧
      ((empty.run [.declare first]).declare second).nodes.get? second.id =
        some { first with label := "C" } := by
  intro first second message
  have hsteps : Dialect.sequence.steps "participant A\nA ->> B: hi\nactor A as C".toList =
      [.declare first] ++ [.declare second, .synthesize "A" .implicitParticipant,
        .synthesize "B" .implicitParticipant, .connect message] := by
    decide +kernel
  have hold : (empty.run [.declare first]).nodes.get? second.id = some first := by decide +kernel
  obtain ⟨-, hnew⟩ := (scan_discards_nothing hsteps).1 second _ first rfl hold
  exact ⟨hsteps, hold, hnew⟩

end Dialect

end TextDiagram
