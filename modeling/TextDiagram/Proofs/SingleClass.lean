import TextDiagram.Proofs.ClassAssembly

/-!
# Classes that are declared once

Of a class that is declared once, without a label and without a stereotype beside its name, only the
items count that it is given, in their order. It makes no difference which of them stand in the body
of the declaration and which behind it, and other classes are not touched by it.
-/

namespace TextDiagram

theorem Graph.eq_of_nodes_of_edges {g h : Graph} (hnodes : g.nodes = h.nodes)
    (hedges : g.edges = h.edges) : g = h := by
  cases g
  cases h
  exact congrArg₂ mk hnodes hedges

namespace Class

/-! ### Graphs of fragments -/

theorem values_run_steps (fs : List Fragment) :
    (Assembly.empty.run (steps fs)).nodes.values = (classIds fs).map (classOf fs) := by
  rw [← keys_run_steps]
  apply OrderedMap.values_eq_map (Assembly.coherent_run_empty _).keys_nodup
  intro id hid
  rw [keys_run_steps] at hid
  exact get?_run_steps fs hid

theorem scan_eq_run (source : List Char) :
    Dialect.classes.scan source = Assembly.empty.run (steps (fragments source)) := rfl

/-- Texts that tell of the same classes and relations have the same graph. -/
theorem graph_congr {s t : List Char} (hids : classIds (fragments s) = classIds (fragments t))
    (hclass : classOf (fragments s) = classOf (fragments t))
    (hrelations : relations (fragments s) = relations (fragments t)) :
    Dialect.classes.graph s = Dialect.classes.graph t := by
  refine Graph.eq_of_nodes_of_edges ?_ ?_
  · simp only [Dialect.graph_nodes, Assembly.endpoints, scan_eq_run, values_run_steps,
      keys_run_steps, edges_run_steps, hids, hclass, hrelations]
  · simp only [Dialect.graph_edges, scan_eq_run, edges_run_steps, hrelations]

theorem node?_graph {source : List Char} {id : String} (hid : id ∈ classIds (fragments source)) :
    (Dialect.classes.graph source).node? id = some (classOf (fragments source) id) := by
  refine Dialect.node?_graph ?_ rfl
  rw [scan_eq_run, values_run_steps]
  exact List.mem_map_of_mem hid

/-! ### Classes that are declared once -/

/-- Whether the fragment tells of the class. -/
def Fragment.describes (id : String) : Fragment → Bool
  | declaration d => d.id == id
  | stereotyped i _ => i == id
  | member i _ => i == id
  | directive | relation _ => false

/-- A class is declared with some of its items in its body, and the others right behind it. -/
def declaredOnce (before : List Fragment) (id : String) (inside outside : List BodyItem)
    (behind : List Fragment) : List Fragment :=
  before ++ .declaration ⟨id, none, none, inside⟩ :: (outside.map (.member id) ++ behind)

theorem filter_filterMap_eq_nil {α : Type} {part? : Fragment → Option α} {owner : α → String}
    (hpart : ∀ f a, part? f = some a → f.describes (owner a) = true) {fs : List Fragment}
    {id : String} (hfs : ∀ f ∈ fs, f.describes id = false) :
    (fs.filterMap part?).filter (fun a => owner a = id) = [] := by
  rw [List.filter_eq_nil_iff]
  intro a ha howner
  obtain ⟨f, hf, hfa⟩ := List.mem_filterMap.mp ha
  have hyes := hpart f a hfa
  rw [of_decide_eq_true howner, hfs f hf] at hyes
  exact Bool.false_ne_true hyes

theorem filter_map_mk {α : Type} (id i : String) (xs : List α) :
    (xs.map fun x => (id, x)).filter (fun p => p.1 = i) =
      if id = i then xs.map fun x => (id, x) else [] := by
  rw [List.filter_map]
  by_cases h : id = i <;> simp [Function.comp_def, h]

theorem map_snd_map_mk {α : Type} (id : String) (xs : List α) :
    (xs.map fun x => (id, x)).map Prod.snd = xs := by
  rw [List.map_map]
  exact List.map_id xs

theorem filter_flatMap_stereotypes (ds : List Declaration) (id : String) :
    (ds.flatMap Declaration.stereotypes).filter (fun s => s.1 = id) =
      (ds.filter fun d => d.id = id).flatMap Declaration.stereotypes := by
  induction ds with
  | nil => rfl
  | cons d ds ih =>
      rw [List.flatMap_cons, List.filter_append, ih, Declaration.stereotypes, filter_map_mk]
      by_cases hd : d.id = id <;> simp [Declaration.stereotypes, hd]

section DeclaredOnce

variable {before behind : List Fragment} {id : String} (inside outside : List BodyItem)

theorem declarations_declaredOnce :
    declarations (declaredOnce before id inside outside behind) =
      declarations before ++ ⟨id, none, none, inside⟩ :: declarations behind := by
  simp [declarations, declaredOnce, Fragment.declaration?]

theorem relations_declaredOnce :
    relations (declaredOnce before id inside outside behind) =
      relations before ++ relations behind := by
  simp [relations, declaredOnce, List.filterMap_cons, Fragment.relation?]

theorem members_declaredOnce :
    members (declaredOnce before id inside outside behind) =
      members before ++ ((outside.map fun item => (id, item)) ++ members behind) := by
  simp [members, declaredOnce, List.filterMap_cons, Fragment.member?, List.filterMap_map,
    Function.comp_def]

theorem filterMap_stereotype?_declaredOnce :
    (declaredOnce before id inside outside behind).filterMap Fragment.stereotype? =
      before.filterMap Fragment.stereotype? ++
        (((outside.filterMap BodyItem.stereotypeText?).map fun text => (id, text)) ++
          behind.filterMap Fragment.stereotype?) := by
  have hmembers : (outside.map (Fragment.member id)).filterMap Fragment.stereotype? =
      (outside.filterMap BodyItem.stereotypeText?).map fun text => (id, text) := by
    rw [List.filterMap_map, List.map_filterMap]
    apply List.filterMap_congr
    intro item _
    cases item <;> rfl
  simp [declaredOnce, List.filterMap_cons, Fragment.stereotype?, hmembers]

/-- Which of its items stand in the body makes no difference for the classes that there are. -/
theorem classIds_declaredOnce :
    classIds (declaredOnce before id inside outside behind) =
      classIds (declaredOnce before id (inside ++ outside) [] behind) := by
  let ids := (declarations before).map Declaration.id ++
    id :: (declarations behind).map Declaration.id
  have hids : ∀ inside outside : List BodyItem,
      (declarations (declaredOnce before id inside outside behind)).map Declaration.id = ids := by
    intro inside outside
    rw [declarations_declaredOnce, List.map_append, List.map_cons]
  have hmembers :
      ((members (declaredOnce before id inside outside behind)).map Prod.fst).removeAll ids =
        ((members (declaredOnce before id (inside ++ outside) [] behind)).map
          Prod.fst).removeAll ids := by
    simp [members_declaredOnce, List.removeAll, ids]
  rw [classIds, classIds, hids, hids, hmembers]

theorem mem_classIds_declaredOnce :
    id ∈ classIds (declaredOnce before id inside outside behind) := by
  simp [classIds, declarations_declaredOnce]

/-- Of other classes is said what is said without the declaration. -/
theorem classOf_declaredOnce_of_ne {i : String} (hi : i ≠ id) :
    classOf (declaredOnce before id inside outside behind) i = classOf (before ++ behind) i := by
  have hdeclarations : (declarations (declaredOnce before id inside outside behind)).filter
      (fun d => d.id = i) = (declarations (before ++ behind)).filter fun d => d.id = i := by
    rw [declarations_declaredOnce, declarations, declarations, declarations]
    simp [Ne.symm hi]
  have hmembers : (members (declaredOnce before id inside outside behind)).filter
      (fun m => m.1 = i) = (members (before ++ behind)).filter fun m => m.1 = i := by
    rw [members_declaredOnce, members, members, members, List.filter_append, List.filter_append,
      filter_map_mk, if_neg (Ne.symm hi), List.nil_append, List.filterMap_append,
      List.filter_append]
  have hstereotypes : (stereotypes (declaredOnce before id inside outside behind)).filter
      (fun s => s.1 = i) = (stereotypes (before ++ behind)).filter fun s => s.1 = i := by
    rw [stereotypes, stereotypes, List.filter_append, List.filter_append,
      filter_flatMap_stereotypes, filter_flatMap_stereotypes, hdeclarations,
      filterMap_stereotype?_declaredOnce, List.filter_append, List.filter_append, filter_map_mk,
      if_neg (Ne.symm hi), List.nil_append, List.filterMap_append, List.filter_append]
  rw [classOf, classOf, itemsOf, itemsOf, hdeclarations, hmembers, hstereotypes]

/-- Where nothing else is said of a class, it is what its items make of it. -/
theorem classOf_declaredOnce_self (hother : ∀ f ∈ before ++ behind, f.describes id = false) :
    classOf (declaredOnce before id inside outside behind) id =
      { classNode id id (inside ++ outside) with
        stereotype := ((inside ++ outside).filterMap BodyItem.stereotypeText?).getLast? } := by
  obtain ⟨hbefore, hbehind⟩ := List.forall_mem_append.mp hother
  have hdeclarations : (declarations (declaredOnce before id inside outside behind)).filter
      (fun d => d.id = id) = [⟨id, none, none, inside⟩] := by
    have hpart : ∀ f d, Fragment.declaration? f = some d → f.describes d.id = true := by
      rintro (_ | d | _ | _ | _) d ⟨⟩
      exact beq_self_eq_true d.id
    rw [declarations_declaredOnce, declarations, declarations, List.filter_append,
      filter_filterMap_eq_nil hpart hbefore, List.filter_cons,
      filter_filterMap_eq_nil hpart hbehind]
    simp
  have hmembers : (members (declaredOnce before id inside outside behind)).filter
      (fun m => m.1 = id) = outside.map fun item => (id, item) := by
    have hpart : ∀ f m, Fragment.member? f = some m → f.describes m.1 = true := by
      rintro (_ | _ | _ | _ | ⟨i, item⟩) m ⟨⟩
      exact beq_self_eq_true i
    rw [members_declaredOnce, members, members, List.filter_append, List.filter_append,
      filter_filterMap_eq_nil hpart hbefore, filter_filterMap_eq_nil hpart hbehind, filter_map_mk,
      if_pos rfl, List.nil_append, List.append_nil]
  have hstereotypes : (stereotypes (declaredOnce before id inside outside behind)).filter
      (fun s => s.1 = id) =
        ((inside ++ outside).filterMap BodyItem.stereotypeText?).map fun text => (id, text) := by
    have hpart : ∀ f s, Fragment.stereotype? f = some s → f.describes s.1 = true := by
      rintro (_ | _ | _ | _ | ⟨i, (_ | _ | _)⟩) s ⟨⟩ <;> simp [Fragment.describes]
    rw [stereotypes, List.filter_append, filter_flatMap_stereotypes, hdeclarations,
      filterMap_stereotype?_declaredOnce, List.filter_append, List.filter_append,
      filter_filterMap_eq_nil hpart hbefore, filter_filterMap_eq_nil hpart hbehind, filter_map_mk,
      if_pos rfl, List.filterMap_append, List.map_append]
    simp [Declaration.stereotypes]
  have hitems : itemsOf (declaredOnce before id inside outside behind) id = inside ++ outside := by
    rw [itemsOf, hdeclarations, hmembers, map_snd_map_mk, List.flatMap_singleton]
  rw [classOf, hitems, hdeclarations, hstereotypes, map_snd_map_mk]
  rfl

/-- A class of which nothing else is said is the same whether its items stand in its body or behind
its declaration. -/
theorem graph_eq_of_declaredOnce {s t : List Char}
    (hother : ∀ f ∈ before ++ behind, f.describes id = false)
    (hs : fragments s = declaredOnce before id inside outside behind)
    (ht : fragments t = declaredOnce before id (inside ++ outside) [] behind) :
    Dialect.classes.graph s = Dialect.classes.graph t := by
  refine graph_congr ?_ ?_ ?_
  · rw [hs, ht]
    exact classIds_declaredOnce inside outside
  · funext i
    rw [hs, ht]
    by_cases hi : i = id
    · subst hi
      rw [classOf_declaredOnce_self _ _ hother, classOf_declaredOnce_self _ _ hother,
        List.append_nil]
    · rw [classOf_declaredOnce_of_ne _ _ hi, classOf_declaredOnce_of_ne _ _ hi]
  · rw [hs, ht, relations_declaredOnce, relations_declaredOnce]

end DeclaredOnce

end Class

end TextDiagram
