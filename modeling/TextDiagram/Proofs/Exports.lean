import TextDiagram.Export
import TextDiagram.Proofs.JsonText

/-!
# What exports reveal

What is left out of an object is exactly what is read as empty or missing. So a graph is read back
from its full export, whatever texts it holds, and a graph of ids, labels and ends from its wire
export. The text of a full export belongs to one graph only. The text of a wire export is the same
for all graphs that differ in nothing but what it leaves out.
-/

namespace TextDiagram

namespace Json

variable {α : Type} {j : Json} {key name : String}

/-! ### Fields -/

@[simp]
theorem field?_append (xs ys : List (String × Json)) :
    (object (xs ++ ys)).field? key = ((object ys).field? key).or ((object xs).field? key) := by
  simp only [field?, List.reverse_append, List.find?_append]
  cases ys.reverse.find? fun f => f.1 == key <;> rfl

@[simp]
theorem field?_nil : (object []).field? key = none :=
  rfl

@[simp]
theorem field?_cons (v : Json) (fields : List (String × Json)) :
    (object ((name, v) :: fields)).field? key =
      ((object fields).field? key).or (if name = key then some v else none) := by
  rw [← List.singleton_append, field?_append]
  by_cases hname : name = key <;> simp [field?, hname]

@[simp]
theorem field?_listField (f : α → Json) (as : List α) :
    (object (listField name f as)).field? key =
      if name = key then if as = [] then none else some (ofList f as) else none := by
  cases as <;> simp [listField]

@[simp]
theorem field?_textField (s : Option String) :
    (object (textField name s)).field? key = if name = key then s.map string else none := by
  cases s <;> simp [textField]

variable {read : Json → Option α} {f : α → Json}

theorem list?_ofList (as : List α) (hread : ∀ a ∈ as, read (f a) = some a) :
    (ofList f as).list? read = some as := by
  change (as.map f).mapM read = some as
  induction as with
  | nil => rfl
  | cons a as ih =>
      obtain ⟨ha, has⟩ := List.forall_mem_cons.mp hread
      simp [ha, ih has]

theorem default?_listField {as : List α} (hread : ∀ a ∈ as, read (f a) = some a)
    (h : j.field? key = if as = [] then none else some (ofList f as)) :
    j.default? key [] (list? read) = some as := by
  cases as with
  | nil => rw [default?, h, if_pos rfl]
  | cons a as =>
      rw [default?, h, if_neg (List.cons_ne_nil a as)]
      exact list?_ofList (a :: as) hread

theorem default?_textField {s : Option String} (h : j.field? key = s.map string) :
    j.default? key none (nullable? string?) = some s := by
  rw [default?, h]
  cases s <;> rfl

/-! ### Values without numbers -/

theorem legible_ofList (as : List α) (hf : ∀ a ∈ as, (f a).Legible) :
    (ofList f as).Legible := by
  change itemNumbersAll _ (as.map f) = true
  induction as with
  | nil => rfl
  | cons a as ih =>
      obtain ⟨ha, has⟩ := List.forall_mem_cons.mp hf
      exact Bool.and_eq_true_iff.mpr ⟨ha, ih has⟩

theorem legible_object_append {xs ys : List (String × Json)} (hxs : (object xs).Legible)
    (hys : (object ys).Legible) : (object (xs ++ ys)).Legible := by
  induction xs with
  | nil => exact hys
  | cons field xs ih =>
      obtain ⟨hv, hxs⟩ := Bool.and_eq_true_iff.mp hxs
      exact Bool.and_eq_true_iff.mpr ⟨hv, ih hxs⟩

theorem legible_listField (name : String) (as : List α) (hf : ∀ a ∈ as, (f a).Legible) :
    (object (listField name f as)).Legible := by
  cases as with
  | nil => rfl
  | cons a as => exact Bool.and_eq_true_iff.mpr ⟨legible_ofList (a :: as) hf, rfl⟩

theorem legible_textField (name : String) (s : Option String) : (object (textField name s)).Legible := by
  cases s <;> rfl

end Json

open Json

/-! ### Full exports -/

namespace Member

theorem ofJson?_toJson (m : Member) : ofJson? m.toJson = some m := by
  simp [ofJson?, toJson, required?, string?, Visibility.ofJson?]

theorem legible_toJson (m : Member) : m.toJson.Legible :=
  rfl

end Member

namespace Node

variable (n : Node)

theorem ofJson?_toJson : ofJson? n.toJson = some n := by
  have hrecord : n.toJson.record? .json
      ["id", "label", "type", "attributes", "methods", "stereotype", "participants"] =
      some n.toJson := record?_json_object ..
  have hid : n.toJson.required? "id" string? = some n.id := by
    simp [toJson, required?, string?]
  have hlabel : n.toJson.required? "label" string? = some n.label := by
    simp [toJson, required?, string?]
  have hkind : n.toJson.required? "type" NodeKind.ofJson? = some n.kind := by
    simp [toJson, required?, NodeKind.ofJson?]
  have hattributes : n.toJson.default? "attributes" [] (list? Member.ofJson?) =
      some n.attributes := by
    apply default?_listField fun m _ => m.ofJson?_toJson
    simp [toJson]
  have hmethods : n.toJson.default? "methods" [] (list? Member.ofJson?) = some n.methods := by
    apply default?_listField fun m _ => m.ofJson?_toJson
    simp [toJson]
  have hstereotype : n.toJson.default? "stereotype" none (nullable? string?) =
      some n.stereotype := by
    apply default?_textField
    simp [toJson]
  have hparticipants : n.toJson.default? "participants" [] (list? string?) =
      some n.participants := by
    apply default?_listField (f := Json.string) fun _ _ => rfl
    simp [toJson]
  simp [ofJson?, hrecord, hid, hlabel, hkind, hattributes, hmethods, hstereotype, hparticipants]

theorem legible_toJson : n.toJson.Legible := by
  have hattributes := legible_listField "attributes" n.attributes fun m _ => m.legible_toJson
  have hmethods := legible_listField "methods" n.methods fun m _ => m.legible_toJson
  have hstereotype := legible_textField "stereotype" n.stereotype
  have hparticipants : (object (listField "participants" Json.string n.participants)).Legible :=
    legible_listField "participants" n.participants fun _ _ => rfl
  apply legible_object_append _ hparticipants
  apply legible_object_append _ hstereotype
  apply legible_object_append _ hmethods
  exact legible_object_append rfl hattributes

end Node

namespace Edge

variable (e : Edge)

theorem ofJson?_toJson : ofJson? e.toJson = some e := by
  have hrecord : e.toJson.record? .json ["source", "target", "label", "type"] = some e.toJson :=
    record?_json_object ..
  have hsource : e.toJson.required? "source" string? = some e.source := by
    simp [toJson, required?, string?]
  have htarget : e.toJson.required? "target" string? = some e.target := by
    simp [toJson, required?, string?]
  have hkind : e.toJson.required? "type" EdgeKind.ofJson? = some e.kind := by
    simp [toJson, required?, EdgeKind.ofJson?]
  have hlabel : e.toJson.default? "label" none (nullable? string?) = some e.label := by
    apply default?_textField
    simp [toJson]
  simp [ofJson?, hrecord, hsource, htarget, hkind, hlabel]

theorem legible_toJson : e.toJson.Legible := by
  apply legible_object_append
  · exact legible_object_append rfl (legible_textField _ _)
  · rfl

end Edge

namespace Graph

theorem ofJson?_toJson (g : Graph) : ofJson? g.toJson = some g := by
  have hnodes := list?_ofList g.nodes fun n _ => n.ofJson?_toJson
  have hedges := list?_ofList g.edges fun e _ => e.ofJson?_toJson
  simp [ofJson?, toJson, required?, hnodes, hedges]

theorem legible_toJson (g : Graph) : g.toJson.Legible := by
  have hnodes := legible_ofList g.nodes fun n _ => n.legible_toJson
  have hedges := legible_ofList g.edges fun e _ => e.legible_toJson
  exact Bool.and_eq_true_iff.mpr ⟨hnodes, Bool.and_eq_true_iff.mpr ⟨hedges, rfl⟩⟩

/-- A graph is read back from its full export, compact or pretty, and no other graph has either
text. -/
theorem exportText_full_lossless (g : Graph) (isPretty : Bool) :
    (ofText? (g.exportText ⟨.full, isPretty⟩)).bind ofJson? = some g ∧
      ∀ (h : Graph) (isPretty' : Bool),
        g.exportText ⟨.full, isPretty⟩ = h.exportText ⟨.full, isPretty'⟩ → g = h := by
  have hread : ∀ (h : Graph) (isPretty' : Bool),
      (ofText? (h.exportText ⟨.full, isPretty'⟩)).bind ofJson? = some h := by
    intro h isPretty'
    rw [exportText, ofText?_render isPretty' h.legible_toJson, Option.bind_some, ofJson?_toJson]
  refine ⟨hread g isPretty, ?_⟩
  intro h isPretty' htext
  apply Option.some.inj
  rw [← hread g isPretty, htext, hread]

end Graph

/-! ### Wire exports -/

theorem map_eq_map_iff_of_eq_iff {α β γ : Type} {f : α → β} {g : α → γ}
    (h : ∀ a b, f a = f b ↔ g a = g b) {as bs : List α} :
    as.map f = bs.map f ↔ as.map g = bs.map g := by
  induction as generalizing bs with
  | nil => simp
  | cons a as ih => cases bs <;> simp [h, ih]

namespace Wire

theorem Node.ofJson?_toJson_ofNode (n : TextDiagram.Node) :
    ofJson? (ofNode n).toJson = some (ofNode n) := by
  simp [ofNode, ofJson?, toJson, required?, default?, string?]

theorem Node.legible_toJson_ofNode (n : TextDiagram.Node) : (ofNode n).toJson.Legible :=
  rfl

theorem Node.ofNode_eq_iff (n m : TextDiagram.Node) :
    ofNode n = ofNode m ↔ (n.id, n.label) = (m.id, m.label) := by
  simp [ofNode]

namespace Edge

theorem ofEdge_eq_iff (e f : TextDiagram.Edge) :
    ofEdge e = ofEdge f ↔
      (e.source, e.target, e.label.filter fun label => label ≠ "") =
        (f.source, f.target, f.label.filter fun label => label ≠ "") := by
  have hempty : ∀ label : String, (!label.isEmpty) = decide (label ≠ "") := by
    intro label
    by_cases hlabel : label = "" <;> simp [hlabel]
  simp only [ofEdge, hempty, Wire.Edge.mk.injEq, Prod.mk.injEq]

theorem ofJson?_toJson (e : Edge) : ofJson? e.toJson = some e := by
  have hrecord : e.toJson.record? .json ["from", "to", "label"] = some e.toJson :=
    record?_json_object ..
  have hsource : e.toJson.required? "from" string? = some e.source := by
    simp [toJson, required?, string?]
  have htarget : e.toJson.required? "to" string? = some e.target := by
    simp [toJson, required?, string?]
  have hlabel : e.toJson.default? "label" none (nullable? string?) = some e.label := by
    apply default?_textField
    simp [toJson]
  simp [ofJson?, hrecord, hsource, htarget, hlabel]

theorem legible_toJson (e : Edge) : e.toJson.Legible :=
  legible_object_append rfl (legible_textField _ _)

end Edge

namespace Graph

theorem ofJson?_toJson_ofGraph (g : TextDiagram.Graph) :
    ofJson? (ofGraph g).toJson = some (ofGraph g) := by
  have hnodes : (ofList Node.toJson (ofGraph g).nodes).list? Node.ofJson? =
      some (ofGraph g).nodes := by
    apply list?_ofList
    intro n hn
    obtain ⟨m, _, rfl⟩ := List.mem_map.mp hn
    exact Node.ofJson?_toJson_ofNode m
  have hedges := list?_ofList (ofGraph g).edges fun e _ => e.ofJson?_toJson
  simp [ofJson?, toJson, required?, hnodes, hedges]

theorem legible_toJson_ofGraph (g : TextDiagram.Graph) : (ofGraph g).toJson.Legible := by
  have hnodes : (ofList Node.toJson (ofGraph g).nodes).Legible := by
    apply legible_ofList
    intro n hn
    obtain ⟨m, _, rfl⟩ := List.mem_map.mp hn
    exact Node.legible_toJson_ofNode m
  have hedges := legible_ofList (ofGraph g).edges fun e _ => e.legible_toJson
  exact Bool.and_eq_true_iff.mpr ⟨hnodes, Bool.and_eq_true_iff.mpr ⟨hedges, rfl⟩⟩

/-- A wire graph has all that the text of a wire export tells. -/
theorem render_toJson_ofGraph_eq_iff {isPretty : Bool} {g h : TextDiagram.Graph} :
    (ofGraph g).toJson.render isPretty = (ofGraph h).toJson.render isPretty ↔
      ofGraph g = ofGraph h := by
  constructor
  · intro htext
    have hread := congrArg ofText? htext
    rw [ofText?_render isPretty (legible_toJson_ofGraph g),
      ofText?_render isPretty (legible_toJson_ofGraph h)] at hread
    apply Option.some.inj
    rw [← ofJson?_toJson_ofGraph, Option.some.inj hread, ofJson?_toJson_ofGraph]
  · intro heq
    rw [heq]

end Graph

end Wire

/-- Two graphs have the same wire export exactly if their nodes have the same ids and labels and
their edges the same ends and labels, an empty label being none. -/
theorem Graph.exportText_wire_eq_iff (isPretty : Bool) (g h : Graph) :
    g.exportText ⟨.wire, isPretty⟩ = h.exportText ⟨.wire, isPretty⟩ ↔
      g.nodes.map (fun n => (n.id, n.label)) = h.nodes.map (fun n => (n.id, n.label)) ∧
      g.edges.map (fun e => (e.source, e.target, e.label.filter fun label => label ≠ "")) =
        h.edges.map fun e => (e.source, e.target, e.label.filter fun label => label ≠ "") := by
  calc g.exportText ⟨.wire, isPretty⟩ = h.exportText ⟨.wire, isPretty⟩
    _ ↔ Wire.Graph.ofGraph g = Wire.Graph.ofGraph h := Wire.Graph.render_toJson_ofGraph_eq_iff
    _ ↔ g.nodes.map Wire.Node.ofNode = h.nodes.map Wire.Node.ofNode ∧
          g.edges.map Wire.Edge.ofEdge = h.edges.map Wire.Edge.ofEdge :=
        Wire.Graph.mk.injEq .. ▸ Iff.rfl
    _ ↔ _ := and_congr (map_eq_map_iff_of_eq_iff Wire.Node.ofNode_eq_iff)
        (map_eq_map_iff_of_eq_iff Wire.Edge.ofEdge_eq_iff)

end TextDiagram
