import TextDiagram.Assembly.Step
import TextDiagram.Class.Statement

/-!
# Reading a class diagram

Classes are declared first, then relations connect them, then the members that stand outside of
class bodies are added, and at last each stereotype is given to its class.
-/

namespace TextDiagram.Class

namespace BodyItem

def field? : BodyItem → Option Member
  | field m => some m
  | _ => none

def method? : BodyItem → Option Member
  | method m => some m
  | _ => none

def stereotypeText? : BodyItem → Option String
  | stereotype text => some text
  | _ => none

end BodyItem

/-- A class with the members among the items. -/
def classNode (id label : String) (items : List BodyItem) : Node where
  id
  label
  kind := .classifier
  attributes := items.filterMap BodyItem.field?
  methods := items.filterMap BodyItem.method?

namespace Declaration

def node (d : Declaration) : Node :=
  classNode d.id (d.label.getD d.id) d.body

/-- The stereotype beside the name comes before those in the body. -/
def stereotypes (d : Declaration) : List (String × String) :=
  (d.stereotype.toList ++ d.body.filterMap BodyItem.stereotypeText?).map fun text => (d.id, text)

end Declaration

def Relation.edge (r : Relation) : Edge where
  source := r.source
  target := r.target
  kind := r.operator.kind
  label := r.label

namespace Fragment

def declaration? : Fragment → Option Declaration
  | declaration d => some d
  | _ => none

def relation? : Fragment → Option Relation
  | relation r => some r
  | _ => none

def member? : Fragment → Option (String × BodyItem)
  | member id item => some (id, item)
  | _ => none

/-- The stereotypes that are not part of a declaration. -/
def stereotype? : Fragment → Option (String × String)
  | member id (.stereotype text) => some (id, text)
  | stereotyped id text => some (id, text)
  | _ => none

end Fragment

def declarations (fragments : List Fragment) : List Declaration :=
  fragments.filterMap Fragment.declaration?

def relations (fragments : List Fragment) : List Relation :=
  fragments.filterMap Fragment.relation?

def members (fragments : List Fragment) : List (String × BodyItem) :=
  fragments.filterMap Fragment.member?

/-- Each class with a stereotype for it; the last one for a class counts. -/
def stereotypes (fragments : List Fragment) : List (String × String) :=
  (declarations fragments).flatMap Declaration.stereotypes ++
    fragments.filterMap Fragment.stereotype?

def steps (fragments : List Fragment) : List Step :=
  (declarations fragments).map (fun d => .declare d.node) ++
    (relations fragments).map (fun r => .connect r.edge) ++
    (members fragments).map (fun (id, item) => .declare (classNode id id [item])) ++
    (stereotypes fragments).map fun (id, text) => .stereotype id text

end TextDiagram.Class
