/-!
# Kinds of nodes and edges

The closed sets of node kinds, edge kinds and member visibilities, each with its written name.
-/

namespace TextDiagram

inductive NodeKind where
  /-- A flowchart box declared with a label. -/
  | node
  /-- An endpoint of an edge that is never declared. -/
  | implicit
  | actor
  | participant
  /-- A sequence role first named by a message. -/
  | implicitParticipant
  | classifier
  | noteOver
  | noteBetween
  deriving DecidableEq, Repr

namespace NodeKind

def all : List NodeKind :=
  [node, implicit, actor, participant, implicitParticipant, classifier, noteOver, noteBetween]

def name : NodeKind → String
  | node => "node"
  | implicit => "implicit"
  | actor => "actor"
  | participant => "participant"
  | implicitParticipant => "implicit_participant"
  | classifier => "class"
  | noteOver => "note_over"
  | noteBetween => "note_between"

def ofName? (s : String) : Option NodeKind :=
  all.find? fun k => k.name == s

@[simp] theorem ofName?_name (k : NodeKind) : ofName? k.name = some k := by
  cases k <;> decide

/-- The kinds of nodes that stand for a reference and not for a declaration. -/
def isImplicit : NodeKind → Bool
  | implicit | implicitParticipant => true
  | _ => false

end NodeKind

inductive EdgeKind where
  | solid
  | dashed
  | thick
  | sync
  | async
  | lost
  | inheritance
  | composition
  | aggregation
  | dependency
  | association
  | dotted
  | realization
  deriving DecidableEq, Repr

namespace EdgeKind

def all : List EdgeKind :=
  [solid, dashed, thick, sync, async, lost, inheritance, composition, aggregation, dependency,
    association, dotted, realization]

def name : EdgeKind → String
  | solid => "solid"
  | dashed => "dashed"
  | thick => "thick"
  | sync => "sync"
  | async => "async"
  | lost => "lost"
  | inheritance => "inheritance"
  | composition => "composition"
  | aggregation => "aggregation"
  | dependency => "dependency"
  | association => "association"
  | dotted => "dotted"
  | realization => "realization"

def ofName? (s : String) : Option EdgeKind :=
  all.find? fun k => k.name == s

@[simp] theorem ofName?_name (k : EdgeKind) : ofName? k.name = some k := by
  cases k <;> decide

end EdgeKind

inductive Visibility where
  | pub
  | priv
  | prot
  | pkg
  deriving DecidableEq, Repr

namespace Visibility

def all : List Visibility :=
  [pub, priv, prot, pkg]

def name : Visibility → String
  | pub => "public"
  | priv => "private"
  | prot => "protected"
  | pkg => "package"

def ofName? (s : String) : Option Visibility :=
  all.find? fun v => v.name == s

@[simp] theorem ofName?_name (v : Visibility) : ofName? v.name = some v := by
  cases v <;> decide

/-- The character in front of a member that sets its visibility. -/
def sigil : Visibility → Char
  | pub => '+'
  | priv => '-'
  | prot => '#'
  | pkg => '~'

def ofSigil? (c : Char) : Option Visibility :=
  all.find? fun v => v.sigil == c

@[simp] theorem ofSigil?_sigil (v : Visibility) : ofSigil? v.sigil = some v := by
  cases v <;> decide

end Visibility

end TextDiagram
