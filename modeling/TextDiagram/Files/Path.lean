/-!
# Paths

A path is a text of names with slashes between them. Empty names say nothing, and a single point
only asks for a directory.
-/

namespace TextDiagram.Files

/-- What stands between the slashes of a path, from the outermost on. -/
def segments (path : String) : List (List Char) :=
  (path.toList.splitOn '/').filter fun name => !name.isEmpty

/-- The names of a path, without single points. -/
def pathNames (path : String) : List (List Char) :=
  (segments path).filter fun name => name != ['.']

def startsInSlash (path : String) : Bool :=
  path.toList.head? == some '/'

def endsInSlash (path : String) : Bool :=
  path.toList.getLast? == some '/'

/-- The last name of a path, unless it leads upward. -/
def fileName? (path : String) : Option (List Char) :=
  (pathNames path).getLast?.filter fun name => name != ['.', '.']

/-- The part of the last name behind its last point. A point in front of the whole name does not
count. -/
def extension? (path : String) : Option (List Char) := do
  let name ← fileName? path
  let reversed := name.reverse
  let stem := (reversed.dropWhile fun c => c != '.').drop 1
  if stem.isEmpty then none else some (reversed.takeWhile fun c => c != '.').reverse

/-- Equality up to the case of the letters of ASCII. -/
def equalUpToCase (a b : List Char) : Bool :=
  a.map Char.toLower == b.map Char.toLower

end TextDiagram.Files
