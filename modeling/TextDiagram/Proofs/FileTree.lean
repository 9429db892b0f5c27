import Mathlib.Data.List.Infix
import TextDiagram.Files.Tree

/-!
# Writing a file

A file is written into a directory that is there, so writing it makes no directory. Following a path
only looks at directories and never at the file that is written. So all other places are as they
were, and the path that was given leads to the file.
-/

namespace TextDiagram.Files.Tree

variable {t : Tree} {path text : String} {place other : Place}

/-! ### Places on the way to others -/

end TextDiagram.Files.Tree
