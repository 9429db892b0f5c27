import TextDiagram.Command.Run
import TextDiagram.Command.Usage
import TextDiagram.Export
import TextDiagram.Json.Reader
import TextDiagram.Main
import TextDiagram.Parser
import TextDiagram.Report
import TextDiagram.Proofs.ClassAssembly
import TextDiagram.Proofs.FlowAssembly
import TextDiagram.Proofs.Names
import TextDiagram.Proofs.Outcome
import TextDiagram.Proofs.SequenceAssembly
import TextDiagram.Proofs.FlowWriting
import TextDiagram.Proofs.FlowHeads
import TextDiagram.Proofs.FlowNesting
import TextDiagram.Proofs.FlowSplitting
import TextDiagram.Proofs.NameForms
import TextDiagram.Proofs.SequenceWriting
import TextDiagram.Proofs.ClassWriting
import TextDiagram.Proofs.FlowShapes
import TextDiagram.Proofs.Lines
import TextDiagram.Proofs.Blocks
import TextDiagram.Proofs.ClassBodies
import TextDiagram.Proofs.Markers
import TextDiagram.Proofs.MemberForms
import TextDiagram.Proofs.InertLines
import TextDiagram.Proofs.LineEnds
import TextDiagram.Proofs.OpenBlocks
import TextDiagram.Proofs.Growth
import TextDiagram.Proofs.TypedGraphs
import TextDiagram.Proofs.Exports
import TextDiagram.Proofs.FileTree
import TextDiagram.Proofs.Run
import TextDiagram.Proofs.Configuration
import TextDiagram.Proofs.Log
import TextDiagram.Proofs.EdgeLabels
import TextDiagram.Proofs.SuppliedLabels
import TextDiagram.Proofs.History
import TextDiagram.Proofs.NoteNumbers
import TextDiagram.Proofs.Replay
import TextDiagram.Proofs.ScanHistory
import TextDiagram.Proofs.LineSlices
import TextDiagram.Proofs.BlockDivision
import TextDiagram.Proofs.ChainProgress
import TextDiagram.Proofs.ArrowGrammar
import TextDiagram.Proofs.InlineLabels
import TextDiagram.Proofs.Detection
import TextDiagram.Proofs.Layouts
import TextDiagram.Proofs.Placing
import TextDiagram.Proofs.Indexes
import TextDiagram.Proofs.LongestSpelling
