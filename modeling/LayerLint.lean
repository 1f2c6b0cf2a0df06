import LayerLint.Arguments
import LayerLint.Command.Cleanup
import LayerLint.Command.Manager
import LayerLint.Command.Package
import LayerLint.Command.Phrase
import LayerLint.Command.Shell
import LayerLint.Decimal
import LayerLint.Decimal.Fraction
import LayerLint.Decimal.Shortest
import LayerLint.Dockerfile
import LayerLint.Dockerfile.Directive
import LayerLint.Dockerfile.Image
import LayerLint.Dockerfile.Instruction
import LayerLint.Dockerfile.LogicalLine
import LayerLint.Dockerfile.Stage
import LayerLint.Estimate
import LayerLint.FileTree
import LayerLint.History
import LayerLint.History.Size
import LayerLint.Json
import LayerLint.Json.StringList
import LayerLint.Log
import LayerLint.Main
import LayerLint.Output
import LayerLint.Output.Document
import LayerLint.Output.Paint
import LayerLint.Output.Render
import LayerLint.Output.Terminal
import LayerLint.Proofs.ArgumentWords
import LayerLint.Proofs.CanonicalOrder
import LayerLint.Proofs.Chain
import LayerLint.Proofs.ChainReadings
import LayerLint.Proofs.Citations
import LayerLint.Proofs.CleanedRun
import LayerLint.Proofs.Codes
import LayerLint.Proofs.Colours
import LayerLint.Proofs.Concatenation
import LayerLint.Proofs.ContinuedLines
import LayerLint.Proofs.CopiedModules
import LayerLint.Proofs.CopyArray
import LayerLint.Proofs.CopyBlocks
import LayerLint.Proofs.Correspondence
import LayerLint.Proofs.CountedPackages
import LayerLint.Proofs.Doubles
import LayerLint.Proofs.ExecForm
import LayerLint.Proofs.ExitStatus
import LayerLint.Proofs.FinalStage
import LayerLint.Proofs.FromClause
import LayerLint.Proofs.Grouping
import LayerLint.Proofs.HistoryLines
import LayerLint.Proofs.HistoryReport
import LayerLint.Proofs.ImageReference
import LayerLint.Proofs.Ink
import LayerLint.Proofs.InstallTable
import LayerLint.Proofs.InstructionLine
import LayerLint.Proofs.Layout
import LayerLint.Proofs.LineGroups
import LayerLint.Proofs.LogicalLines
import LayerLint.Proofs.MergedCopy
import LayerLint.Proofs.MergedFlags
import LayerLint.Proofs.MergedRun
import LayerLint.Proofs.MountedRun
import LayerLint.Proofs.Order
import LayerLint.Proofs.Parse
import LayerLint.Proofs.PhraseGrammar
import LayerLint.Proofs.RepeatedInstalls
import LayerLint.Proofs.Rounding
import LayerLint.Proofs.ShownSizes
import LayerLint.Proofs.SizeGrammar
import LayerLint.Proofs.SourceLines
import LayerLint.Proofs.SourceText
import LayerLint.Proofs.Spacing
import LayerLint.Proofs.Splice
import LayerLint.Proofs.SplicePoint
import LayerLint.Proofs.Stages
import LayerLint.Proofs.StringList
import LayerLint.Proofs.Text
import LayerLint.Proofs.VerbatimCommand
import LayerLint.Proofs.Wrapping
import LayerLint.Report
import LayerLint.Rule
import LayerLint.Rule.CacheMount
import LayerLint.Rule.CombineCopies
import LayerLint.Rule.CombineInstalls
import LayerLint.Rule.CopyOrder
import LayerLint.Rule.LongRun
import LayerLint.Rule.MissingCleanup
import LayerLint.Rule.MultiStage
import LayerLint.Rule.PreferCopy
import LayerLint.Rule.Registry
import LayerLint.Rule.SeparateUpdate
import LayerLint.Rule.WholeContext
import LayerLint.Rule.WorkdirPosition
import LayerLint.Run
import LayerLint.Settings
import LayerLint.Settings.Load
import LayerLint.Severity
import LayerLint.Suggestion
import LayerLint.Text
import LayerLint.Text.Blank
import LayerLint.Text.Lines
import LayerLint.Text.Quoted
import LayerLint.Text.Ranges
import LayerLint.Text.Visible
import LayerLint.Text.Word
import LayerLint.Toml
import LayerLint.Toml.Scalar
import LayerLint.Toml.Strings
import LayerLint.Toml.Value
import LayerLint.World
