import SourceAudit.Pattern.Lemmas
import SourceAudit.Command.Run
import SourceAudit.Main
import SourceAudit.Proofs.Ignore.Below
import SourceAudit.Proofs.Ignore.Coverage
import SourceAudit.Proofs.Ignore.Segments
import SourceAudit.Proofs.Ignore.Relocation
import SourceAudit.Proofs.Ignore.Scoping
import SourceAudit.Proofs.Ignore.Heredity
import SourceAudit.Proofs.Discovery.Pruning
import SourceAudit.Proofs.Names.Bodies
import SourceAudit.Proofs.Names.Occurrences
import SourceAudit.Proofs.Files.Order
import SourceAudit.Proofs.Ignore.Precedence
import SourceAudit.Proofs.Report.Range
import SourceAudit.Proofs.Names.Blocks
import SourceAudit.Proofs.Report.Leniency
import SourceAudit.Proofs.Discovery.Walk
import SourceAudit.Proofs.Ignore.Faults
import SourceAudit.Proofs.Command.Loading
import SourceAudit.Proofs.Command.Completion
import SourceAudit.Proofs.Plausibility.Nesting
import SourceAudit.Proofs.Report.Consistency
import SourceAudit.Proofs.Text.Lines
import SourceAudit.Proofs.Pattern.Rounds
import SourceAudit.Proofs.Growth.Loops
import SourceAudit.Proofs.Growth.Indentation
import SourceAudit.Proofs.Growth.BlankLines
import SourceAudit.Proofs.Discovery.Independence
import SourceAudit.Proofs.Command.Entries
import SourceAudit.Proofs.Files.Trees
import SourceAudit.Proofs.Text.Words
import SourceAudit.Proofs.Names.Introduced
import SourceAudit.Proofs.Plausibility.CommonErrors
import SourceAudit.Proofs.Plausibility.Conditions
import SourceAudit.Proofs.Pattern.Outermost
import SourceAudit.Proofs.Header.Nesting
import SourceAudit.Proofs.Header.Kinds
import SourceAudit.Proofs.Plausibility.ProperNames
import SourceAudit.Proofs.Names.Parameters
import SourceAudit.Proofs.Names.Targets
import SourceAudit.Proofs.Text.Strip
import SourceAudit.Proofs.Pattern.Visits
import SourceAudit.Proofs.Names.Bindings
import SourceAudit.Proofs.Names.Openings
import SourceAudit.Proofs.Names.LoopLines
import SourceAudit.Proofs.Ignore.Decision
import SourceAudit.Proofs.Ignore.Trimming
import SourceAudit.Proofs.Ignore.Confinement
import SourceAudit.Proofs.Ignore.Wildcards
import SourceAudit.Proofs.Ignore.Literal
import SourceAudit.Proofs.Ignore.Composition
import SourceAudit.Proofs.Pattern.Context
import SourceAudit.Proofs.Report.Surroundings
import SourceAudit.Proofs.Pattern.Counting
import SourceAudit.Proofs.Pattern.WordRuns
import SourceAudit.Proofs.Pattern.LineBound
import SourceAudit.Proofs.Pattern.Keywords
import SourceAudit.Proofs.Report.Totality
import SourceAudit.Proofs.Metrics.Counts
import SourceAudit.Proofs.Metrics.Shares
import SourceAudit.Proofs.Metrics.Headers
import SourceAudit.Proofs.Command.Threshold
import SourceAudit.Proofs.Output.Pictures
import SourceAudit.Proofs.Output.Drawing
import SourceAudit.Proofs.Output.Document
import SourceAudit.Proofs.Files.Writing
import SourceAudit.Proofs.Text.Utf8
import SourceAudit.Proofs.Command.Streams
import SourceAudit.Proofs.Files.Kept
import SourceAudit.Proofs.Command.Failures
