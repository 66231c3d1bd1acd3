import SwitchCover.Build.Script
import SwitchCover.Session
import SwitchCover.Proofs.Closure
import SwitchCover.Proofs.Registry
import SwitchCover.Proofs.Traversal
import SwitchCover.Proofs.BodyGrowth
import SwitchCover.Proofs.Coverage
import SwitchCover.Proofs.ProgramValid
import SwitchCover.Proofs.Outcomes
import SwitchCover.Proofs.Changes
import SwitchCover.Proofs.DeclareSteps
import SwitchCover.Proofs.FuncSteps
import SwitchCover.Proofs.WorkspaceValid
import SwitchCover.Proofs.ScriptSteps
import SwitchCover.Proofs.SessionCache
import SwitchCover.Proofs.ReportOrder
import SwitchCover.Proofs.Findings
import SwitchCover.Proofs.WholeRuns
import SwitchCover.Proofs.RuleCorrect
import SwitchCover.Proofs.Frames
import SwitchCover.Proofs.Isolation
import SwitchCover.Proofs.Policies
import SwitchCover.Proofs.Views
import SwitchCover.Proofs.FailedCommands
import SwitchCover.Proofs.CreationOrder
import SwitchCover.Proofs.Strict
import SwitchCover.Proofs.StrictRuns
import SwitchCover.Proofs.SafeRuns
import SwitchCover.Proofs.CoverageExact
import SwitchCover.Proofs.ClosureExact
import SwitchCover.Proofs.RegistryExact
import SwitchCover.Proofs.SourceOrder
import SwitchCover.Proofs.Batches
import SwitchCover.Proofs.Stability
import SwitchCover.Proofs.Underlying
import SwitchCover.Proofs.FuncRuns
import SwitchCover.Proofs.Histories
import SwitchCover.Proofs.Folding
import SwitchCover.Proofs.FoldingRuns
import SwitchCover.Proofs.Tokens
import SwitchCover.Proofs.LevelSteps
import SwitchCover.Proofs.Spans
import SwitchCover.Proofs.Positions
import SwitchCover.Proofs.TokenSearch
import SwitchCover.Proofs.Numerals
import SwitchCover.Proofs.DistinctKeys
import SwitchCover.Proofs.ConfigEntries
import SwitchCover.Proofs.Interning
import SwitchCover.Proofs.LineTable
import SwitchCover.Proofs.LineComments
