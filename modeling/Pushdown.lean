import Pushdown.Render.Stream
import Pushdown.Outline.Rendering
import Pushdown.Snapshot.Queries
import Pushdown.Settings.Reading
import Pushdown.Proofs.Orders
import Pushdown.Proofs.Flows
import Pushdown.Flow.Rows
import Pushdown.Proofs.Replay
import Pushdown.Proofs.Squashing
import Pushdown.Pipeline.Sweep
import Pushdown.Proofs.RunFusion
import Pushdown.Proofs.CanonicalForm
import Pushdown.Proofs.Absorption
import Pushdown.Proofs.Bindings
import Pushdown.Proofs.Lowering
import Pushdown.Proofs.StandardPasses
import Pushdown.Proofs.Selection
import Pushdown.Proofs.MergeSimulation
import Pushdown.Proofs.WindowArithmetic
import Pushdown.Proofs.Rendering
import Pushdown.Proofs.Terminals
import Pushdown.Proofs.RenderEquivalence
import Pushdown.Proofs.RepeatedMerges
import Pushdown.Proofs.FailureIsolation
import Pushdown.Proofs.NamedColumns
import Pushdown.Proofs.CountFastPath
import Pushdown.Proofs.Literals
import Pushdown.Proofs.RenderFailures
import Pushdown.Proofs.SingleUse
import Pushdown.Proofs.LikePatterns
import Pushdown.Proofs.PrintedComparisons
import Pushdown.Proofs.Journals
import Pushdown.Proofs.TraceProtocol
import Pushdown.Render.Session
import Pushdown.Proofs.Conservation
import Pushdown.Proofs.ExactLowering
import Pushdown.Proofs.FilterSplitting
import Pushdown.Proofs.CompletePushDown
import Pushdown.Proofs.RestrictionTexts
import Pushdown.Proofs.Negation
import Pushdown.Proofs.AbsorbedPrefix
import Pushdown.Proofs.LazyReplay
import Pushdown.Proofs.Extremes
import Pushdown.Proofs.SortFusion
import Pushdown.Proofs.ValueOrder
import Pushdown.Merge.Ledger
import Pushdown.Proofs.MarkedPositions
import Pushdown.Proofs.Flattening
