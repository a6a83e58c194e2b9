import LinkAdaptation.Flow.Report
import LinkAdaptation.FlowTable.Run
import LinkAdaptation.Proofs.Flow.Run
import LinkAdaptation.Proofs.Window.Retention
import LinkAdaptation.Proofs.Number.Whole
import LinkAdaptation.Proofs.Selector.Run
import LinkAdaptation.Proofs.Flow.Steps
import LinkAdaptation.Proofs.Flow.Standalone
import LinkAdaptation.Proofs.Window.Range
import LinkAdaptation.Proofs.Flow.Feasible
import LinkAdaptation.Proofs.Selector.History
import LinkAdaptation.Proofs.Selector.SampleRate
import LinkAdaptation.Proofs.Selector.Rraa
import LinkAdaptation.Proofs.Window.Eviction
import LinkAdaptation.Proofs.Flow.Refresh
import LinkAdaptation.Proofs.Selector.Recorded
import LinkAdaptation.Proofs.Flow.Told
import LinkAdaptation.Proofs.Flow.Burst
import LinkAdaptation.Proofs.Flow.Goodput
import LinkAdaptation.Proofs.Flow.Choice
import LinkAdaptation.Proofs.Flow.Interleaving
import LinkAdaptation.Proofs.Flow.Behind
import LinkAdaptation.Proofs.Flow.Shift
import LinkAdaptation.Proofs.Flow.Translation
import LinkAdaptation.Proofs.FlowTable.Replay
import LinkAdaptation.Proofs.Flow.Lookup
import LinkAdaptation.Proofs.Flow.Timeout
import LinkAdaptation.Proofs.Batch.Extra
import LinkAdaptation.Proofs.Batch.InTime
import LinkAdaptation.Proofs.Batch.Monotone
import LinkAdaptation.Proofs.Flow.Sized
import LinkAdaptation.Proofs.Batch.Resend
import LinkAdaptation.Proofs.Batch.Band
import LinkAdaptation.Proofs.Flow.Coverage
import LinkAdaptation.Proofs.Flow.Reach
import LinkAdaptation.Proofs.Selector.Pace
import LinkAdaptation.Proofs.Selector.Live
import LinkAdaptation.Proofs.Selector.Threshold
import LinkAdaptation.Proofs.Selector.Verdict
import LinkAdaptation.Proofs.Number.Order
import LinkAdaptation.Proofs.Selector.Bootstrap
import LinkAdaptation.Proofs.Selector.Cadence
import LinkAdaptation.Proofs.Selector.Exhaustion
import LinkAdaptation.Proofs.Selector.Retraction
import LinkAdaptation.Proofs.Selector.Residue
import LinkAdaptation.Proofs.RateSet
import LinkAdaptation.Proofs.Flow.GivenUp
import LinkAdaptation.Proofs.Window.Ties
import LinkAdaptation.Proofs.Selector.Finite
