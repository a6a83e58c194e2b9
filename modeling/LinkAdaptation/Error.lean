/-
What can go wrong, in two kinds kept apart. An `Error` is a request that
the library refuses: the caller asked for something outside what an
operation accepts, and is told what. A `Fault` is a broken promise of the
library's own bookkeeping — a counter past its range, a size past its
bounds; there is no answer and no state to go on with.
-/
import LinkAdaptation.Outcome

namespace LinkAdaptation

/-- A refused request. Missing data is never one. -/
inductive Error where
  /-- There is no candidate rate. -/
  | emptyRateSet
  /-- The candidate rates do not ascend strictly. -/
  | unsortedRates
  /-- The rate is not a candidate. -/
  | unknownRate (rate : Rate)
  /-- The status does not report on a delivery. -/
  | invalidStatus (status : Status)
  /-- The loss is neither in `[0, 1]` nor the mark of a missing one. -/
  | invalidLoss (loss : Float)
  /-- The weight of the past is above one. -/
  | invalidWeight (weight : Float)
  /-- No adaptation mode has this code. -/
  | invalidMode (code : UInt8)
  /-- The largest batch is empty. -/
  | invalidMaxK
  /-- The coding field cannot hold a batch and its probes. -/
  | invalidFieldSize (fieldSize maxK probes : Nat)
  /-- More probes are asked for than there are rates to draw from. -/
  | invalidSampling (count bound : Nat)
  /-- The batch is empty or too large. -/
  | invalidBatch (k max : Nat)
  /-- Not one packet fits the coherence time. -/
  | coherenceTooShort (coherenceUs packetUs : UInt32)
  /-- A rate's estimation window is empty. -/
  | invalidWindow (rate : Rate)
  /-- No flow is registered for the client. -/
  | unknownClient (client : UInt32)
  deriving DecidableEq

/-- The refusal in words. -/
def Error.message : Error → String
  | .emptyRateSet => "candidate rate set is empty"
  | .unsortedRates => "candidate rates must be strictly ascending"
  | .unknownRate rate =>
      "rate " ++ rate.toNat.repr ++ " is not a candidate rate"
  | .invalidStatus status =>
      "packet status " ++ status.label ++ " is not delivery feedback"
  | .invalidLoss loss => "loss " ++ shortestText loss ++ " is outside [0, 1]"
  | .invalidWeight weight =>
      "previous weight " ++ shortestText weight ++ " is greater than 1"
  | .invalidMode code => "invalid adaptation mode code " ++ code.toNat.repr
  | .invalidMaxK => "max_k must be at least 1"
  | .invalidFieldSize fieldSize maxK probes =>
      "field size " ++ fieldSize.repr ++ " cannot hold max_k " ++ maxK.repr
        ++ " plus " ++ probes.repr ++ " probe packets"
  | .invalidSampling count bound =>
      "cannot sample " ++ count.repr ++ " rates out of a bound of "
        ++ bound.repr
  | .invalidBatch k max =>
      "batch size " ++ k.repr ++ " outside 1..=" ++ max.repr
  | .coherenceTooShort coherenceUs packetUs =>
      "coherence time " ++ coherenceUs.toNat.repr
        ++ "us shorter than one packet (" ++ packetUs.toNat.repr ++ "us)"
  | .invalidWindow rate =>
      "window size for rate " ++ rate.toNat.repr ++ " must be positive"
  | .unknownClient client =>
      "no flow registered for client " ++ client.toNat.repr

/-- A broken internal bound. -/
inductive Fault where
  /-- A 32-bit counter would pass its range. -/
  | counterOverflow
  /-- A size would leave the 64-bit words. -/
  | sizeOverflow
  /-- A sized batch violates its own limits. -/
  | sizeOutOfBounds
  /-- An estimate outside `[0, 1]` would be stored. -/
  | lossOutOfRange
  /-- More probes are drawn than their band is wide. -/
  | probesOutOfBand
  /-- There is no candidate rate at the index. -/
  | indexOutOfBounds
  /-- An instant would leave its range. -/
  | instantOverflow
  deriving DecidableEq, Repr

/-- Why an operation has no result. -/
inductive Failure where
  | refused (error : Error)
  | broken (fault : Fault)
  deriving DecidableEq

/-- A result, unless an internal bound breaks. -/
abbrev Checked := Except Fault

-- ============================================================ counters

/-- The number of values of a 32-bit counter. -/
def counterLimit : Nat := UInt32.size

/-- A counter one higher. -/
def increment (n : Nat) : Checked Nat :=
  if n + 1 < counterLimit then .ok (n + 1) else .error .counterOverflow

end LinkAdaptation
