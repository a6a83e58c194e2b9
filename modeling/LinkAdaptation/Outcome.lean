/-
Delivery outcomes: what became of one packet, sent at one rate, as seen
from one vantage point.
-/
import LinkAdaptation.Number.Decimal
import LinkAdaptation.Time

namespace LinkAdaptation

-- =============================================================== rates

/-- A link rate in tenths of Mbps: `55` is 5.5 Mbps. -/
abbrev Rate := UInt16

/-- A rate in Mbps. -/
def mbps (rate : Rate) : Float := rate.toFloat / 10.0

/-- A rate in Mbps, in the fewest digits. -/
def mbpsText (rate : Rate) : String := shortestText (mbps rate)

-- ============================================================ outcomes

/-- The delivery status of a packet. -/
inductive Status where
  /-- Handed to the radio, nothing heard yet. -/
  | sent
  /-- Positively acknowledged. -/
  | acked
  /-- Negatively acknowledged. -/
  | naked
  /-- Nothing heard before the deadline. -/
  | timedOut
  deriving DecidableEq, Repr

namespace Status

/-- Whether the status reports on the delivery. -/
def isFeedback : Status → Bool
  | .sent => false
  | .acked | .naked | .timedOut => true

/-- Whether the status counts as a loss. -/
def isLoss : Status → Bool
  | .naked | .timedOut => true
  | .sent | .acked => false

/-- The status as tables and messages show it. -/
def label : Status → String
  | .sent => "Sent"
  | .acked => "Acked"
  | .naked => "Naked"
  | .timedOut => "TimedOut"

end Status

/-- One recorded outcome. -/
structure Outcome where
  /-- When the packet was sent. -/
  time : Instant
  /-- Sequence number of the transport. -/
  seq : UInt32
  rate : Rate
  /-- Payload length in bytes. -/
  length : UInt16
  status : Status
  deriving DecidableEq, Repr

/-- The payload length, as a figure to compute with. -/
def Outcome.bytes (o : Outcome) : Float := o.length.toFloat

-- ====================================================== vantage points

/-- An observer of outcomes. -/
inductive Vantage where
  /-- The leading antenna: it meets the channel ahead of the client. -/
  | front
  /-- The trailing antenna: it meets the channel the data goes over. -/
  | back
  deriving DecidableEq, Repr

/-- A loss estimate that a flow maintains. -/
inductive View where
  /-- What the front antenna reported. -/
  | front
  /-- What the back antenna reported. -/
  | back
  /-- What the front antenna saw where the back antenna is now. -/
  | scout
  /-- All of them merged. -/
  | combined
  deriving DecidableEq, Repr

/-- The estimate that a vantage point feeds directly. -/
def Vantage.view : Vantage → View
  | .front => .front
  | .back => .back

end LinkAdaptation
