/-
A flow: everything that link adaptation knows and has settled for one
client. Outcomes come in from two vantage points, each with a window of its
own; four loss maps hold what they amount to; and every decision leaves the
candidate it chose, the candidates it found feasible, and its probes.
-/
import LinkAdaptation.Flow.Config
import LinkAdaptation.Flow.Mode

namespace LinkAdaptation

open LinkAdaptation.Random (Generator Key)

/-- The state of a flow. -/
structure Flow (rates : RateSet) where
  config : Config
  front : Window rates
  back : Window rates
  frontLoss : LossMap rates
  backLoss : LossMap rates
  scoutLoss : LossMap rates
  combinedLoss : LossMap rates
  /-- Built when a mode first needs one, and again when the kind
  changes. -/
  baseline? : Option (Baseline rates)
  mode : Mode
  current : rates.Index
  useCoding : Bool
  /-- Whether batches may be sent twice. -/
  mayDuplicate : Bool
  /-- Metres per second; not known unless positive. -/
  speed : Float
  duplicateThreshold : Float
  lossBound : Float
  /-- Candidates not ruled out at the back; empty for no evidence. -/
  feasible : List Rate
  /-- The probes of the last decision. -/
  probes : List Rate
  generator : Generator
  deriving DecidableEq

namespace Flow

variable {rates : RateSet}

/-- A fresh flow on the slowest candidate, in the scouting mode with probes
in order. The entropy, like the clock, is read from outside; a seeded
configuration does not look at it. -/
def start (rates : RateSet) (config : Config) (entropy : Key) :
    Except Error (Flow rates) :=
  match config.rejection? with
  | some error => .error error
  | none =>
      .ok
        { config
          front := .empty rates config.totalWindow
          back := .empty rates config.totalWindow
          frontLoss := .empty rates
          backLoss := .empty rates
          scoutLoss := .empty rates
          combinedLoss := .empty rates
          baseline? := none
          mode := .scoutSequential
          current := rates.bottom
          useCoding := true
          mayDuplicate := true
          speed := -1.0
          duplicateThreshold := config.duplicateThreshold
          lossBound := config.lossBound
          feasible := []
          probes := []
          generator := config.generator entropy }

-- =============================================================== parts

/-- The window of a vantage point. -/
def window (f : Flow rates) : Vantage → Window rates
  | .front => f.front
  | .back => f.back

/-- The flow with another window at a vantage point. -/
def setWindow (f : Flow rates) (vantage : Vantage) (w : Window rates) :
    Flow rates :=
  match vantage with
  | .front => { f with front := w }
  | .back => { f with back := w }

/-- The loss map of a view. -/
def lossMap (f : Flow rates) : View → LossMap rates
  | .front => f.frontLoss
  | .back => f.backLoss
  | .scout => f.scoutLoss
  | .combined => f.combinedLoss

/-- The flow with another loss map in a view. -/
def setLossMap (f : Flow rates) (view : View) (m : LossMap rates) :
    Flow rates :=
  match view with
  | .front => { f with frontLoss := m }
  | .back => { f with backLoss := m }
  | .scout => { f with scoutLoss := m }
  | .combined => { f with combinedLoss := m }

-- =========================================================== selection

/-- The rate of the last decision. -/
def rate (f : Flow rates) : Rate := rates.get f.current

/-- Whether the flow is still on the slowest candidate. -/
def isBootstrapping (f : Flow rates) : Bool := f.current.val == 0

/-- Whether the last decision found a rate feasible. -/
def isFeasible (f : Flow rates) (rate : Rate) : Bool :=
  admits f.feasible rate

/-- The best `rate · (1 - loss)` of a view. -/
def throughput? (f : Flow rates) (view : View) : Option Float :=
  (f.lossMap view).throughput?

-- ============================================================ settings

/-- Switches the mode. A mode with a baseline builds it, unless the flow
has one of that kind already; what is built draws from a generator of its
own. -/
def setMode (f : Flow rates) (mode : Mode) (now : Instant) (entropy : Key) :
    Flow rates :=
  let config := f.config
  let built (kind : BaselineKind) : Baseline rates :=
    .start kind rates config.bootstrapOrder (config.generator entropy) now
  match mode.baseline? with
  | none => { f with mode }
  | some kind =>
      if f.baseline?.map (·.kind) = some kind then { f with mode }
      else { f with mode, baseline? := some (built kind) }

/-- Turns coding on or off. -/
def setUseCoding (f : Flow rates) (useCoding : Bool) : Flow rates :=
  { f with useCoding }

/-- Allows or forbids batches to be sent twice. -/
def setMayDuplicate (f : Flow rates) (mayDuplicate : Bool) : Flow rates :=
  { f with mayDuplicate }

/-- Sets the client's speed. -/
def setSpeed (f : Flow rates) (speed : Float) : Flow rates :=
  { f with speed }

/-- Sets the loss above which a batch is sent twice. -/
def setDuplicateThreshold (f : Flow rates) (threshold : Float) :
    Except Error (Flow rates) :=
  if inUnit threshold then .ok { f with duplicateThreshold := threshold }
  else .error (.invalidLoss threshold)

/-- Sets the loss above which the bounded modes leave a rate out. -/
def setLossBound (f : Flow rates) (bound : Float) :
    Except Error (Flow rates) :=
  if inUnit bound then .ok { f with lossBound := bound }
  else .error (.invalidLoss bound)

/-- Moves to a candidate. -/
def setRate (f : Flow rates) (rate : Rate) : Except Error (Flow rates) :=
  match rates.index? rate with
  | some i => .ok { f with current := i }
  | none => .error (.unknownRate rate)

end Flow

end LinkAdaptation
