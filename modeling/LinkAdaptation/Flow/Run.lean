/-
What can be asked of a flow that may change it, and its answers. A run is a
list of requests; it ends early only when an internal bound breaks.
-/
import LinkAdaptation.Flow.Decision

namespace LinkAdaptation

/-- A request that can change a flow. -/
inductive Flow.Request where
  | feed (vantage : Vantage) (outcome : Outcome)
  | feedBatch (vantage : Vantage) (outcomes : List Outcome)
  | refreshLoss (vantage : Vantage) (start stop : Instant)
  | giveUp
  | decide (query : Query)
  | setMode (mode : Mode) (now : Instant) (entropy : Random.Key)
  | setUseCoding (on : Bool)
  | setMayDuplicate (on : Bool)
  | setSpeed (speed : Float)
  | setDuplicateThreshold (threshold : Float)
  | setLossBound (bound : Float)
  | setRate (rate : Rate)
  | window (vantage : Vantage) (request : Window.Request)
  | lossMap (view : View) (request : LossMap.Request)

/-- An answer of a flow. -/
inductive Flow.Reply where
  | done
  | refused (error : Error)
  | decided (decision : Decision)
  | evicted (any : Bool)
  deriving DecidableEq

namespace Flow

variable {rates : RateSet}

/-- A change that may be refused, and then leaves the flow as it was. -/
def attempt (f : Flow rates) (result : Except Error (Flow rates)) :
    Checked (Flow rates × Reply) :=
  match result with
  | .ok after => .ok (after, .done)
  | .error error => .ok (f, .refused error)

/-- A change that may be refused, or break a bound. -/
def attemptChecked (f : Flow rates) (result : Except Failure (Flow rates)) :
    Checked (Flow rates × Reply) :=
  match result with
  | .ok after => .ok (after, .done)
  | .error (.refused error) => .ok (f, .refused error)
  | .error (.broken fault) => .error fault

/-- The flow after a request to one of its windows, and the answer. -/
def handleWindow (f : Flow rates) (vantage : Vantage)
    (request : Window.Request) : Flow rates × Reply :=
  let (w, reply) := (f.window vantage).handle request
  let reply : Reply :=
    match reply with
    | .done => .done
    | .evicted any => .evicted any
    | .refused error => .refused error
  (f.setWindow vantage w, reply)

/-- The flow after a request to one of its loss maps, and the answer. -/
def handleLossMap (f : Flow rates) (view : View)
    (request : LossMap.Request) : Flow rates × Reply :=
  let (m, error?) := (f.lossMap view).handle request
  (f.setLossMap view m, error?.elim .done .refused)

/-- The flow after a request, and the answer. -/
def handle (f : Flow rates) : Request → Checked (Flow rates × Reply)
  | .feed vantage o => f.attemptChecked (f.feed vantage o)
  | .feedBatch vantage outcomes =>
      f.attemptChecked (f.feedBatch vantage outcomes)
  | .refreshLoss vantage start stop => do
      return (← f.refreshLoss vantage start stop, .done)
  | .giveUp => .ok (f.giveUp, .done)
  | .decide query => do
      let (after, result) ← f.decide query
      match result with
      | .ok decision => return (after, .decided decision)
      | .error error => return (after, .refused error)
  | .setMode mode now entropy => .ok (f.setMode mode now entropy, .done)
  | .setUseCoding on => .ok (f.setUseCoding on, .done)
  | .setMayDuplicate on => .ok (f.setMayDuplicate on, .done)
  | .setSpeed speed => .ok (f.setSpeed speed, .done)
  | .setDuplicateThreshold threshold =>
      f.attempt (f.setDuplicateThreshold threshold)
  | .setLossBound bound => f.attempt (f.setLossBound bound)
  | .setRate rate => f.attempt (f.setRate rate)
  | .window vantage request => .ok (f.handleWindow vantage request)
  | .lossMap view request => .ok (f.handleLossMap view request)

/-- The flow after a list of requests, and the answers in their order. -/
def run (f : Flow rates) : List Request → Checked (Flow rates × List Reply)
  | [] => .ok (f, [])
  | request :: rest => do
      let (f, reply) ← f.handle request
      let (f, replies) ← f.run rest
      return (f, reply :: replies)

end Flow

end LinkAdaptation
