/-
Feedback into a flow: single outcomes, bursts of them, and the update of a
loss map from a window.
-/
import LinkAdaptation.Flow.Basic

namespace LinkAdaptation.Flow

variable {rates : RateSet}

/-- Gives outcomes to the baseline, while a mode with a baseline is
active. -/
def teach (f : Flow rates) (outcomes : List Outcome) :
    Checked (Flow rates) :=
  match f.mode.baseline?, f.baseline? with
  | some _, some baseline => do
      let baseline ← outcomes.foldlM Baseline.insert baseline
      return { f with baseline? := some baseline }
  | _, _ => .ok f

/-- Gives outcomes to the baseline if they come from the back. -/
def teachFrom (f : Flow rates) (vantage : Vantage) (outcomes : List Outcome) :
    Checked (Flow rates) :=
  match vantage with
  | .front => .ok f
  | .back => f.teach outcomes

/-- Records an outcome of a vantage point. A refused one changes
nothing. -/
def feed (f : Flow rates) (vantage : Vantage) (o : Outcome) :
    Except Failure (Flow rates) :=
  match (f.window vantage).insert o with
  | .error error => .error (.refused error)
  | .ok (w, _) =>
      ((f.setWindow vantage w).teachFrom vantage [o]).mapError .broken

/-- Blends what a vantage point saw in a range into its loss map. -/
def refreshLoss (f : Flow rates) (vantage : Vantage) (start stop : Instant) :
    Checked (Flow rates) := do
  let table? ← (f.window vantage).tally? start stop
  let before := f.lossMap vantage.view
  let after ← before.absorb table? f.config.backLossWeight
  return f.setLossMap vantage.view after

/-- The range that holds a burst: from a nanosecond before its earliest
outcome, if there is such an instant, to a nanosecond after its latest. -/
def burstRange (first last : Instant) : Checked (Instant × Instant) :=
  match last.add? .tick with
  | some stop => .ok ((first.sub? .tick).getD first, stop)
  | none => .error .instantOverflow

/-- The first reason not to record a burst. -/
def burstRejection? (rates : RateSet) (outcomes : List Outcome) :
    Option Error :=
  outcomes.findSome? (Window.rejection? rates)

/-- Records a burst and blends the range that holds it into the loss map of
its vantage point. When any outcome is refused, none is recorded. -/
def feedBatch (f : Flow rates) (vantage : Vantage) (outcomes : List Outcome) :
    Except Failure (Flow rates) :=
  match burstRejection? rates outcomes, outcomes with
  | some error, _ => .error (.refused error)
  | none, [] => .ok f
  | none, o :: rest =>
      let first := (rest.map (·.time)).foldl min o.time
      let last := (rest.map (·.time)).foldl max o.time
      let w := outcomes.foldl .push (f.window vantage)
      Except.mapError .broken do
        let f ← (f.setWindow vantage w).teachFrom vantage outcomes
        let (start, stop) ← burstRange first last
        f.refreshLoss vantage start stop

/-- Gives every candidate up as lost, in all views but the merged one. -/
def giveUp (f : Flow rates) : Flow rates :=
  { f with
    frontLoss := f.frontLoss.giveUp
    backLoss := f.backLoss.giveUp
    scoutLoss := f.scoutLoss.giveUp }

end LinkAdaptation.Flow
