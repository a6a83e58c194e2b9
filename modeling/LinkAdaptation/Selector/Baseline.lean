/-
A rate selector with a memory. The two selectors decide from outcomes that
are counted in; this module keeps those outcomes in the order of their
arrival and has each one forgotten when it has aged.
-/
import LinkAdaptation.Selector.Rraa
import LinkAdaptation.Selector.SampleRate

namespace LinkAdaptation

open LinkAdaptation.Random (Generator)

/-- The two ways to select a rate from the outcomes of one vantage
point. -/
inductive BaselineKind where
  | sampleRate
  | rraa
  deriving DecidableEq, Repr

/-- The kind by its name. -/
def BaselineKind.label : BaselineKind → String
  | .sampleRate => "SampleRate"
  | .rraa => "Rraa"

-- =========================================================== selectors

/-- A selector of either kind. -/
inductive Selector (rates : RateSet) where
  | sampleRate (state : SampleRate rates)
  | rraa (state : Rraa rates)
  deriving DecidableEq

namespace Selector

variable {rates : RateSet}

/-- A fresh selector of a kind. -/
def start (kind : BaselineKind) (rates : RateSet) (order : BootstrapOrder)
    (generator : Generator) (now : Instant) : Selector rates :=
  match kind with
  | .sampleRate => .sampleRate (.start rates order generator now)
  | .rraa => .rraa (.start rates Rraa.defaultWindow)

/-- Which kind a selector is of. -/
def kind : Selector rates → BaselineKind
  | .sampleRate _ => .sampleRate
  | .rraa _ => .rraa

/-- Counts an outcome. -/
def record (s : Selector rates) (o : Outcome) : Checked (Selector rates) :=
  match s with
  | .sampleRate state => .sampleRate <$> state.record o
  | .rraa state => .rraa <$> state.record o

/-- Undoes the counting of an outcome. -/
def forget (s : Selector rates) (o : Outcome) : Selector rates :=
  match s with
  | .sampleRate state => .sampleRate (state.forget o)
  | .rraa state => .rraa (state.forget o)

/-- Decides the rate of the next packet. -/
def select (s : Selector rates) (now : Instant) :
    Checked (Selector rates × Rate) :=
  match s with
  | .sampleRate state => do
      let (state, rate) ← state.select now
      return (.sampleRate state, rate)
  | .rraa state =>
      let (state, rate) := state.select
      .ok (.rraa state, rate)

/-- Drops all counts. -/
def reset : Selector rates → Selector rates
  | .sampleRate state => .sampleRate state.reset
  | .rraa state => .rraa state.reset

/-- The rate of the last decision. -/
def currentRate : Selector rates → Rate
  | .sampleRate state => state.currentRate
  | .rraa state => state.currentRate

/-- The selector's table. -/
def text : Selector rates → String
  | .sampleRate state => state.text
  | .rraa state => state.text

end Selector

-- =========================================================== baselines

/-- A selector and the outcomes counted in it, oldest first. -/
structure Baseline (rates : RateSet) where
  selector : Selector rates
  history : List Outcome
  retention : Duration
  deriving DecidableEq

namespace Baseline

variable {rates : RateSet}

/-- How long outcomes are remembered where nothing else is asked for. -/
def defaultRetention : Duration := .millis 10500

/-- A fresh baseline of a kind. -/
def start (kind : BaselineKind) (rates : RateSet) (order : BootstrapOrder)
    (generator : Generator) (now : Instant) : Baseline rates :=
  { selector := .start kind rates order generator now
    history := []
    retention := defaultRetention }

/-- Which kind of selector it is. -/
def kind (b : Baseline rates) : BaselineKind := b.selector.kind

/-- Whether an outcome has aged by an instant. One that lies ahead of the
instant has not. -/
def isAged (b : Baseline rates) (now : Instant) (o : Outcome) : Bool :=
  match now.since? o.time with
  | some age => b.retention ≤ age
  | none => false

/-- Forgets aged outcomes from the front, up to the first that has not
aged. -/
def expire (b : Baseline rates) (now : Instant) : Baseline rates :=
  { b with
    selector := (b.history.takeWhile (b.isAged now)).foldl .forget b.selector
    history := b.history.dropWhile (b.isAged now) }

/-- Counts an outcome and forgets the aged ones. An outcome that reports
nothing is passed over. -/
def insert (b : Baseline rates) (o : Outcome) : Checked (Baseline rates) :=
  if o.status.isFeedback then do
    let selector ← b.selector.record o
    let b := { b with selector, history := b.history ++ [o] }
    return b.expire o.time
  else
    .ok b

/-- Changes how long outcomes are remembered. -/
def setRetention (b : Baseline rates) (retention : Duration) :
    Baseline rates :=
  { b with retention }

/-- Drops all outcomes and counts. -/
def reset (b : Baseline rates) : Baseline rates :=
  { b with selector := b.selector.reset, history := [] }

/-- Decides the rate of the next packet. -/
def select (b : Baseline rates) (now : Instant) :
    Checked (Baseline rates × Rate) := do
  let (selector, rate) ← b.selector.select now
  return ({ b with selector }, rate)

/-- Decides the rates of the next packets, one after the other. -/
def selectMany (b : Baseline rates) (now : Instant) :
    Nat → Checked (Baseline rates × List Rate)
  | 0 => .ok (b, [])
  | n + 1 => do
      let (b, rate) ← b.select now
      let (b, rest) ← b.selectMany now n
      return (b, rate :: rest)

/-- The rate of the last decision. -/
def currentRate (b : Baseline rates) : Rate := b.selector.currentRate

-- ================================================================ runs

/-- A request that can change a baseline. -/
inductive Request where
  | insert (outcome : Outcome)
  | expire (now : Instant)
  | setRetention (retention : Duration)
  | select (now : Instant)
  | reset
  deriving DecidableEq, Repr

/-- The baseline after a request, and the rate if one was decided. -/
def handle (b : Baseline rates) :
    Request → Checked (Baseline rates × Option Rate)
  | .insert o => do return (← b.insert o, none)
  | .expire now => .ok (b.expire now, none)
  | .setRetention retention => .ok (b.setRetention retention, none)
  | .select now => do
      let (b, rate) ← b.select now
      return (b, some rate)
  | .reset => .ok (b.reset, none)

/-- The baseline after a list of requests, and the answers in their
order. -/
def run (b : Baseline rates) :
    List Request → Checked (Baseline rates × List (Option Rate))
  | [] => .ok (b, [])
  | request :: rest => do
      let (b, answer) ← b.handle request
      let (b, answers) ← b.run rest
      return (b, answer :: answers)

-- =============================================================== texts

/-- The selector's table. -/
def text (b : Baseline rates) : String := b.selector.text

/-- The baseline on one line. -/
def summary (b : Baseline rates) : String :=
  "BaselineAdaptation \x7b kind: " ++ b.kind.label ++ ", current_rate: "
    ++ b.currentRate.toNat.repr ++ ", history: " ++ b.history.length.repr
    ++ " \x7d"

end Baseline

end LinkAdaptation
