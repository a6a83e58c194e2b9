/-
The outcomes of one vantage point, kept for a limited time. They are held
in the order of their arrival, oldest first. An arriving outcome is
appended, and then every outcome is dropped from the front until one is no
older than the retention, measured from the arrival.

A question names a half-open range of time `[start, stop)`. It is answered
from the outcomes in the range when the range touches the stored span, and
is otherwise left open: no data.
-/
import LinkAdaptation.Table

namespace LinkAdaptation

-- ============================================================== tallies

/-- The loss that stands for "not known". -/
def unknownLoss : Float := -1.0

/-- Whether a loss says something. -/
def isKnown (loss : Float) : Bool := loss != unknownLoss

/-- How often a rate was used and how often that was acknowledged. -/
structure Tally where
  sent : Nat := 0
  acked : Nat := 0
  deriving DecidableEq, Repr

namespace Tally

/-- The share of packets not acknowledged. -/
def loss (t : Tally) : Float :=
  if t.sent = 0 then unknownLoss
  else 1.0 - t.acked.toFloat / t.sent.toFloat

/-- Uses without an acknowledgement that rule a rate out. -/
def hopeless : Nat := 2

/-- A rate is ruled out once it was used `hopeless` times in vain. -/
def isFeasible (t : Tally) : Bool := t.acked > 0 || t.sent < hopeless

/-- The tally with one more outcome. -/
def add (t : Tally) (status : Status) : Checked Tally := do
  let sent ← increment t.sent
  let acked ← if status = .acked then increment t.acked else .ok t.acked
  return { sent, acked }

end Tally

/-- Counts outcomes by rate; a rate that is not a candidate is not
counted. -/
def tallyOutcomes (rates : RateSet) (outcomes : List Outcome) :
    Checked (Table rates Tally) :=
  outcomes.foldlM
    (fun table o =>
      match rates.index? o.rate with
      | some i => do return table.set i (← (table.get i).add o.status)
      | none => .ok table)
    (.fill rates {})

-- ============================================================== windows

/-- The recent outcomes at the candidate rates, oldest first, and how long
they are kept. -/
structure Window (rates : RateSet) where
  retention : Duration
  records : List Outcome
  deriving DecidableEq

namespace Window

variable {rates : RateSet}

/-- How long outcomes are kept where nothing else is asked for. -/
def defaultRetention : Duration := .seconds 2

/-- A window without outcomes. -/
def empty (rates : RateSet) (retention : Duration) : Window rates :=
  { retention, records := [] }

/-- Whether an outcome is too old to be kept at an instant. -/
def isStale (w : Window rates) (now : Instant) (o : Outcome) : Bool :=
  w.retention < now.since o.time

/-- Why an outcome is not recorded, if it is not: its status reports
nothing, or its rate is no candidate. -/
def rejection? (rates : RateSet) (o : Outcome) : Option Error :=
  if !o.status.isFeedback then some (.invalidStatus o.status)
  else if !rates.contains o.rate then some (.unknownRate o.rate)
  else none

/-- Appends an outcome and drops stale ones from the front. -/
def push (w : Window rates) (o : Outcome) : Window rates :=
  { w with records := (w.records ++ [o]).dropWhile (w.isStale o.time) }

/-- Records an outcome; the answer tells whether any was dropped. -/
def insert (w : Window rates) (o : Outcome) :
    Except Error (Window rates × Bool) :=
  match rejection? rates o with
  | some error => .error error
  | none =>
      let after := w.push o
      .ok (after, after.records.length ≤ w.records.length)

/-- Changes how long outcomes are kept, from the next arrival on. -/
def setRetention (w : Window rates) (retention : Duration) : Window rates :=
  { w with retention }

/-- Drops every outcome. -/
def clear (w : Window rates) : Window rates := { w with records := [] }

/-- When the oldest and the newest stored outcomes were sent. -/
def span? (w : Window rates) : Option (Instant × Instant) := do
  return ((← w.records.head?).time, (← w.records.getLast?).time)

-- ============================================================ questions

/-- Whether a range of time touches the stored span. -/
def covers (w : Window rates) (start stop : Instant) : Bool :=
  match w.span? with
  | some (oldest, newest) => oldest ≤ stop && start ≤ newest
  | none => false

/-- The first place whose outcome is not before an instant. -/
def lowerBound (w : Window rates) (t : Instant) : Nat :=
  w.records.findIdx (t ≤ ·.time)

/-- The stored outcomes of a range: the places from one instant to another.
A stop before the start leaves none. -/
def between (w : Window rates) (start stop : Instant) : List Outcome :=
  let left := w.lowerBound start
  let right := max (w.lowerBound stop) left
  w.records.extract left right

/-- The tallies of a range, or no data. -/
def tally? (w : Window rates) (start stop : Instant) :
    Checked (Option (Table rates Tally)) :=
  if w.covers start stop then
    some <$> tallyOutcomes rates (w.between start stop)
  else
    .ok none

/-- The loss that a table shows at a rate. -/
def lossAt (table : Table rates Tally) (rate : Rate) : Float :=
  match rates.index? rate with
  | some i => (table.get i).loss
  | none => unknownLoss

/-- The losses of some rates over a range, or no data. -/
def losses? (w : Window rates) (start stop : Instant) (asked : List Rate) :
    Checked (Option (List Float)) := do
  return (← w.tally? start stop).map fun table => asked.map (lossAt table)

/-- The loss of one rate over a range; not known when there is no data. -/
def loss (w : Window rates) (start stop : Instant) (rate : Rate) :
    Checked Float := do
  return ((← w.tally? start stop).map (lossAt · rate)).getD unknownLoss

/-- The candidates that a table does not rule out, slowest first. -/
def feasibleOf (table : Table rates Tally) : List Rate :=
  (rates.indices.filter fun i => (table.get i).isFeasible).map rates.get

/-- The candidates that a range does not rule out, or no data. -/
def feasible? (w : Window rates) (start stop : Instant) :
    Checked (Option (List Rate)) := do
  return (← w.tally? start stop).map feasibleOf

-- ================================================================= runs

/-- A request that can change a window. -/
inductive Request where
  | insert (outcome : Outcome)
  | setRetention (retention : Duration)
  | clear

/-- The answer to a request. -/
inductive Reply where
  | done
  | evicted (any : Bool)
  | refused (error : Error)
  deriving DecidableEq

/-- The window after a request, and the answer. A refused outcome changes
nothing. -/
def handle (w : Window rates) : Request → Window rates × Reply
  | .insert o =>
      match w.insert o with
      | .ok (after, any) => (after, .evicted any)
      | .error error => (w, .refused error)
  | .setRetention retention => (w.setRetention retention, .done)
  | .clear => (w.clear, .done)

-- ================================================================ texts

/-- The window as a table, with times in milliseconds since the oldest
outcome. -/
def text (w : Window rates) : String :=
  let origin := (w.records.head?.map (·.time)).getD ⟨0⟩
  let row (o : Outcome) (n : Nat) : String :=
    String.intercalate "\t"
      [ n.repr
      , fixedText 3 ((o.time.since origin).toSeconds * 1000.0)
      , o.seq.toNat.repr
      , o.rate.toNat.repr
      , o.status.label ] ++ "\n"
  "No\tTime(ms)\tSeq\tRate\tStatus\n"
    ++ String.join ((w.records.zipIdx 1).map fun (o, n) => row o n)

end Window

end LinkAdaptation
