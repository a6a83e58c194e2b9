/-
Robust rate adaptation: each candidate has an estimation window of so many
packets. When the window of the current rate ends, the share of bytes lost
there is held against two thresholds, and the rate goes one step down, one
step up, or stays.

The thresholds follow from airtimes. A rate tolerates the loss that makes
it `tolerance` times as slow as the rate below would be without loss; it is
worth trying the rate above while the loss is under a fraction of what that
rate tolerates.

Outcomes are counted as they are recorded and uncounted as they are
forgotten; the loss shares are brought up to date only when a decision asks
for them.
-/
import LinkAdaptation.Airtime
import LinkAdaptation.Table

namespace LinkAdaptation

/-- What is known about one candidate. -/
structure Rraa.Entry where
  /-- Packets in the estimation window. -/
  window : Nat
  /-- The loss above which the rate is left for the one below. -/
  tolerable : Float
  /-- The loss below which the rate is left for the one above. -/
  promising : Float
  /-- The share of bytes lost, as of the last decision. -/
  lossRatio : Float := 1.0
  sent : Nat := 0
  acked : Nat := 0
  bytesSent : Float := 0.0
  bytesAcked : Float := 0.0
  deriving DecidableEq

/-- The state of robust rate adaptation. -/
structure Rraa (rates : RateSet) where
  table : Table rates Rraa.Entry
  /-- Packets left in the current window. -/
  remaining : Nat
  current : rates.Index
  /-- Whether outcomes changed since the loss shares were computed. -/
  outdated : Bool
  deriving DecidableEq

namespace Rraa

-- ========================================================== thresholds

/-- How much slower than a clean next lower rate a rate may be. -/
def tolerance : Float := 1.25

/-- The divisor that makes a rate promising. -/
def caution : Float := 2.0

/-- Packets in the window of a rate, unless a schedule says otherwise. -/
def defaultWindow (rate : Rate) : Nat :=
  if rate ≤ 55 then 6
  else if rate ≤ 110 then 10
  else if rate ≤ 180 then 20
  else 40

variable {rates : RateSet}

/-- The candidate one step down, as far as there is one. -/
def down (i : rates.Index) : rates.Index := ⟨i.val - 1, by omega⟩

/-- The candidate one step up, as far as there is one. -/
def up (i : rates.Index) : rates.Index :=
  if h : i.val + 1 < rates.size then ⟨i.val + 1, h⟩ else i

/-- The loss that the candidate at an index tolerates. Below the slowest
there is none to go to, so it tolerates everything. -/
def tolerableLoss (rates : RateSet) (i : rates.Index) : Float :=
  if i.val = 0 then
    1.0
  else
    tolerance
      * (1.0
        - referenceAirtime (rates.get i)
          / referenceAirtime (rates.get (down i)))

/-- The loss below which the candidate after an index is tried; there is
none after the fastest. -/
def promisingLoss (rates : RateSet) (i : rates.Index) : Float :=
  if h : i.val + 1 < rates.size then
    tolerableLoss rates ⟨i.val + 1, h⟩ / caution
  else
    0.0

-- ======================================================== construction

/-- A fresh selector on the slowest candidate, given every rate's
window. -/
def start (rates : RateSet) (window : Rate → Nat) : Rraa rates :=
  let entry (i : rates.Index) : Entry :=
    { window := max (window (rates.get i)) 1
      tolerable := tolerableLoss rates i
      promising := promisingLoss rates i }
  { table := Vector.ofFn entry
    remaining := (entry rates.bottom).window
    current := rates.bottom
    outdated := true }

/-- A selector with the windows of a schedule. Its rates have to make a
set of candidates, and no window may be empty. -/
def ofSchedule (schedule : List (Rate × Nat)) :
    Except Error ((rates : RateSet) × Rraa rates) := do
  let rates ← RateSet.ofList (schedule.map (·.1))
  match schedule.find? (·.2 = 0) with
  | some (rate, _) => throw (.invalidWindow rate)
  | none =>
      return ⟨rates, start rates fun rate => (schedule.lookup rate).getD 1⟩

-- ========================================================== accounting

/-- An entry with its sums settled and its loss share computed: lost bytes
over sent bytes, and everything lost while nothing was sent. -/
def Entry.refresh (e : Entry) : Entry :=
  let bytesSent := settle e.bytesSent
  let bytesAcked := settle e.bytesAcked
  { e with
    bytesSent, bytesAcked
    lossRatio :=
      if 0.0 < bytesSent then (bytesSent - bytesAcked) / bytesSent else 1.0 }

/-- Brings the loss shares up to date. -/
def refresh (s : Rraa rates) : Rraa rates :=
  if s.outdated then
    { s with table := s.table.map Entry.refresh, outdated := false }
  else
    s

/-- An entry with one more outcome. -/
def Entry.count (e : Entry) (o : Outcome) : Checked Entry := do
  let sent ← increment e.sent
  let e := { e with sent, bytesSent := e.bytesSent + o.bytes }
  if o.status = .acked then
    let acked ← increment e.acked
    return { e with acked, bytesAcked := e.bytesAcked + o.bytes }
  else
    return e

/-- An entry with one outcome less. -/
def Entry.uncount (e : Entry) (o : Outcome) : Entry :=
  let e := { e with sent := e.sent - 1, bytesSent := e.bytesSent - o.bytes }
  if o.status = .acked then
    { e with acked := e.acked - 1, bytesAcked := e.bytesAcked - o.bytes }
  else
    e

/-- Counts an outcome. Outcomes that report nothing, and those at other
rates, are passed over. -/
def record (s : Rraa rates) (o : Outcome) : Checked (Rraa rates) :=
  match rates.index? o.rate with
  | some i =>
      if o.status.isFeedback then do
        let entry ← (s.table.get i).count o
        return { s with table := s.table.set i entry, outdated := true }
      else
        .ok s
  | none => .ok s

/-- Undoes the counting of an outcome. -/
def forget (s : Rraa rates) (o : Outcome) : Rraa rates :=
  match rates.index? o.rate with
  | some i =>
      if o.status.isFeedback then
        { s with
          table := s.table.set i ((s.table.get i).uncount o), outdated := true }
      else
        s
  | none => s

/-- Drops all counts and goes back to the slowest candidate. -/
def reset (s : Rraa rates) : Rraa rates :=
  { table := s.table.map fun e =>
      { window := e.window, tolerable := e.tolerable, promising := e.promising }
    remaining := (s.table.get rates.bottom).window
    current := rates.bottom
    outdated := true }

-- =========================================================== decisions

/-- Where the end of a window leads. -/
def next (s : Rraa rates) : rates.Index :=
  let e := s.table.get s.current
  if e.tolerable < e.lossRatio && e.sent > 0 then down s.current
  else if e.lossRatio < e.promising && e.sent > 0 then up s.current
  else s.current

/-- Decides the rate of the next packet. -/
def select (s : Rraa rates) : Rraa rates × Rate :=
  let s := s.refresh
  let remaining := s.remaining - 1
  let s :=
    if remaining = 0 then
      { s with current := s.next, remaining := (s.table.get s.next).window }
    else
      { s with remaining }
  (s, rates.get s.current)

/-- The rate of the last decision. -/
def currentRate (s : Rraa rates) : Rate := rates.get s.current

/-- What is known about a rate. -/
def entry? (s : Rraa rates) (rate : Rate) : Option Entry :=
  (rates.index? rate).map s.table.get

-- =============================================================== texts

/-- The table of candidates. -/
def text (s : Rraa rates) : String :=
  let row (i : rates.Index) : String :=
    let e := s.table.get i
    mbpsText (rates.get i) ++ "\t\t" ++ e.sent.repr ++ "\t" ++ e.acked.repr
      ++ "\t" ++ fixedText 3 e.lossRatio ++ "\t\t" ++ fixedText 3 e.promising
      ++ "\t" ++ fixedText 3 e.tolerable ++ "\t" ++ e.window.repr ++ "\n"
  "Robust Rate Table:\n"
    ++ "rate(Mbps)\tsent\tacked\tloss_ratio\tp_ori\tp_mtl\twindow\n"
    ++ String.join (rates.indices.map row)

end Rraa

end LinkAdaptation
