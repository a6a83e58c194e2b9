/-
Selection by average airtime. Until an acknowledgement is accounted, the
selector walks along the candidates and takes the first that has not
failed a few times in a row. From then on it takes the candidate whose
acknowledged bytes have cost the least airtime, and with every tenth packet
samples some candidate that could do better: one whose bytes, had they all
been acknowledged, would have cost less than those of the current one did.

Outcomes are counted as they are recorded and uncounted as they are
forgotten. Runs of consecutive losses are not uncounted; they end with an
acknowledgement or, all together, some seconds after they last ended so.
Averages are brought up to date only when a decision asks for them.
-/
import LinkAdaptation.Airtime
import LinkAdaptation.Table
import LinkAdaptation.Random.Draw

namespace LinkAdaptation

open LinkAdaptation.Random (Generator)

/-- Where the search for a first usable candidate begins. -/
inductive BootstrapOrder where
  | lowestFirst
  | highestFirst
  deriving DecidableEq, Repr

/-- The average airtime that stands for "nothing acknowledged". -/
def noAirtime : Float := 1e10

/-- What is known about one candidate. -/
structure SampleRate.Entry where
  sent : Nat := 0
  acked : Nat := 0
  naked : Nat := 0
  timedOut : Nat := 0
  bytesSent : Float := 0.0
  bytesAcked : Float := 0.0
  bytesNaked : Float := 0.0
  bytesTimedOut : Float := 0.0
  /-- Losses recorded since the last acknowledgement. -/
  lossRun : Nat := 0
  totalAirtime : Float := 0.0
  /-- Airtime for each acknowledged byte. -/
  average : Float := noAirtime
  /-- Airtime for each byte sent. -/
  bestCase : Float := 0.0
  deriving DecidableEq

/-- The state of selection by average airtime. -/
structure SampleRate (rates : RateSet) where
  table : Table rates SampleRate.Entry
  /-- Acknowledgements accounted at all candidates. -/
  totalAcked : Nat
  /-- Decisions since the last sampling one. -/
  decisions : Nat
  current : rates.Index
  /-- Whether outcomes changed since the averages were computed. -/
  outdated : Bool
  order : BootstrapOrder
  /-- When the runs of losses were last ended all together. -/
  lastLossReset : Instant
  generator : Generator
  deriving DecidableEq

namespace SampleRate

/-- The run of losses at which a candidate stops being usable. -/
def maxLossRun : Nat := 4

/-- The decisions from one sampling to the next. -/
def sampleInterval : Nat := 10

/-- How far past the current candidate a sample may lie, plus one. -/
def lookahead : Nat := 3

/-- How long runs of losses last before all are ended. -/
def lossResetInterval : Duration := .seconds 10

-- ============================================================= entries

namespace Entry

/-- Whether the candidate may be chosen without an acknowledgement. -/
def isUsable (e : Entry) : Bool := e.lossRun < maxLossRun

/-- An entry with its sums settled and its averages computed. Each average
keeps its old value where there is nothing to divide by. -/
def refresh (e : Entry) : Entry :=
  let bytesSent := settle e.bytesSent
  let totalAirtime := settle e.totalAirtime
  let bytesAcked := settle e.bytesAcked
  let bestCase :=
    if !isNoise e.totalAirtime && 0.0 < bytesSent then
      totalAirtime / bytesSent
    else
      e.bestCase
  let average :=
    if bytesAcked == 0.0 then noAirtime
    else if bestCase ≤ totalAirtime then totalAirtime / bytesAcked
    else e.average
  { e with bytesSent, totalAirtime, bytesAcked, bestCase, average }

/-- An entry with one more outcome. -/
def count (e : Entry) (o : Outcome) : Checked Entry := do
  let sent ← increment e.sent
  let e :=
    { e with
      sent
      bytesSent := e.bytesSent + o.bytes
      totalAirtime := e.totalAirtime + airtime o.rate o.length }
  match o.status with
  | .acked =>
      let acked ← increment e.acked
      let bytesAcked := e.bytesAcked + o.bytes
      return { e with acked, bytesAcked, lossRun := 0 }
  | .naked =>
      let naked ← increment e.naked
      let lossRun ← increment e.lossRun
      let bytesNaked := e.bytesNaked + o.bytes
      return { e with naked, bytesNaked, lossRun }
  | .timedOut =>
      let timedOut ← increment e.timedOut
      let lossRun ← increment e.lossRun
      let bytesTimedOut := e.bytesTimedOut + o.bytes
      return { e with timedOut, bytesTimedOut, lossRun }
  | .sent => return e

/-- An entry with one outcome less; the run of losses stays. -/
def uncount (e : Entry) (o : Outcome) : Entry :=
  let e :=
    { e with
      sent := e.sent - 1
      bytesSent := e.bytesSent - o.bytes
      totalAirtime := e.totalAirtime - airtime o.rate o.length }
  match o.status with
  | .acked =>
      { e with acked := e.acked - 1, bytesAcked := e.bytesAcked - o.bytes }
  | .naked =>
      { e with naked := e.naked - 1, bytesNaked := e.bytesNaked - o.bytes }
  | .timedOut =>
      { e with
        timedOut := e.timedOut - 1
        bytesTimedOut := e.bytesTimedOut - o.bytes }
  | .sent => e

end Entry

variable {rates : RateSet}

-- ======================================================== construction

/-- A fresh selector on the slowest candidate, which samples with the
generator. -/
def start (rates : RateSet) (order : BootstrapOrder) (generator : Generator)
    (now : Instant) : SampleRate rates :=
  { table := .fill rates {}
    totalAcked := 0
    decisions := 0
    current := rates.bottom
    outdated := true
    order
    lastLossReset := now
    generator }

/-- Drops all counts and goes back to the slowest candidate. The time of
the last loss reset and the generator go on. -/
def reset (s : SampleRate rates) : SampleRate rates :=
  { s with
    table := .fill rates {}
    totalAcked := 0
    decisions := 0
    current := rates.bottom
    outdated := true }

-- ========================================================== accounting

/-- Counts an outcome. Outcomes that report nothing, and those at other
rates, are passed over. -/
def record (s : SampleRate rates) (o : Outcome) : Checked (SampleRate rates) :=
  match rates.index? o.rate with
  | some i =>
      if o.status.isFeedback then do
        let entry ← (s.table.get i).count o
        let totalAcked ←
          if o.status = .acked then increment s.totalAcked else .ok s.totalAcked
        let table := s.table.set i entry
        return { s with table, totalAcked, outdated := true }
      else
        .ok s
  | none => .ok s

/-- Undoes the counting of an outcome. -/
def forget (s : SampleRate rates) (o : Outcome) : SampleRate rates :=
  match rates.index? o.rate with
  | some i =>
      if o.status.isFeedback then
        let table := s.table.set i ((s.table.get i).uncount o)
        let totalAcked :=
          if o.status = .acked then s.totalAcked - 1 else s.totalAcked
        { s with table, totalAcked, outdated := true }
      else
        s
  | none => s

/-- Whether the runs of losses have lasted too long at an instant. -/
def isLossResetDue (s : SampleRate rates) (now : Instant) : Bool :=
  lossResetInterval < now.since s.lastLossReset

/-- Ends all runs of losses. -/
def resetLosses (s : SampleRate rates) (now : Instant) : SampleRate rates :=
  { s with
    lastLossReset := now
    table := s.table.map ({ · with lossRun := 0 }) }

/-- Brings runs of losses and averages up to date, if any outcome was
counted or uncounted since. -/
def refresh (s : SampleRate rates) (now : Instant) : SampleRate rates :=
  if s.outdated then
    let s := if s.isLossResetDue now then s.resetLosses now else s
    { s with table := s.table.map Entry.refresh, outdated := false }
  else
    s

-- =========================================================== decisions

/-- The first usable candidate in the order of the search, or the one the
search begins at when none is. -/
def firstUsable (s : SampleRate rates) : rates.Index :=
  let usable (i : rates.Index) : Bool := (s.table.get i).isUsable
  match s.order with
  | .lowestFirst => (rates.indices.find? usable).getD rates.bottom
  | .highestFirst => (rates.indices.reverse.find? usable).getD rates.top

/-- The candidates worth sampling: usable, not far above the current one,
and better than it in the best case. -/
def sampleCandidates (s : SampleRate rates) : List rates.Index :=
  rates.indices.filter fun i =>
    i.val < s.current.val + lookahead && i != s.current
      && (s.table.get i).isUsable
      && (s.table.get i).bestCase < (s.table.get s.current).average

/-- Draws one of the candidates worth sampling; without any, the current
one. -/
def sample (s : SampleRate rates) : rates.Index × Generator :=
  let (drawn, generator) := s.generator.choose s.sampleCandidates
  (drawn.getD s.current, generator)

/-- The first candidate of the least average airtime; the current one when
nothing was acknowledged anywhere. -/
def fastest (s : SampleRate rates) : rates.Index :=
  let better (best : Float × rates.Index) (i : rates.Index) :=
    let average := (s.table.get i).average
    if average < best.1 then (average, i) else best
  (rates.indices.foldl better (noAirtime, s.current)).2

/-- Decides the rate of the next packet. -/
def select (s : SampleRate rates) (now : Instant) :
    Checked (SampleRate rates × Rate) := do
  let s := s.refresh now
  let decisions ← increment s.decisions
  let s :=
    if s.totalAcked = 0 then
      { s with decisions, current := s.firstUsable }
    else if decisions % sampleInterval = 0 then
      let (current, generator) := s.sample
      { s with decisions := 0, current, generator }
    else
      { s with decisions, current := s.fastest }
  return (s, rates.get s.current)

/-- The rate of the last decision. -/
def currentRate (s : SampleRate rates) : Rate := rates.get s.current

/-- What is known about a rate. -/
def entry? (s : SampleRate rates) (rate : Rate) : Option Entry :=
  (rates.index? rate).map s.table.get

-- =============================================================== texts

/-- The table of candidates. -/
def text (s : SampleRate rates) : String :=
  let row (i : rates.Index) : String :=
    let e := s.table.get i
    mbpsText (rates.get i) ++ "\t\t" ++ e.sent.repr ++ "\t" ++ e.acked.repr
      ++ "\t" ++ (e.naked + e.timedOut).repr ++ "\t" ++ e.lossRun.repr
      ++ "\t\t" ++ fixedText 1 e.totalAirtime
      ++ "\t\t" ++ fixedText 3 e.average
      ++ "\t\t" ++ fixedText 3 e.bestCase ++ "\n"
  "Sample Rate Table: total acked " ++ s.totalAcked.repr ++ "\n"
    ++ "rate(Mbps)\tsent\tacked\tlost\tconti_loss\ttotal_tx(us)\tavg_tx(us)"
    ++ "\tmin_avg_tx(us)\n"
    ++ String.join (rates.indices.map row)

end SampleRate

end LinkAdaptation
