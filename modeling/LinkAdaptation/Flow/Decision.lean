/-
The decisions of a flow. A decision merges the loss estimates, chooses a
candidate, sizes the batch, settles whether it is sent twice, finds probes,
and lays out the rate of every packet. A batch flushed after a timeout
keeps the candidate of the decision before it and starts at the size.

What a decision changed before it found out that no batch can be sized
stays changed.
-/
import LinkAdaptation.Batch.Size
import LinkAdaptation.Flow.Feedback

namespace LinkAdaptation

/-- Why a batch is sent. -/
inductive Occasion where
  /-- Fresh data. -/
  | data
  /-- A partial batch of `k` packets, flushed. -/
  | timeout (k : Nat)
  /-- `k` lost packets, sent again. -/
  | retransmission (k : Nat)
  deriving DecidableEq, Repr

/-- Whether a batch after a timeout is sent. -/
def Occasion.isTimeout : Occasion → Bool
  | .timeout _ => true
  | .data | .retransmission _ => false

/-- Whether lost packets are sent again. -/
def Occasion.isRetransmission : Occasion → Bool
  | .retransmission _ => true
  | .data | .timeout _ => false

/-- What a decision is asked for. -/
structure Query where
  now : Instant
  occasion : Occasion
  /-- The time that a batch may take. -/
  coherenceUs : UInt32
  /-- Bytes in a packet. -/
  packetSize : UInt16
  /-- Airtime of a packet beside that of its bytes. -/
  overheadUs : UInt32
  deriving DecidableEq, Repr

/-- The parameters of one batch. -/
structure Decision where
  /-- Data packets that were coded. -/
  k : Nat
  /-- Packets sent, probes included: one for each rate. -/
  n : Nat
  /-- The rate of each packet sent. -/
  rates : List Rate
  /-- Whether the batch is also sent over the second path. -/
  duplicate : Bool
  deriving DecidableEq, Repr

namespace Flow

variable {rates : RateSet}

-- ============================================================= merging

/-- The range of time in which the front antenna was where the back antenna
is now: the front window, centred on the instant that lies back by the time
the client takes from one antenna to the other. Nothing when the speed is
not known, or when an instant or the time leaves its range. -/
def alignedRange? (f : Flow rates) (now : Instant) :
    Option (Instant × Instant) :=
  if f.speed ≤ 0.0 then
    none
  else do
    let lag ← Duration.ofSeconds? (f.config.antennaDistance / f.speed)
    let aligned ← now.sub? lag
    let half := f.config.frontWindow.half
    return (← aligned.sub? half, ← aligned.add? half)

/-- The losses that the front antenna saw where the back antenna is now;
not known where it saw nothing. -/
def scoutedLosses (f : Flow rates) (now : Instant) :
    Checked (Table rates Float) := do
  let table? ←
    match f.alignedRange? now with
    | some (start, stop) => f.front.tally? start stop
    | none => pure none
  match table? with
  | some table => return table.map Tally.loss
  | none => return .fill rates unknownLoss

/-- The candidates that recent outcomes at the back do not rule out; all
of them when there is no data. -/
def feasibleAt (f : Flow rates) (now : Instant) : Checked (List Rate) := do
  let start := (now.sub? f.config.backWindow).getD now
  return (← f.back.feasible? start now).getD rates.toList

/-- Looks up what the front antenna saw, and the feasible candidates. -/
def scout (f : Flow rates) (now : Instant) : Checked (Flow rates) := do
  let scoutLoss ← f.scoutLoss.replaceAll (← f.scoutedLosses now)
  return { f with scoutLoss, feasible := ← f.feasibleAt now }

/-- The merged loss of a candidate. -/
def mergedLoss (f : Flow rates) (how : Merging) (i : rates.Index) : Float :=
  match how with
  | .frontOnly => f.frontLoss.lossAt i
  | .backOnly => f.backLoss.lossAt i
  | .delayed => mergeLosses (f.frontLoss.lossAt i) (f.backLoss.lossAt i)
  | .scouted =>
      mergeLosses (maxNum (f.scoutLoss.lossAt i) (f.frontLoss.lossAt i))
        (f.backLoss.lossAt i)

/-- Merges the estimates as the mode has it. -/
def merge (f : Flow rates) (now : Instant) : Checked (Flow rates) := do
  let how := f.mode.merging
  let f ← if how = .scouted then f.scout now else pure f
  let combinedLoss ←
    f.combinedLoss.replaceAll (Vector.ofFn (f.mergedLoss how))
  return { f with combinedLoss }

-- ============================================================ choosing

/-- Whether a candidate is out of the question: recent outcomes rule it
out, or its merged loss is above the bound. -/
def isExcluded (f : Flow rates) (bound? : Option Float) (i : rates.Index) :
    Bool :=
  !f.isFeasible (rates.get i)
    || bound?.any (fun bound => bound < f.combinedLoss.lossAt i)

/-- The goodput that a candidate promises, in Mbps. While its loss is not
known, it promises its whole rate up to the current candidate, and nothing
above. An excluded candidate promises nothing. -/
def goodput (f : Flow rates) (bound? : Option Float) (i : rates.Index) :
    Float :=
  let loss := f.combinedLoss.lossAt i
  if f.isExcluded bound? i then 0.0
  else if isKnown loss then mbps (rates.get i) * (1.0 - loss)
  else if f.current < i then 0.0
  else mbps (rates.get i)

/-- The first candidate that promises the most. -/
def bestCandidate (f : Flow rates) (bound? : Option Float) : rates.Index :=
  let better (best : rates.Index × Float) (i : rates.Index) :=
    if best.2 < f.goodput bound? i then (i, f.goodput bound? i) else best
  (rates.indices.foldl better (rates.bottom, -1.0 / 0.0)).1

/-- Chooses the candidate as the mode has it: the one that was set, the one
that the baseline selects, or the one that promises the most. -/
def choose (f : Flow rates) (now : Instant) : Checked (Flow rates) :=
  if f.mode.baseline?.isSome then
    match f.baseline? with
    | some baseline => do
        let (baseline, rate) ← baseline.select now
        let current := (rates.index? rate).getD f.current
        return { f with baseline? := some baseline, current }
    | none => .ok f
  else if f.mode = .fixed then
    .ok f
  else
    let bound? := if f.mode.isBounded then some f.lossBound else none
    .ok { f with current := f.bestCandidate bound? }

/-- Merges and chooses, except after a timeout. -/
def prepare (f : Flow rates) (query : Query) : Checked (Flow rates) :=
  if query.occasion.isTimeout then .ok f
  else do (← f.merge query.now).choose query.now

-- ============================================================== sizing

/-- The limits of this flow's batches. -/
def sizer (f : Flow rates) : Sizer :=
  { fieldSize := f.config.codedField
    maxK := f.config.maxK
    useCoding := f.useCoding }

/-- Sizes the batch at the current candidate. -/
def size (f : Flow rates) (query : Query) : Except Failure BatchSize :=
  let loss := f.combinedLoss.lossAt f.current
  let packetUs := packetTime f.rate query.packetSize query.overheadUs
  match query.occasion with
  | .data => f.sizer.data loss query.coherenceUs packetUs
  | .timeout k => f.sizer.timeout loss k
  | .retransmission k =>
      f.sizer.retransmission loss k query.coherenceUs packetUs

/-- Whether the batch is sent twice: at a high loss, when packets are sent
again, and on the slowest candidate. -/
def duplicates (f : Flow rates) (occasion : Occasion) : Bool :=
  f.mayDuplicate
    && (f.duplicateThreshold < f.combinedLoss.lossAt f.current
      || occasion.isRetransmission || f.isBootstrapping)

-- ============================================================== layout

/-- Probes in a batch that is sent twice. -/
def duplicateProbes : Nat := 1

/-- The band that they are drawn from. -/
def duplicateBound : Nat := 2

/-- Finds the probes of a batch. One that is sent twice must not slow the
second path down, and has few. -/
def probe (f : Flow rates) (duplicate : Bool) : Checked (Flow rates) := do
  let (count, bound) :=
    if duplicate then (min f.config.probeCount duplicateProbes, duplicateBound)
    else (f.config.probeCount, f.config.probeBound)
  let (probes, generator) ←
    Probing.probes rates f.mode.probing f.current.val count bound f.feasible
      f.generator
  return { f with probes, generator }

/-- The rates of a batch of `coded` packets. A baseline selects again for
every packet after the first; where probes are found, they are sorted in
among the coded packets. -/
def layOut (f : Flow rates) (coded : Nat) (now : Instant) :
    Checked (Flow rates × List Rate) :=
  if f.mode.baseline?.isSome then
    match f.baseline? with
    | some baseline => do
        let (baseline, rest) ← baseline.selectMany now (coded - 1)
        return ({ f with baseline? := some baseline }, f.rate :: rest)
    | none => .ok (f, List.replicate (max coded 1) f.rate)
  else if f.mode = .fixed then
    .ok (f, List.replicate coded f.rate)
  else
    let all := List.replicate coded f.rate ++ f.probes
    .ok (f, all.mergeSort (· ≤ ·))

/-- Turns a size into a batch. One that is sent twice carries no coded
redundancy, only as many packets as there are data packets. -/
def assemble (f : Flow rates) (query : Query) (size : BatchSize) :
    Checked (Flow rates × Decision) := do
  let duplicate := f.duplicates query.occasion
  let f ← f.probe duplicate
  let coded := if duplicate then size.k else size.n
  let (f, all) ← f.layOut coded query.now
  return (f, { k := size.k, n := all.length, rates := all, duplicate })

/-- Decides on the next batch. -/
def decide (f : Flow rates) (query : Query) :
    Checked (Flow rates × Except Error Decision) := do
  let f ← f.prepare query
  match f.size query with
  | .error (.refused error) => return (f, .error error)
  | .error (.broken fault) => throw fault
  | .ok size =>
      let (f, decision) ← f.assemble query size
      return (f, .ok decision)

end Flow

end LinkAdaptation
