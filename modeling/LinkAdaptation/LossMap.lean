/-
Loss estimates per candidate rate. An estimate is a number in `[0, 1]`, or
`unknownLoss` before anything was learnt. New losses are blended in with a
weight for the past; beside the estimate stand the counts of the range it
was last computed from.
-/
import LinkAdaptation.Window

namespace LinkAdaptation

/-- The estimate of one rate, with the counts behind it. -/
structure LossEntry where
  sent : Nat := 0
  acked : Nat := 0
  loss : Float := unknownLoss
  deriving DecidableEq

/-- Whether a number lies in `[0, 1]`. -/
def inUnit (x : Float) : Bool := 0.0 ≤ x && x ≤ 1.0

/-- What an estimate may be: a share, or not known. -/
def isEstimate (loss : Float) : Bool := !isKnown loss || inUnit loss

/-- The weight of the past under which a new loss simply replaces it. -/
def replacing : Float := -1.0

/-- Blends a loss into an estimate. A positive weight mixes two known
losses, `weight` parts of the old to `1 - weight` of the new. A weight
that is not positive replaces the estimate, whatever the new loss is, and
so does any weight when nothing was known. What remains — a known
estimate and nothing new — keeps the estimate. -/
def LossEntry.blend (e : LossEntry) (loss weight : Float) : LossEntry :=
  if 0.0 < weight && isKnown loss && isKnown e.loss then
    { e with loss := e.loss * weight + loss * (1.0 - weight) }
  else if weight ≤ 0.0 || !isKnown e.loss then
    { e with loss }
  else
    e

/-- An estimate for every candidate rate. -/
structure LossMap (rates : RateSet) where
  entries : Table rates LossEntry
  deriving DecidableEq

namespace LossMap

variable {rates : RateSet}

/-- The map before anything was learnt. -/
def empty (rates : RateSet) : LossMap rates :=
  ⟨.fill rates {}⟩

/-- The index of a rate, or the refusal to go on without one. -/
def index (rates : RateSet) (rate : Rate) : Except Error rates.Index :=
  match rates.index? rate with
  | some i => .ok i
  | none => .error (.unknownRate rate)

/-- What is known about a rate. -/
def entry (m : LossMap rates) (rate : Rate) : Except Error LossEntry := do
  return m.entries.get (← index rates rate)

/-- The estimate of the candidate at an index. -/
def lossAt (m : LossMap rates) (i : rates.Index) : Float :=
  (m.entries.get i).loss

/-- Blends a loss into the estimate of a rate. -/
def update (m : LossMap rates) (rate : Rate) (loss weight : Float) :
    Except Error (LossMap rates) := do
  let i ← index rates rate
  if !isEstimate loss then
    throw (.invalidLoss loss)
  else if 1.0 < weight then
    throw (.invalidWeight weight)
  else
    return ⟨m.entries.set i ((m.entries.get i).blend loss weight)⟩

/-- Replaces the estimate of a rate. -/
def replace (m : LossMap rates) (rate : Rate) (loss : Float) :
    Except Error (LossMap rates) :=
  m.update rate loss replacing

/-- Overwrites the counts of a rate. -/
def setCounts (m : LossMap rates) (rate : Rate) (sent acked : Nat) :
    Except Error (LossMap rates) := do
  let i ← index rates rate
  return ⟨m.entries.set i { m.entries.get i with sent, acked }⟩

/-- Every candidate with its entry, slowest first. -/
def snapshot (m : LossMap rates) : List (Rate × LossEntry) :=
  rates.indices.map fun i => (rates.get i, m.entries.get i)

/-- The best `rate · (1 - loss)` over the candidates with a known loss, in
tenths of Mbps; none while nothing is known. -/
def throughput? (m : LossMap rates) : Option Float :=
  let goodputs := m.snapshot.filterMap fun (rate, e) =>
    if isKnown e.loss then some (rate.toFloat * (1.0 - e.loss)) else none
  match goodputs with
  | [] => none
  | first :: rest => some (rest.foldl maxNum first)

-- ======================================================== whole updates

/-- Blends one loss into every estimate. All of them have to be
estimates. -/
def blendAll (m : LossMap rates) (losses : Table rates Float)
    (weight : Float) : Checked (LossMap rates) :=
  if losses.all isEstimate then
    .ok ⟨Vector.zipWith (·.blend · weight) m.entries losses⟩
  else
    .error .lossOutOfRange

/-- Replaces every estimate. -/
def replaceAll (m : LossMap rates) (losses : Table rates Float) :
    Checked (LossMap rates) :=
  m.blendAll losses replacing

/-- Takes over what a range of outcomes showed: its losses are blended in
and its counts replace the old ones. Without data nothing new is known of
any rate, and the counts stay. -/
def absorb (m : LossMap rates) (table? : Option (Table rates Tally))
    (weight : Float) : Checked (LossMap rates) :=
  match table? with
  | none => m.blendAll (.fill rates unknownLoss) weight
  | some table => do
      let blended ← m.blendAll (table.map Tally.loss) weight
      let withCounts (e : LossEntry) (t : Tally) : LossEntry :=
        { e with sent := t.sent, acked := t.acked }
      return ⟨Vector.zipWith withCounts blended.entries table⟩

/-- The map with every rate given up as lost. -/
def giveUp (m : LossMap rates) : LossMap rates :=
  ⟨m.entries.map ({ · with loss := 1.0 })⟩

-- ================================================================= runs

/-- A request that can change a loss map. -/
inductive Request where
  | update (rate : Rate) (loss weight : Float)
  | replace (rate : Rate) (loss : Float)
  | setCounts (rate : Rate) (sent acked : Nat)

/-- The map after a request, and the refusal if there was one. A refused
request changes nothing. -/
def handle (m : LossMap rates) (request : Request) :
    LossMap rates × Option Error :=
  let result :=
    match request with
    | .update rate loss weight => m.update rate loss weight
    | .replace rate loss => m.replace rate loss
    | .setCounts rate sent acked => m.setCounts rate sent acked
  match result with
  | .ok after => (after, none)
  | .error error => (m, some error)

-- ================================================================ texts

/-- One line per candidate: rate, loss, and acknowledged over sent. -/
def text (m : LossMap rates) : String :=
  String.join <| m.snapshot.map fun (rate, e) =>
    rate.toNat.repr ++ "\t" ++ fixedText 3 e.loss ++ "\t"
      ++ e.acked.repr ++ "/" ++ e.sent.repr ++ "\n"

end LossMap

end LinkAdaptation
