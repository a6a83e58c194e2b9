/-
The size of a coded batch: `k` data packets are coded into `n`, so that any
`k` of them are enough. Three occasions size a batch — fresh data, a
partial batch flushed after a timeout, and lost packets sent again. Each
adds a margin to the expected loss and then sees to it that one packet more
is sent than the loss alone asks for.

The steps have a fixed order. A result is handed out only after it has
been held against its own limits.
-/
import LinkAdaptation.Airtime
import LinkAdaptation.LossMap

namespace LinkAdaptation

/-- A batch of `k` packets sent as `n`. -/
structure BatchSize where
  k : Nat
  n : Nat
  deriving DecidableEq, Repr

/-- The limits that batches are sized under. -/
structure Sizer where
  /-- The most packets one code can hold. -/
  fieldSize : Nat
  /-- The most data packets in a batch. -/
  maxK : Nat
  /-- Without coding, `n` is `k`. -/
  useCoding : Bool
  deriving DecidableEq, Repr

namespace Sizer

-- ========================================================== redundancy

/-- Redundancy of fresh data while the loss is not known. -/
def dataStart : Float := 0.6

/-- Redundancy of flushed and repeated packets while the loss is not
known. -/
def recoveryStart : Float := 0.8

/-- The margin for losses that come in bursts. -/
def margin : Float := 0.05

/-- The loss above which no extra packet is asked for. -/
def extraLimit : Float := 0.9

/-- The share of a batch to spend on redundancy: the loss, or a start
value while it is not known, with the margin on top. -/
def redundancy (loss start : Float) : Float :=
  if isKnown loss then loss + margin else start + margin

/-- Whether the extra packet is asked for. -/
def asksExtra (loss : Float) : Bool := isKnown loss && loss ≤ extraLimit

/-- The packets that carry `k` data packets across a loss, rounded up. -/
def spread (k : Nat) (loss : Float) : Nat :=
  ceilSize (k.toFloat / (1.0 - loss))

/-- The packets that carry `k` data packets across a loss, and the extra
one; nothing where it is not asked for. -/
def needed? (k : Nat) (loss : Float) : Checked (Option Nat) :=
  if asksExtra loss then
    if spread k loss < wordMax then .ok (some (spread k loss + 1))
    else .error .sizeOverflow
  else
    .ok none

/-- `n`, raised to what is needed if that is more and still allowed. -/
def raise (n : Nat) (needed? : Option Nat) (allowed : Nat) : Nat :=
  match needed? with
  | some needed => if n < needed ∧ needed ≤ allowed then needed else n
  | none => n

/-- The size, if it keeps a promise. -/
def holding (promise : Bool) (size : BatchSize) : Except Failure BatchSize :=
  if promise then .ok size else .error (.broken .sizeOutOfBounds)

/-- The packets that fit a coherence time. -/
def fit (coherenceUs packetUs : UInt32) : Nat :=
  coherenceUs.toNat / max packetUs.toNat 1

-- =========================================================== occasions

/-- The batch that fills one coherence time with fresh data. As many
packets are sent as fit, and the redundancy decides how many data packets
they carry. Where those are more than the limit, they are cut to it, and
the packets sent to what the rest needs. -/
def data (s : Sizer) (loss : Float) (coherenceUs packetUs : UInt32) :
    Except Failure BatchSize :=
  let room := fit coherenceUs packetUs
  if room = 0 then
    .error (.refused (.coherenceTooShort coherenceUs packetUs))
  else if !s.useCoding then
    .ok { k := min room s.maxK, n := min room s.maxK }
  else
    let kept := 1.0 - redundancy loss dataStart
    let limit := signedWord s.maxK
    let free := floorInt (room.toFloat * kept)
    let (k, n) :=
      if limit < free then (limit, ceilSize (Float.ofInt limit / kept))
      else (free, room)
    let n := min n s.fieldSize
    let k :=
      if asksExtra loss then min k (floorInt (n.toFloat * (1.0 - loss)) - 1)
      else k
    let k := (max k 1).toNat
    holding (k ≤ s.maxK && k ≤ n && n ≤ s.fieldSize) { k, n }

/-- The batch that flushes `k` waiting packets. The redundancy leaves room
for `k` in the field. -/
def timeout (s : Sizer) (loss : Float) (k : Nat) : Except Failure BatchSize :=
  if k = 0 ∨ s.maxK < k then
    .error (.refused (.invalidBatch k s.maxK))
  else if !s.useCoding then
    .ok { k, n := k }
  else if s.fieldSize = 0 then
    .error (.broken .sizeOverflow)
  else
    let most := 1.0 - k.toFloat / (s.fieldSize - 1).toFloat
    let share := minNum (redundancy loss recoveryStart) most
    match needed? k loss with
    | .error fault => .error (.broken fault)
    | .ok needed =>
        let n := min (raise (spread k share) needed s.fieldSize) s.fieldSize
        holding (k ≤ n && n ≤ s.fieldSize) { k, n }

/-- The batch that repeats `k` lost packets within one coherence time. At a
redundancy of one or more, as many packets are sent as fit. -/
def retransmission (s : Sizer) (loss : Float) (k : Nat)
    (coherenceUs packetUs : UInt32) : Except Failure BatchSize :=
  let most := min (fit coherenceUs packetUs) s.fieldSize
  if k = 0 ∨ most < k ∨ s.maxK < k then
    .error (.refused (.invalidBatch k (min most s.maxK)))
  else if !s.useCoding then
    .ok { k, n := k }
  else
    let share := redundancy loss recoveryStart
    let n := if share < 1.0 then spread k share else most
    match needed? k loss with
    | .error fault => .error (.broken fault)
    | .ok needed =>
        let n := min (raise n needed most) most
        holding (k ≤ n && n ≤ most) { k, n }

end Sizer

end LinkAdaptation
