/-
Instants and durations, in whole nanoseconds. A duration is at most
`Duration.max`; an instant keeps its seconds in a signed 64-bit number, so
moving one by a duration can leave the range, and then has no answer.
-/
import LinkAdaptation.Number.Value

namespace LinkAdaptation

-- =========================================================== durations

/-- A length of time in nanoseconds. -/
structure Duration where
  nanos : Nat
  deriving DecidableEq, Repr

namespace Duration

instance : LE Duration := ⟨fun a b => a.nanos ≤ b.nanos⟩
instance : LT Duration := ⟨fun a b => a.nanos < b.nanos⟩
instance (a b : Duration) : Decidable (a ≤ b) := Nat.decLe a.nanos b.nanos
instance (a b : Duration) : Decidable (a < b) := Nat.decLt a.nanos b.nanos

/-- Nanoseconds in one second. -/
def second : Nat := 1000000000

/-- The longest duration: its seconds fill 64 bits. -/
def max : Duration := ⟨UInt64.size * second - 1⟩

/-- A whole number of seconds. -/
def seconds (n : Nat) : Duration := ⟨n * second⟩

/-- A whole number of milliseconds. -/
def millis (n : Nat) : Duration := ⟨n * 1000000⟩

/-- One nanosecond, the smallest step of time. -/
def tick : Duration := ⟨1⟩

/-- Half a duration, rounded down. -/
def half (d : Duration) : Duration := ⟨d.nanos / 2⟩

/-- A duration in seconds, as the sum of its whole seconds and of its
remaining nanoseconds divided by a billion. -/
def toSeconds (d : Duration) : Float :=
  (d.nanos / second).toFloat + (d.nanos % second).toFloat / 1000000000.0

/-- The duration nearest to a number of seconds, a half going to the even
nanosecond. Negative numbers, numbers that do not fit 64 bits, the
infinities and NaN have none. -/
def ofSeconds? (x : Float) : Option Duration := do
  let v ← value? x
  if 0 ≤ v ∧ v < UInt64.size then
    some ⟨(roundHalfEven (v * second)).toNat⟩
  else
    none

end Duration

-- ============================================================ instants

/-- A point in time, in nanoseconds from a fixed origin. -/
structure Instant where
  nanos : Int
  deriving DecidableEq, Repr

namespace Instant

instance : LE Instant := ⟨fun a b => a.nanos ≤ b.nanos⟩
instance : LT Instant := ⟨fun a b => a.nanos < b.nanos⟩
instance (a b : Instant) : Decidable (a ≤ b) := Int.decLe a.nanos b.nanos
instance (a b : Instant) : Decidable (a < b) := Int.decLt a.nanos b.nanos
instance : Min Instant := minOfLe
instance : Max Instant := maxOfLe

/-- The instant of a nanosecond count, when its seconds fit 64 bits. -/
def ofNanos? (n : Int) : Option Instant :=
  if -signedLimit * Duration.second ≤ n
      ∧ n < signedLimit * Duration.second then
    some ⟨n⟩
  else
    none

theorem ofNanos?_eq_some {n : Int} {t : Instant} (h : ofNanos? n = some t) :
    t = ⟨n⟩ := by
  unfold ofNanos? at h
  split at h
  · exact (Option.some.inj h).symm
  · cases h

/-- The instant a duration later, when there is one. -/
def add? (t : Instant) (d : Duration) : Option Instant :=
  ofNanos? (t.nanos + d.nanos)

/-- The instant a duration earlier, when there is one. -/
def sub? (t : Instant) (d : Duration) : Option Instant :=
  ofNanos? (t.nanos - d.nanos)

/-- The time that has passed since `earlier`; none at all when `earlier`
lies ahead. -/
def since (t earlier : Instant) : Duration :=
  ⟨(t.nanos - earlier.nanos).toNat⟩

/-- The time that has passed since `earlier`, undefined when `earlier`
lies ahead. -/
def since? (t earlier : Instant) : Option Duration :=
  if earlier ≤ t then some (t.since earlier) else none

end Instant

end LinkAdaptation
