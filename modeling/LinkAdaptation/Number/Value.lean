/-
What a double stands for, in exact arithmetic. `Float` is used for every
computed figure of the library; wherever a figure leaves the doubles — a
packet count, a text, a duration in nanoseconds — the crossing is made on
the exact rational value, so that what is rounded, and which way, is
visible in the definition.

A double is read through the unpacked form of its logical model: a zero,
a sign with mantissa and exponent, an infinity, or not a number.
-/
namespace LinkAdaptation

open Float.Model (UnpackedFloat)
open Float.Model.UnpackedFloat (Sign)

/-- The constructor a double belongs to, with its sign and digits. -/
def unpack (x : Float) : UnpackedFloat := x.toModel.unpack

/-- The rational number `± m · 2 ^ e`. -/
def dyadic (sign : Sign) (m : Nat) (e : Int) : Rat :=
  (sign.apply m : Int) * (2 : Rat) ^ e

/-- The number a finite double stands for; the infinities and NaN stand
for none. -/
def value? (x : Float) : Option Rat :=
  match unpack x with
  | .zero _ => some 0
  | .finite sign m e _ => some (dyadic sign m e)
  | .infinity _ => none
  | .notANumber => none

-- ================================================== integer readings

/-- `n`, moved to the nearer end of `lo … hi` when it lies outside. -/
def clamp (lo hi n : Int) : Int := max lo (min hi n)

/-- A double as an integer of `lo … hi`: its value is rounded by `round`
and clamped, an infinity goes to its end of the range, and NaN reads as
zero. -/
def readInt (round : Rat → Int) (lo hi : Int) (x : Float) : Int :=
  match unpack x with
  | .zero _ => clamp lo hi 0
  | .finite sign m e _ => clamp lo hi (round (dyadic sign m e))
  | .infinity .positive => hi
  | .infinity .negative => lo
  | .notANumber => 0

/-- The largest size a machine word can hold. -/
def wordMax : Nat := UInt64.size - 1

/-- The signed 64-bit numbers are those from `-signedLimit` up to, but
without, `signedLimit`. -/
def signedLimit : Int := 9223372036854775808

/-- The greatest integer not above a double, as a signed 64-bit number. -/
def floorInt (x : Float) : Int :=
  readInt Rat.floor (-signedLimit) (signedLimit - 1) x

/-- The least size not below a double, as a 64-bit word. -/
def ceilSize (x : Float) : Nat := (readInt Rat.ceil 0 wordMax x).toNat

/-- The signed number that the 64 bits of a size spell: sizes from
`signedLimit` on come out negative. -/
def signedWord (n : Nat) : Int := Int.bmod n UInt64.size

/-- The nearest integer; a half goes to the even neighbour. -/
def roundHalfEven (q : Rat) : Int :=
  let n := q.floor
  let rest := q - n
  if rest < 1 / 2 then n
  else if 1 / 2 < rest then n + 1
  else if n % 2 = 0 then n else n + 1

-- =============================================================== sums

/-- Sums below this are what rounding leaves of zero. -/
def noise : Float := 1e-9

/-- Whether a sum that was added to and subtracted from is only noise. -/
def isNoise (x : Float) : Bool := x.abs < noise

/-- A sum, zero if it is only noise. -/
def settle (x : Float) : Float := if isNoise x then 0.0 else x

-- ============================================== extremes of two doubles

/-- The larger of two doubles. An operand that is not a number is ignored,
and of two equal operands the first is taken. -/
def maxNum (a b : Float) : Float :=
  if a.isNaN then b else if b.isNaN then a else if a < b then b else a

/-- The smaller of two doubles, with the same rules as `maxNum`. -/
def minNum (a b : Float) : Float :=
  if a.isNaN then b else if b.isNaN then a else if b < a then b else a

end LinkAdaptation
