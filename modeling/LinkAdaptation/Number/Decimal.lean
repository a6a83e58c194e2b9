/-
Decimal texts of doubles. Two notations occur: the shortest decimal that
reads back as the same double, and a decimal with a fixed number of
places. Both are positional, never with an exponent; a whole number has
no point; the sign of a negative zero is written; the infinities are
`inf` and `-inf`, and NaN is `NaN`.

The shortest decimal is found on the decimal grids `10 ^ s`, coarsest
first. A point of a grid that reads back as the double lies within half a
unit of it, and if any point of the grid does, one of the double's two
neighbours on that grid does; so two candidates a grid are enough, and
the first grid with a hit has the fewest digits.
-/
import LinkAdaptation.Number.Value

namespace LinkAdaptation

open Float.Model.UnpackedFloat (Sign)

/-- The number `digits · 10 ^ scale`. -/
structure Decimal where
  digits : Nat
  scale : Int
  deriving DecidableEq, Repr

namespace Decimal

/-- Ten multiplied so many times. -/
def powerOfTen (n : Nat) : Nat := Nat.pow 10 n

/-- A decimal written out in full, with as many places as its scale is
below zero. -/
def positional (d : Decimal) : String :=
  if 0 ≤ d.scale then
    (d.digits * powerOfTen d.scale.toNat).repr
  else
    let places := (-d.scale).toNat
    let whole := d.digits / powerOfTen places
    let rest := (d.digits % powerOfTen places).repr
    whole.repr ++ "." ++ "".pushn '0' (places - rest.length) ++ rest

end Decimal

-- ======================================================= reading back

/-- The reals that round to one double: everything between two bounds,
the bounds themselves only when `closed`. -/
structure Basin where
  low : Rat
  high : Rat
  closed : Bool
  deriving Repr

/-- Whether a real rounds to the basin's double. -/
def Basin.holds (b : Basin) (q : Rat) : Bool :=
  if b.closed then b.low ≤ q && q ≤ b.high else b.low < q && q < b.high

/-- The least mantissa of 53 bits. -/
def leastMantissa : Nat := 4503599627370496

/-- The basin of `m · 2 ^ e`. The bounds lie halfway to the neighbouring
doubles; below a power of two the neighbour is twice as near. A tie goes
to the even mantissa, which therefore owns its bounds. -/
def basin (m : Nat) (e : Int) : Basin :=
  let below : Rat := if m = leastMantissa then 1 / 4 else 1 / 2
  { low := (m - below) * (2 : Rat) ^ e
    high := (m + 1 / 2) * (2 : Rat) ^ e
    closed := m % 2 = 0 }

-- ============================================================ shortest

/-- The point of the grid `10 ^ scale` that reads back and is nearest to
`v`; of two equally near ones the upper. -/
def gridPoint? (v : Rat) (b : Basin) (scale : Int) : Option Nat :=
  let unit := (10 : Rat) ^ scale
  let n := (v / unit).floor.toNat
  let lower := n * unit
  let upper := (n + 1) * unit
  match b.holds lower, b.holds upper with
  | true, true => some (if v - lower < upper - v then n else n + 1)
  | true, false => some n
  | false, true => some (n + 1)
  | false, false => none

/-- The first grid point that reads back, from the grid `10 ^ scale` to
finer ones. -/
def scanGrids (v : Rat) (b : Basin) : Nat → Int → Decimal
  | 0, scale => ⟨(v / (10 : Rat) ^ scale).floor.toNat, scale⟩
  | fuel + 1, scale =>
      match gridPoint? v b scale with
      | some n => ⟨n, scale⟩
      | none => scanGrids v b fuel (scale - 1)

/-- The shortest decimal that reads back as `m · 2 ^ e`. The scan starts
above the number's leading digit; a double is itself a point of the grid
`10 ^ -1074`, so the scan always ends at a hit. -/
def shortest (m : Nat) (e : Int) : Decimal :=
  let v := (m : Rat) * (2 : Rat) ^ e
  let top := (Nat.toDigits 10 v.ceil.toNat).length
  scanGrids v (basin m e) (top + 1075) top

-- =============================================================== texts

/-- What a negative number opens with. -/
def signText : Sign → String
  | .negative => "-"
  | .positive => ""

/-- The shortest decimal text that reads back as the double. -/
def shortestText (x : Float) : String :=
  match unpack x with
  | .zero sign => signText sign ++ "0"
  | .finite sign m e _ => signText sign ++ (shortest m e).positional
  | .infinity sign => signText sign ++ "inf"
  | .notANumber => "NaN"

/-- A double with a fixed number of places. Its exact value is rounded to
the nearest decimal, a half to the even one. -/
def fixedText (places : Nat) (x : Float) : String :=
  let rounded (q : Rat) : String :=
    (Decimal.mk (roundHalfEven (q * 10 ^ places)).toNat (-places)).positional
  match unpack x with
  | .zero sign => signText sign ++ rounded 0
  | .finite sign m e _ => signText sign ++ rounded (m * (2 : Rat) ^ e)
  | .infinity sign => signText sign ++ "inf"
  | .notANumber => "NaN"

end LinkAdaptation
