/-
Probe packets: a few packets of a batch go out at rates above the current
one, to learn about them. The probed rates come from a band of candidates
right above the current rate, without those ruled out; they are either the
next ones in order or drawn from the band. Places left over go to the rate
just below the current one, which protects the batch instead.
-/
import LinkAdaptation.RateSet
import LinkAdaptation.Random.Draw

namespace LinkAdaptation

open LinkAdaptation.Random (Generator)

/-- How probe rates are found. -/
inductive Probing where
  /-- There are no probes. -/
  | off
  /-- The next higher candidates, in order. -/
  | sequential
  /-- Candidates drawn from a band above the current one. -/
  | random
  deriving DecidableEq, Repr

/-- Whether a list of feasible rates admits a rate. An empty list is no
evidence, and admits every rate. -/
def admits (feasible : List Rate) (rate : Rate) : Bool :=
  feasible.isEmpty || feasible.contains rate

namespace Probing

variable (rates : RateSet)

/-- The admitted ones of the `width` candidates from a place on. -/
def band (start width : Nat) (feasible : List Rate) : List Rate :=
  ((rates.toList.drop start).take width).filter (admits feasible)

/-- The admitted ones of the `count` candidates from a place on, in
order. -/
def inOrder (start count : Nat) (feasible : List Rate) : List Rate :=
  band rates start count feasible

/-- Up to `count` different admitted ones of the `bound` candidates from a
place on. No more are asked for than the band is wide. -/
def drawn (start count bound : Nat) (feasible : List Rate) (g : Generator) :
    Checked (List Rate × Generator) :=
  if count ≤ bound then
    .ok (g.chooseMany (band rates start bound feasible) count)
  else
    .error .probesOutOfBand

/-- A list filled up to a length. -/
def fill (count : Nat) (pad : Rate) (probes : List Rate) : List Rate :=
  probes ++ List.replicate (count - probes.length) pad

/-- The probe rates of a batch sent at the candidate with number
`current`. -/
def probes (how : Probing) (current count bound : Nat)
    (feasible : List Rate) (g : Generator) :
    Checked (List Rate × Generator) := do
  if wordMax ≤ current then
    throw .sizeOverflow
  else if how = off ∨ count = 0 then
    return ([], g)
  else
    let (above, g) ←
      if how = random then drawn rates (current + 1) count bound feasible g
      else pure (inOrder rates (current + 1) count feasible, g)
    match rates.get? (current - 1) with
    | some below => return (fill count below above, g)
    | none => throw .indexOutOfBounds

end Probing

end LinkAdaptation
