/-
The configuration of a flow, and what makes one acceptable.
-/
import LinkAdaptation.LossMap
import LinkAdaptation.Selector.SampleRate

namespace LinkAdaptation

open LinkAdaptation.Random (Generator Key)

/-- How a flow is set up. -/
structure Config where
  /-- The most packets one code can hold, probes included. -/
  fieldSize : Nat := 256
  /-- The most data packets in a batch. -/
  maxK : Nat := 32
  /-- Metres between the front and the back antenna. -/
  antennaDistance : Float := 1.1
  /-- Width of the range in which front outcomes are looked up. -/
  frontWindow : Duration := .millis 50
  /-- How far back outcomes of the back antenna rule rates out. -/
  backWindow : Duration := .millis 100
  /-- How long both windows keep outcomes. -/
  totalWindow : Duration := .seconds 10
  /-- The weight of the past when losses are blended. -/
  backLossWeight : Float := 0.2
  /-- The merged loss above which a batch is sent twice. -/
  duplicateThreshold : Float := 0.7
  /-- The merged loss above which the bounded modes leave a rate out. -/
  lossBound : Float := 0.65
  /-- Probes in a batch. -/
  probeCount : Nat := 1
  /-- How many candidates above the current one are drawn from. -/
  probeBound : Nat := 2
  /-- Where selection by average airtime begins its search. -/
  bootstrapOrder : BootstrapOrder := .lowestFirst
  /-- The seed of all random draws; entropy where none is given. -/
  seed : Option UInt64 := none
  deriving DecidableEq

namespace Config

/-- Two probes in a batch, from the next three candidates. -/
def aggressive : Config := { probeCount := 2, probeBound := 3 }

/-- No probes, and batches sent twice early. -/
def conservative : Config :=
  { duplicateThreshold := 0.4, probeCount := 0, probeBound := 0 }

/-- The packets of a code that are left once probes are set aside. -/
def codedField (c : Config) : Nat := c.fieldSize - c.probeCount

/-- The first thing wrong with a configuration. -/
def rejection? (c : Config) : Option Error :=
  if c.maxK = 0 then some .invalidMaxK
  else if c.codedField ≤ c.maxK then
    some (.invalidFieldSize c.fieldSize c.maxK c.probeCount)
  else if c.probeBound < c.probeCount then
    some (.invalidSampling c.probeCount c.probeBound)
  else if !inUnit c.duplicateThreshold then
    some (.invalidLoss c.duplicateThreshold)
  else if !inUnit c.lossBound then some (.invalidLoss c.lossBound)
  else if 1.0 < c.backLossWeight then
    some (.invalidWeight c.backLossWeight)
  else none

/-- Where draws begin: with the seed or, where none is given, with a key
drawn from the system's entropy. -/
def generator (c : Config) (entropy : Key) : Generator :=
  match c.seed with
  | some seed => .ofSeed seed
  | none => .ofKey entropy

end Config

end LinkAdaptation
