/-
The modes of rate adaptation: how estimates from the two vantage points are
merged, how probe rates are found, and which baseline, if any, selects the
rate.
-/
import LinkAdaptation.Batch.Probe
import LinkAdaptation.LossMap
import LinkAdaptation.Selector.Baseline

namespace LinkAdaptation

/-- How the estimates of the vantage points are merged. -/
inductive Merging where
  | frontOnly
  | backOnly
  /-- Both, each as it last reported. -/
  | delayed
  /-- The front as it was where the back is now, and then both. -/
  | scouted
  deriving DecidableEq, Repr

/-- Merges a front and a back loss. Where one is not known the larger
stands, which is the known one; a zero on one side halves the larger; and
otherwise both have to happen independently. -/
def mergeLosses (front back : Float) : Float :=
  if !isKnown front || !isKnown back then maxNum front back
  else if front == 0.0 || back == 0.0 then maxNum front back / 2.0
  else front * back

/-- The algorithm that drives a flow. -/
inductive Mode where
  /-- The rate that was set. -/
  | fixed
  /-- Selection by average airtime, from back feedback. -/
  | sampleRate
  /-- Robust rate adaptation, from back feedback. -/
  | rraa
  /-- Delayed merging and probing in order. -/
  | batchSequential
  /-- Delayed merging and random probing. -/
  | batchRandom
  /-- Scouted merging and probing in order. -/
  | scoutSequential
  /-- Scouted merging and random probing. -/
  | scoutRandom
  /-- As `scoutSequential`, without rates of too much loss. -/
  | boundedSequential
  /-- As `scoutRandom`, without rates of too much loss. -/
  | boundedRandom
  deriving DecidableEq, Repr

namespace Mode

/-- Every mode, in the order of their codes. -/
def all : List Mode :=
  [ .fixed, .sampleRate, .rraa, .batchSequential, .batchRandom
  , .scoutSequential, .scoutRandom, .boundedSequential, .boundedRandom ]

/-- The code of a mode: its place among all. -/
def code (mode : Mode) : UInt8 := UInt8.ofNat (all.idxOf mode)

/-- The mode of a code. -/
def ofCode (code : UInt8) : Except Error Mode :=
  match all[code.toNat]? with
  | some mode => .ok mode
  | none => .error (.invalidMode code)

/-- How the mode merges estimates. -/
def merging : Mode → Merging
  | .fixed | .sampleRate | .rraa => .backOnly
  | .batchSequential | .batchRandom => .delayed
  | .scoutSequential | .scoutRandom => .scouted
  | .boundedSequential | .boundedRandom => .scouted

/-- How the mode finds probe rates. -/
def probing : Mode → Probing
  | .fixed | .sampleRate | .rraa => .off
  | .batchSequential | .scoutSequential | .boundedSequential => .sequential
  | .batchRandom | .scoutRandom | .boundedRandom => .random

/-- The baseline that selects the rate, if one does. -/
def baseline? : Mode → Option BaselineKind
  | .sampleRate => some .sampleRate
  | .rraa => some .rraa
  | _ => none

/-- Whether rates of too much loss are left out. -/
def isBounded : Mode → Bool
  | .boundedSequential | .boundedRandom => true
  | _ => false

/-- Whether the mode goes by the best expected goodput. -/
def isGoodput (mode : Mode) : Bool :=
  mode != .fixed && mode.baseline?.isNone

/-- The mode in words. -/
def title : Mode → String
  | .fixed => "Fixed rate"
  | .sampleRate => "Sample Rate"
  | .rraa => "RRAA"
  | .batchSequential => "Batch sequential"
  | .batchRandom => "Batch random"
  | .scoutSequential => "Scout sequential"
  | .scoutRandom => "Scout random"
  | .boundedSequential => "Scout bounded loss sequential"
  | .boundedRandom => "Scout bounded loss random"

/-- The mode as one word. -/
def label : Mode → String
  | .fixed => "Fixed"
  | .sampleRate => "SampleRate"
  | .rraa => "Rraa"
  | .batchSequential => "BatchSequential"
  | .batchRandom => "BatchRandom"
  | .scoutSequential => "ScoutSequential"
  | .scoutRandom => "ScoutRandom"
  | .boundedSequential => "ScoutBoundedLossSequential"
  | .boundedRandom => "ScoutBoundedLossRandom"

end Mode

end LinkAdaptation
