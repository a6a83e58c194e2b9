/-
A flow in words: the whole of it for a reader, and its settings on one
line.
-/
import LinkAdaptation.Flow.Decision

namespace LinkAdaptation.Flow

variable {rates : RateSet}

/-- One loss map under its title. -/
def lossSection (title : String) (m : LossMap rates) : String :=
  "---" ++ title ++ " Loss Map---\n" ++ m.text

/-- One window under its title. -/
def windowSection (title : String) (w : Window rates) : String :=
  "===" ++ title ++ " Feedback Records===\n" ++ w.text

/-- Everything a flow knows. -/
def text (f : Flow rates) : String :=
  "Rate adaptation version: " ++ f.mode.title ++ "\n"
    ++ "Rates: " ++ rates.text ++ "  current: " ++ f.rate.toNat.repr ++ "\n"
    ++ lossSection "Front" f.frontLoss
    ++ lossSection "Back" f.backLoss
    ++ lossSection "Scout" f.scoutLoss
    ++ lossSection "Combine" f.combinedLoss
    ++ windowSection "Front" f.front
    ++ windowSection "Back" f.back
    ++ (f.baseline?.map (·.text)).getD ""

/-- A truth value in words. -/
def boolText (b : Bool) : String := if b then "true" else "false"

/-- A flow's settings on one line. -/
def summary (f : Flow rates) : String :=
  "ScoutRateAdaptation \x7b rates: RateSet \x7b rates: ["
    ++ String.intercalate ", " (rates.toList.map (·.toNat.repr))
    ++ "] \x7d, mode: " ++ f.mode.label
    ++ ", rate: " ++ f.rate.toNat.repr
    ++ ", use_fec: " ++ boolText f.useCoding
    ++ ", enable_duplicate: " ++ boolText f.mayDuplicate ++ " \x7d"

end LinkAdaptation.Flow
