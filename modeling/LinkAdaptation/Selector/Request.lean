/-
What can be asked of a selector that may change it. A selector keeps no
outcomes, so a request to forget one names it. A run is a list of requests;
it ends early only when a counter has no room for one more, outcome or
decision.
-/
import LinkAdaptation.Selector.Rraa
import LinkAdaptation.Selector.SampleRate

namespace LinkAdaptation

/-- A request that can change a selector. -/
inductive Selector.Request where
  | record (outcome : Outcome)
  | forget (outcome : Outcome)
  | select (now : Instant)
  | reset
  deriving DecidableEq, Repr

/-- Whether a request is for a decision. -/
def Selector.Request.isSelect : Selector.Request → Bool
  | .select _ => true
  | _ => false

namespace Rraa

variable {rates : RateSet}

/-- The selector after a request. The rate of a decision is its current
one then. -/
def handle (s : Rraa rates) : Selector.Request → Checked (Rraa rates)
  | .record o => s.record o
  | .forget o => .ok (s.forget o)
  | .select _ => .ok s.select.1
  | .reset => .ok s.reset

/-- The selector after a list of requests. -/
def run (s : Rraa rates) : List Selector.Request → Checked (Rraa rates)
  | [] => .ok s
  | request :: rest => do (← s.handle request).run rest

end Rraa

namespace SampleRate

variable {rates : RateSet}

/-- The selector after a request. The rate of a decision is its current
one then. -/
def handle (s : SampleRate rates) :
    Selector.Request → Checked (SampleRate rates)
  | .record o => s.record o
  | .forget o => .ok (s.forget o)
  | .select now => do return (← s.select now).1
  | .reset => .ok s.reset

/-- The selector after a list of requests. -/
def run (s : SampleRate rates) (requests : List Selector.Request) :
    Checked (SampleRate rates) :=
  requests.foldlM handle s

end SampleRate

end LinkAdaptation
