/-
The candidate rates of a link: a fixed, non-empty, strictly ascending
list. A candidate is named by its index, so tables over the candidates are
vectors of the set's size and an index into one needs no check.
-/
import LinkAdaptation.Error

namespace LinkAdaptation

/-- Every rate is below the one right after it. -/
def isAscending : List Rate → Bool
  | a :: b :: rest => a < b && isAscending (b :: rest)
  | _ => true

/-- Neighbours in order are enough for the whole list. -/
theorem isAscending_iff (l : List Rate) :
    isAscending l = true ↔ l.Pairwise (· < ·) := by
  induction l with
  | nil => simp [isAscending]
  | cons a l ih =>
      cases l with
      | nil => simp [isAscending]
      | cons b rest =>
          simp only [isAscending, Bool.and_eq_true, decide_eq_true_eq, ih]
          refine ⟨fun ⟨hab, h⟩ => ?_, fun h => ?_⟩
          · refine List.pairwise_cons.2 ⟨fun c hc => ?_, h⟩
            rcases List.mem_cons.1 hc with rfl | hc
            · exact hab
            · exact UInt16.lt_trans hab ((List.pairwise_cons.1 h).1 c hc)
          · obtain ⟨h₁, h₂⟩ := List.pairwise_cons.1 h
            exact ⟨h₁ b (List.mem_cons_self ..), h₂⟩

/-- A set of candidate rates, in ascending order. -/
structure RateSet where
  toArray : Array Rate
  nonempty : 0 < toArray.size
  ascending : toArray.toList.Pairwise (· < ·)
  deriving DecidableEq

namespace RateSet

/-- The set of a list's rates; the list has to name at least one and to
ascend strictly. -/
def ofList (l : List Rate) : Except Error RateSet :=
  if empty : l = [] then
    .error .emptyRateSet
  else if sorted : isAscending l then
    .ok
      { toArray := l.toArray
        nonempty := by simpa using List.length_pos_iff.2 empty
        ascending := (isAscending_iff l).1 sorted }
  else
    .error .unsortedRates

variable (rates : RateSet)

/-- The number of candidates. -/
abbrev size : Nat := rates.toArray.size

/-- The candidates, slowest first. -/
def toList : List Rate := rates.toArray.toList

/-- The name of a candidate: its place in the set. -/
abbrev Index := Fin rates.size

/-- The names of all candidates, slowest first. -/
def indices : List rates.Index := List.finRange rates.size

/-- The candidate at an index. -/
def get (i : rates.Index) : Rate := rates.toArray[i]

/-- The candidate at a number, when the number is an index. -/
def get? (n : Nat) : Option Rate := rates.toArray[n]?

/-- The index of the slowest candidate. -/
def bottom : rates.Index := ⟨0, rates.nonempty⟩

/-- The index of the fastest candidate. -/
def top : rates.Index :=
  ⟨rates.size - 1, Nat.sub_lt rates.nonempty Nat.one_pos⟩

/-- The slowest candidate. -/
def lowest : Rate := rates.get rates.bottom

/-- The fastest candidate. -/
def highest : Rate := rates.get rates.top

-- =========================================================== searching

/-- The index of a rate between two bounds, by halving their distance. -/
def search (rate : Rate) (lo hi : Nat) (bound : hi ≤ rates.size) :
    Option rates.Index :=
  if gap : lo < hi then
    let mid : rates.Index := ⟨lo + (hi - lo) / 2, by omega⟩
    if rates.get mid = rate then
      some mid
    else if rates.get mid < rate then
      search rate (lo + (hi - lo) / 2 + 1) hi bound
    else
      search rate lo (lo + (hi - lo) / 2) (by omega)
  else
    none
termination_by hi - lo

/-- The index of a rate, when it is a candidate. -/
def index? (rate : Rate) : Option rates.Index :=
  rates.search rate 0 rates.size (Nat.le_refl _)

/-- Whether a rate is a candidate. -/
def contains (rate : Rate) : Bool := (rates.index? rate).isSome

-- =============================================================== texts

/-- Rates in Mbps, in brackets. -/
def text : String :=
  "[" ++ String.intercalate ", " (rates.toList.map mbpsText) ++ "] Mbps"

end RateSet

end LinkAdaptation
