/-
Tables over the candidates of a rate set: one value for each candidate,
found by the candidate's index. What the library learns about single rates
it keeps in such tables.
-/
import LinkAdaptation.RateSet

namespace LinkAdaptation

/-- A value for every candidate rate. -/
abbrev Table (rates : RateSet) (α : Type) := Vector α rates.size

namespace Table

variable {rates : RateSet} {α β : Type}

/-- The same value for every candidate. -/
def fill (rates : RateSet) (a : α) : Table rates α :=
  Vector.replicate rates.size a

/-- The value of a candidate. -/
def get (t : Table rates α) (i : rates.Index) : α := t[i]

/-- The table with another value for a candidate. -/
def set (t : Table rates α) (i : rates.Index) (a : α) : Table rates α :=
  Vector.set t i a

theorem get_fill (a : α) (i : rates.Index) : (fill rates a).get i = a := by
  simp [get, fill]

theorem get_ofFn (f : rates.Index → α) (i : rates.Index) :
    get (Vector.ofFn f) i = f i := by
  simp [get]

theorem get_map (f : α → β) (t : Table rates α) (i : rates.Index) :
    get (t.map f) i = f (t.get i) := by
  simp [get]

theorem get_zipWith {γ : Type} (f : α → β → γ) (t : Table rates α)
    (u : Table rates β) (i : rates.Index) :
    get (Vector.zipWith f t u) i = f (t.get i) (u.get i) := by
  simp [get]

/-- The candidate that was set has the new value. -/
theorem get_set_self (t : Table rates α) (i : rates.Index) (a : α) :
    (t.set i a).get i = a := by
  simp [get, set]

/-- All other candidates keep theirs. -/
theorem get_set_of_ne (t : Table rates α) {i j : rates.Index} (a : α)
    (h : j ≠ i) : (t.set i a).get j = t.get j := by
  have apart : i.val ≠ j.val := fun same => h (Fin.ext same.symm)
  simp [get, set, Vector.getElem_set_ne, apart]

/-- What holds of the other candidates, and of the one that was set, holds
of all. -/
theorem forall_get_set {P : rates.Index → α → Prop} {t : Table rates α}
    {i : rates.Index} {a : α} (hother : ∀ j, j ≠ i → P j (t.get j))
    (hself : P i a) (j : rates.Index) : P j ((t.set i a).get j) := by
  by_cases hj : j = i
  · subst hj
    rw [get_set_self]
    exact hself
  · rw [get_set_of_ne _ _ hj]
    exact hother j hj

end Table

end LinkAdaptation
