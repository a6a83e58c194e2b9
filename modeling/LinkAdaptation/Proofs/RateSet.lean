/-
Making a rate set and searching it. Only what is empty or out of order is
turned down, and comparing neighbours is enough to find the latter. The
set ascends strictly, so a rate stands at one index at most, and halving
the distance between two bounds never discards it: what lies at or below
the middle is no larger, what lies above it no smaller. An index is found
exactly when there is one, so an index can stand for its rate.
-/
import LinkAdaptation.RateSet

namespace LinkAdaptation.RateSet

variable {rates : RateSet} {rate : Rate}

theorem get_lt_get {i j : rates.Index} (h : i < j) :
    rates.get i < rates.get j := by
  have hsorted := List.pairwise_iff_getElem.1 rates.ascending
  exact hsorted i j (by simp) (by simp) h

theorem get_injective {i j : rates.Index} (h : rates.get i = rates.get j) :
    i = j := by
  rcases Nat.lt_trichotomy i.val j.val with hlt | heq | hgt
  · exact absurd (h ▸ get_lt_get hlt) (UInt16.lt_irrefl _)
  · exact Fin.ext heq
  · exact absurd (h ▸ get_lt_get hgt) (UInt16.lt_irrefl _)

/-- The rates ascend, so an index is no larger than its rate. -/
theorem index_le_get (i : rates.Index) : i.val ≤ (rates.get i).toNat := by
  obtain ⟨n, hn⟩ := i
  induction n with
  | zero => exact Nat.zero_le _
  | succ n ih =>
      have hstep := UInt16.lt_iff_toNat_lt.1
        (get_lt_get (i := ⟨n, by omega⟩) (j := ⟨n + 1, hn⟩) (Nat.lt_succ_self n))
      have hle := ih (by omega)
      dsimp only at hle ⊢
      omega

/-- There are no more candidates than rates. -/
theorem index_lt (i : rates.Index) : i.val < 65536 :=
  Nat.lt_of_le_of_lt (index_le_get i) (rates.get i).toNat_lt

theorem get_mem (i : rates.Index) : rates.get i ∈ rates.toList :=
  Array.getElem_mem_toList i.isLt

theorem mem_toList_iff :
    rate ∈ rates.toList ↔ ∃ i : rates.Index, rates.get i = rate := by
  constructor
  · intro h
    obtain ⟨n, hn, heq⟩ := List.mem_iff_getElem.1 h
    exact ⟨⟨n, by simpa [toList] using hn⟩, heq⟩
  · intro h
    obtain ⟨i, rfl⟩ := h
    exact get_mem i

theorem map_get_indices (rates : RateSet) :
    rates.indices.map rates.get = rates.toList := by
  unfold indices toList
  refine List.ext_getElem (by simp) fun n _ _ => ?_
  rw [List.getElem_map, List.getElem_finRange]
  rfl

/-- A set that is made of a list has the rates of the list. -/
theorem toList_of_ofList {l : List Rate}
    (h : ofList l = .ok rates) : rates.toList = l := by
  unfold ofList at h
  split at h
  · cases h
  · split at h
    · cases h
      rfl
    · cases h

-- =========================================================== searching

/-- What is found is the rate. -/
theorem get_of_search {lo hi : Nat} {bound : hi ≤ rates.size}
    {i : rates.Index} (h : rates.search rate lo hi bound = some i) :
    rates.get i = rate := by
  induction lo, hi, bound using RateSet.search.induct rates rate with
  | case1 lo hi bound gap mid hit =>
      rw [search, dif_pos gap] at h
      rw [if_pos hit, Option.some_inj] at h
      rw [← h]
      exact hit
  | case2 lo hi bound gap mid miss above ih =>
      rw [search, dif_pos gap] at h
      rw [if_neg miss, if_pos above] at h
      exact ih h
  | case3 lo hi bound gap mid miss below ih =>
      rw [search, dif_pos gap] at h
      rw [if_neg miss, if_neg below] at h
      exact ih h
  | case4 lo hi bound gap =>
      rw [search, dif_neg gap] at h
      cases h

/-- A rate between the bounds is found. -/
theorem search_of_get {lo hi : Nat} {bound : hi ≤ rates.size}
    {i : rates.Index} (h : rates.get i = rate) (hlo : lo ≤ i.val)
    (hhi : i.val < hi) : rates.search rate lo hi bound = some i := by
  induction lo, hi, bound using RateSet.search.induct rates rate with
  | case1 lo hi bound gap mid hit =>
      rw [search, dif_pos gap, if_pos hit]
      exact congrArg some (get_injective (hit.trans h.symm))
  | case2 lo hi bound gap mid miss above ih =>
      rw [search, dif_pos gap, if_neg miss, if_pos above]
      refine ih (Nat.succ_le_of_lt (Nat.lt_of_not_le fun hmid => ?_)) hhi
      rcases Nat.lt_or_eq_of_le hmid with hlt | heq
      · have hdesc := UInt16.lt_trans (get_lt_get hlt) above
        rw [h] at hdesc
        exact UInt16.lt_irrefl _ hdesc
      · exact miss ((Fin.ext heq : i = mid) ▸ h)
  | case3 lo hi bound gap mid miss below ih =>
      rw [search, dif_pos gap, if_neg miss, if_neg below]
      refine ih hlo (Nat.lt_of_not_le fun hmid => ?_)
      rcases Nat.lt_or_eq_of_le hmid with hlt | heq
      · exact below (h ▸ get_lt_get hlt)
      · exact miss ((Fin.ext heq : mid = i) ▸ h)
  | case4 lo hi bound gap => omega

theorem index?_eq_some_iff {i : rates.Index} :
    rates.index? rate = some i ↔ rates.get i = rate :=
  ⟨get_of_search, fun h => search_of_get h (Nat.zero_le _) i.isLt⟩

/-- The rate of another index is another rate. -/
theorem ne_get_of_index?_eq_some {i j : rates.Index}
    (h : rates.index? rate = some i) (hj : j ≠ i) : rate ≠ rates.get j := by
  intro heq
  exact hj (get_injective (heq.symm.trans (index?_eq_some_iff.1 h).symm))

/-- A rate without an index is no candidate. -/
theorem ne_get_of_index?_eq_none (h : rates.index? rate = none)
    (j : rates.Index) : rate ≠ rates.get j := by
  intro heq
  rw [heq, index?_eq_some_iff.2 rfl] at h
  cases h

theorem contains_iff : rates.contains rate = true ↔ rate ∈ rates.toList := by
  unfold contains
  rw [Option.isSome_iff_exists, mem_toList_iff]
  simp only [index?_eq_some_iff]

-- ============================================================== making

/-- A list is empty, ascends strictly or does neither, and what becomes of
it says which. -/
theorem ofList_cases (l : List Rate) :
    (l = [] ∧ ofList l = .error .emptyRateSet)
      ∨ (l ≠ [] ∧ l.Pairwise (· < ·) ∧ ∃ rates, ofList l = .ok rates)
      ∨ (l ≠ [] ∧ ¬ l.Pairwise (· < ·)
        ∧ ofList l = .error .unsortedRates) := by
  rw [← isAscending_iff]
  by_cases hempty : l = []
  · exact .inl ⟨hempty, dif_pos hempty⟩
  · by_cases hsorted : isAscending l = true
    · exact .inr (.inl ⟨hempty, hsorted,
        ⟨_, (dif_neg hempty).trans (dif_pos hsorted)⟩⟩)
    · exact .inr (.inr ⟨hempty, hsorted,
        (dif_neg hempty).trans (dif_neg hsorted)⟩)

theorem exists_ofList_eq_ok_iff {l : List Rate} :
    (∃ rates, ofList l = .ok rates) ↔ l ≠ [] ∧ l.Pairwise (· < ·) := by
  rcases ofList_cases l with ⟨rfl, h⟩ | ⟨hl, hs, h⟩ | ⟨-, hs, h⟩
  · simp [h]
  · simp [h, hl, hs]
  · simp [h, hs]

theorem ofList_eq_empty_iff {l : List Rate} :
    ofList l = .error .emptyRateSet ↔ l = [] := by
  rcases ofList_cases l with ⟨rfl, h⟩ | ⟨hl, -, rates, h⟩ | ⟨hl, -, h⟩
  · simp [h]
  · simp [h, hl]
  · simp [h, hl]

theorem ofList_eq_unsorted_iff {l : List Rate} :
    ofList l = .error .unsortedRates ↔ l ≠ [] ∧ ¬ l.Pairwise (· < ·) := by
  rcases ofList_cases l with ⟨rfl, h⟩ | ⟨-, hs, rates, h⟩ | ⟨hl, hs, h⟩
  · simp [h]
  · simp [h, hs]
  · simp [h, hl, hs]

-- ============================================================== naming

theorem get_le_get {i j : rates.Index} (h : i ≤ j) :
    rates.get i ≤ rates.get j := by
  rcases Nat.lt_or_eq_of_le h with hlt | heq
  · exact UInt16.le_of_lt (get_lt_get hlt)
  · rw [Fin.ext heq]
    exact UInt16.le_refl _

theorem lowest_le (h : rate ∈ rates.toList) : rates.lowest ≤ rate := by
  obtain ⟨i, rfl⟩ := mem_toList_iff.1 h
  exact get_le_get (Nat.zero_le i.val)

theorem le_highest (h : rate ∈ rates.toList) : rate ≤ rates.highest := by
  obtain ⟨i, rfl⟩ := mem_toList_iff.1 h
  exact get_le_get (Nat.le_sub_one_of_lt i.isLt)

/-- A number is read as the index it is. -/
theorem get?_eq_some_iff {n : Nat} :
    rates.get? n = some rate
      ↔ ∃ i : rates.Index, i.val = n ∧ rates.get i = rate := by
  show rates.toArray[n]? = some rate ↔ _
  rw [Array.getElem?_eq_some_iff]
  constructor
  · rintro ⟨hn, hget⟩
    exact ⟨⟨n, hn⟩, rfl, hget⟩
  · rintro ⟨i, rfl, hget⟩
    exact ⟨i.isLt, hget⟩

/-- Finding a rate and reading an index undo each other. -/
theorem index?_val_eq_some_iff {n : Nat} :
    (rates.index? rate).map Fin.val = some n
      ↔ rates.get? n = some rate := by
  rw [get?_eq_some_iff, Option.map_eq_some_iff]
  constructor
  · rintro ⟨i, hi, hn⟩
    exact ⟨i, hn, index?_eq_some_iff.1 hi⟩
  · rintro ⟨i, hn, hget⟩
    exact ⟨i, index?_eq_some_iff.2 hget, hn⟩

/-- A list makes a set exactly when it is not empty and ascends strictly,
and an empty list is turned down as empty before it is looked at. In a set
that is made the rates are the list's, and their indices name them: a rate
is found at a number exactly when the number reads as the rate. So every
rate of the list is found, no other rate is, and all of them lie between
the lowest and the highest, which are two of them. -/
theorem ofList_names (l : List Rate) :
    ((∃ rates, ofList l = .ok rates) ↔ l ≠ [] ∧ l.Pairwise (· < ·))
      ∧ (ofList l = .error .emptyRateSet ↔ l = [])
      ∧ (ofList l = .error .unsortedRates
          ↔ l ≠ [] ∧ ¬ l.Pairwise (· < ·))
      ∧ ∀ rates, ofList l = .ok rates →
          (∀ n, rates.get? n = l[n]?)
            ∧ (∀ rate n, (rates.index? rate).map Fin.val = some n
                ↔ rates.get? n = some rate)
            ∧ (∀ i, rates.index? (rates.get i) = some i)
            ∧ (∀ rate, rates.contains rate = true ↔ rate ∈ l)
            ∧ (rates.lowest ∈ l ∧ rates.highest ∈ l
                ∧ ∀ rate ∈ l, rates.lowest ≤ rate ∧ rate ≤ rates.highest) := by
  refine ⟨exists_ofList_eq_ok_iff, ofList_eq_empty_iff,
    ofList_eq_unsorted_iff, fun rates hmade => ?_⟩
  obtain rfl := toList_of_ofList hmade
  refine ⟨fun n => ?_, fun rate n => index?_val_eq_some_iff,
    fun i => index?_eq_some_iff.2 rfl, fun rate => contains_iff,
    get_mem _, get_mem _, fun rate hrate => ⟨lowest_le hrate, le_highest hrate⟩⟩
  exact (Array.getElem?_toList ..).symm

/-- Four rates in order are a set that names the third of them, and no
rate between two of them. -/
theorem ofList_names_four :
    (∃ rates, ofList [10, 20, 55, 110] = .ok rates
        ∧ (rates.index? 55).map Fin.val = some 2
        ∧ rates.contains 60 = false)
      ∧ ofList [20, 10] = .error .unsortedRates
      ∧ ofList [] = .error .emptyRateSet := by
  obtain ⟨made, -, -, named⟩ := ofList_names [10, 20, 55, 110]
  obtain ⟨rates, hrates⟩ := made.2 (by decide)
  obtain ⟨hread, hfound, -, hknown, -⟩ := named rates hrates
  refine ⟨⟨rates, hrates, ?_, ?_⟩, ?_, ?_⟩
  · rw [hfound 55 2, hread 2]
    rfl
  · rw [← Bool.not_eq_true, hknown 60]
    decide
  · exact (ofList_names [20, 10]).2.2.1.2 (by decide)
  · exact (ofList_names []).2.1.2 rfl

end LinkAdaptation.RateSet
