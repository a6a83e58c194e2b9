/-
What a window answers about a range of time. A range is looked up as the
places from one bound to another. However the outcomes stand, these are what
is left of the beginning of the list that is before the stop, once the part
of it that is before the start is dropped; and while the outcomes stand in
the order of time, they are exactly the outcomes of that time, and there are
none where the window says it has no data. A table then counts, for every
candidate, its outcomes and its acknowledgements; and what it does not rule
out is what these outcomes do not rule out.
-/
import LinkAdaptation.Proofs.Checked
import LinkAdaptation.Proofs.Outcome
import LinkAdaptation.Proofs.RateSet
import LinkAdaptation.Window
import Mathlib.Data.List.Pairwise

namespace LinkAdaptation

variable {rates : RateSet}

-- ============================================================ counting

/-- A table that has counted some outcomes. -/
def Tallied (outcomes : List Outcome) (table : Table rates Tally) : Prop :=
  ∀ i, (table.get i).sent = outcomes.countP (atRate (rates.get i))
    ∧ (table.get i).acked = outcomes.countP (atRateWith (rates.get i) .acked)

theorem Tally.add_eq_ok {t t' : Tally} {status : Status}
    (h : t.add status = .ok t') :
    t' = ⟨t.sent + 1, t.acked + if status = .acked then 1 else 0⟩ := by
  obtain ⟨sent, hsent, h⟩ := bind_eq_ok.1 h
  obtain ⟨rfl, -⟩ := increment_eq_ok_iff.1 hsent
  split at h
  · obtain ⟨acked, hacked, h⟩ := bind_eq_ok.1 h
    obtain ⟨rfl, -⟩ := increment_eq_ok_iff.1 hacked
    cases h
    simp [*]
  · cases h
    simp [*]

/-- One outcome more is counted at its rate, if that is a candidate. -/
theorem tally_step {table table' : Table rates Tally}
    {outcomes : List Outcome} {o : Outcome} (h : Tallied outcomes table)
    (hstep : (match rates.index? o.rate with
      | some i => do return table.set i (← (table.get i).add o.status)
      | none => .ok table : Checked (Table rates Tally)) = .ok table') :
    Tallied (outcomes ++ [o]) table' := by
  intro j
  obtain ⟨hsent, hacked⟩ := h j
  rw [List.countP_append, List.countP_append]
  split at hstep
  · next i hi =>
      obtain ⟨t, hadd, hstep⟩ := bind_eq_ok.1 hstep
      cases hstep
      by_cases hj : j = i
      · subst hj
        rw [Table.get_set_self, Tally.add_eq_ok hadd]
        simp [RateSet.index?_eq_some_iff.1 hi, hsent, hacked, atRate,
          atRateWith]
      · have hother := RateSet.ne_get_of_index?_eq_some hi hj
        rw [Table.get_set_of_ne _ _ hj]
        simp [hother, hsent, hacked, atRate, atRateWith]
  · next hnone =>
      cases hstep
      have hother := RateSet.ne_get_of_index?_eq_none hnone j
      simp [hother, hsent, hacked, atRate, atRateWith]

/-- The tallies of some outcomes count them. -/
theorem tallied_of_tallyOutcomes {outcomes : List Outcome}
    {table : Table rates Tally}
    (h : tallyOutcomes rates outcomes = .ok table) :
    Tallied outcomes table := by
  have hempty : Tallied [] (.fill rates {} : Table rates Tally) := by
    intro i
    rw [Table.get_fill]
    exact ⟨rfl, rfl⟩
  exact foldlM_eq_ok_accounts hempty h fun _ _ _ _ => tally_step

-- ============================================================= ranges

namespace Window

/-- The stored outcomes of a range of time. -/
def within (w : Window rates) (start stop : Instant) : List Outcome :=
  w.records.filter fun o => start ≤ o.time ∧ o.time < stop

/-- From an instant up to itself there is nothing. -/
theorem within_self (w : Window rates) (now : Instant) :
    w.within now now = [] := by
  unfold within
  rw [List.filter_eq_nil_iff]
  intro o _ hrange
  rw [decide_eq_true_eq] at hrange
  exact Int.not_lt.2 hrange.1 hrange.2

/-- A range that starts before all that is stored holds what is earlier than
its stop. -/
theorem within_of_reaches {w : Window rates} {start : Instant}
    (h : ∀ o ∈ w.records, start ≤ o.time) (stop : Instant) :
    w.within start stop = w.records.filter (·.time < stop) := by
  unfold within
  refine List.filter_congr fun o ho => ?_
  rw [decide_eq_decide]
  exact and_iff_right (h o ho)

/-- What stands before a bound are the outcomes before its instant. -/
theorem lowerBound_eq (w : Window rates) (t : Instant) :
    w.lowerBound t = w.records.findIdx fun o => !decide (o.time < t) := by
  have hnot : (fun o : Outcome => decide (t ≤ o.time))
      = fun o => !decide (o.time < t) := by
    funext o
    rw [← decide_not, decide_eq_decide]
    exact Int.not_lt.symm
  exact congrArg (List.findIdx · w.records) hnot

/-- The places from one bound to another, by what is dropped on either
side. This needs no order. -/
theorem between_eq_dropWhile (w : Window rates) (start stop : Instant) :
    w.between start stop
      = (w.records.takeWhile (·.time < stop)).dropWhile (·.time < start) := by
  calc w.between start stop
      = (w.records.take (w.lowerBound stop)).drop
          (min (w.lowerBound stop) (w.lowerBound start)) := by
        unfold between
        dsimp only
        rw [List.drop_take, List.extract_eq_take_drop]
        by_cases hinverted : w.lowerBound stop ≤ w.lowerBound start
        · rw [Nat.min_eq_left hinverted, Nat.max_eq_right hinverted,
            Nat.sub_self, Nat.sub_self, List.take_zero, List.take_zero]
        · rw [Nat.min_eq_right (Nat.le_of_not_le hinverted),
            Nat.max_eq_left (Nat.le_of_not_le hinverted)]
    _ = (w.records.takeWhile (·.time < stop)).dropWhile
          (·.time < start) := by
        rw [List.dropWhile_eq_drop_findIdx_not,
          List.takeWhile_eq_take_findIdx_not, ← lowerBound_eq,
          List.findIdx_take, ← lowerBound_eq]

/-- In the order of time, the range is what is neither too early nor too
late. -/
theorem between_eq_filter {w : Window rates} (h : InOrder w.records)
    (start stop : Instant) :
    w.between start stop = w.records.filter fun o =>
      !decide (o.time < start) && decide (o.time < stop) := by
  have hsome := (h.early start).sublist
    (List.takeWhile_sublist (·.time < stop))
  rw [between_eq_dropWhile, dropWhile_eq_filter hsome,
    takeWhile_eq_filter (h.early stop), List.filter_filter]

theorem between_eq_within {w : Window rates} (h : InOrder w.records)
    (start stop : Instant) : w.between start stop = w.within start stop := by
  rw [between_eq_filter h]
  apply List.filter_congr
  intro o _
  rw [Bool.decide_and, ← decide_not]
  exact congrArg (· && _) (decide_eq_decide.2 Int.not_lt)

/-- It can as well be found from the front. -/
theorem between_eq_takeWhile {w : Window rates} (h : InOrder w.records)
    (start stop : Instant) :
    w.between start stop
      = (w.records.dropWhile (·.time < start)).takeWhile (·.time < stop) := by
  have hrest := (h.early stop).sublist
    (List.dropWhile_sublist (·.time < start))
  rw [between_eq_filter h, takeWhile_eq_filter hrest,
    dropWhile_eq_filter (h.early start), List.filter_filter]
  exact List.filter_congr fun o _ => Bool.and_comm _ _

/-- What is stored begins and ends somewhere. -/
theorem exists_span {w : Window rates} {o : Outcome} (ho : o ∈ w.records) :
    ∃ oldest newest, w.span? = some (oldest, newest) := by
  have hne : w.records ≠ [] := List.ne_nil_of_mem ho
  refine ⟨(w.records.head hne).time, (w.records.getLast hne).time, ?_⟩
  unfold span?
  rw [List.head?_eq_some_head hne, List.getLast?_eq_some_getLast hne]
  rfl

/-- In the order of time, every stored outcome lies in the span. -/
theorem span_bounds {w : Window rates} (h : InOrder w.records)
    {oldest newest : Instant} (hspan : w.span? = some (oldest, newest))
    {o : Outcome} (ho : o ∈ w.records) :
    oldest ≤ o.time ∧ o.time ≤ newest := by
  have hne : w.records ≠ [] := List.ne_nil_of_mem ho
  unfold span? at hspan
  rw [List.head?_eq_some_head hne, List.getLast?_eq_some_getLast hne] at hspan
  cases hspan
  exact ⟨List.Pairwise.rel_head_of_rel_head_head h ho (Int.le_refl _),
    List.Pairwise.rel_getLast_of_rel_getLast_getLast h ho (Int.le_refl _)⟩

theorem covers_eq_true_iff {w : Window rates} {start stop : Instant} :
    w.covers start stop = true ↔ ∃ oldest newest,
      w.span? = some (oldest, newest) ∧ oldest ≤ stop ∧ start ≤ newest := by
  unfold covers
  constructor
  · intro h
    split at h
    · next oldest newest hspan =>
        rw [Bool.and_eq_true, decide_eq_true_eq, decide_eq_true_eq] at h
        exact ⟨oldest, newest, hspan, h⟩
    · cases h
  · intro h
    obtain ⟨oldest, newest, hspan, hstop, hstart⟩ := h
    rw [hspan]
    show (decide _ && decide _) = true
    rw [Bool.and_eq_true, decide_eq_true_eq, decide_eq_true_eq]
    exact ⟨hstop, hstart⟩

theorem covers_of_mem {w : Window rates} (h : InOrder w.records) {o : Outcome}
    (ho : o ∈ w.records) {start stop : Instant} (hstart : start ≤ o.time)
    (hstop : o.time < stop) : w.covers start stop = true := by
  obtain ⟨oldest, newest, hspan⟩ := exists_span ho
  obtain ⟨hold, hnew⟩ := span_bounds h hspan ho
  exact covers_eq_true_iff.2 ⟨oldest, newest, hspan,
    Int.le_of_lt (Int.lt_of_le_of_lt hold hstop), Int.le_trans hstart hnew⟩

/-- A range that the window has no data for holds nothing. -/
theorem within_eq_nil {w : Window rates} (h : InOrder w.records)
    {start stop : Instant} (hcovers : w.covers start stop = false) :
    w.within start stop = [] := by
  rw [within, List.filter_eq_nil_iff]
  intro o ho hrange
  rw [decide_eq_true_eq] at hrange
  rw [covers_of_mem h ho hrange.1 hrange.2] at hcovers
  cases hcovers

/-- A window that has data of a range counts its outcomes, and one that has
no data has no outcome there. -/
theorem tally?_eq_ok {w : Window rates} (h : InOrder w.records)
    {start stop : Instant} {table? : Option (Table rates Tally)}
    (htally : w.tally? start stop = .ok table?) :
    (∀ table ∈ table?, Tallied (w.within start stop) table)
      ∧ (table? = none → w.within start stop = []) := by
  unfold tally? at htally
  cases hcovers : w.covers start stop with
  | true =>
      rw [if_pos hcovers, between_eq_within h] at htally
      obtain ⟨table, htable, rfl⟩ := map_eq_ok.1 htally
      refine ⟨?_, nofun⟩
      intro counted hcounted
      cases hcounted
      exact tallied_of_tallyOutcomes htable
  | false =>
      rw [if_neg (by simp [hcovers])] at htally
      cases htally
      exact ⟨nofun, fun _ => within_eq_nil h hcovers⟩

-- ========================================================= feasibility

/-- Whether a rate was used often enough, and always in vain. -/
def RuledOut (outcomes : List Outcome) (rate : Rate) : Prop :=
  2 ≤ outcomes.countP (atRate rate)
    ∧ outcomes.countP (atRateWith rate .acked) = 0

instance (outcomes : List Outcome) (rate : Rate) :
    Decidable (RuledOut outcomes rate) :=
  inferInstanceAs (Decidable (_ ∧ _))

theorem isFeasible_iff {outcomes : List Outcome} {table : Table rates Tally}
    (h : Tallied outcomes table) (i : rates.Index) :
    (table.get i).isFeasible = true ↔ ¬ RuledOut outcomes (rates.get i) := by
  obtain ⟨hsent, hacked⟩ := h i
  unfold Tally.isFeasible RuledOut Tally.hopeless
  rw [hsent, hacked, Bool.or_eq_true, decide_eq_true_eq, decide_eq_true_eq]
  omega

theorem not_ruledOut_nil (rate : Rate) : ¬ RuledOut [] rate := by
  simp [RuledOut]

theorem feasibleOf_eq_filter {outcomes : List Outcome}
    {table : Table rates Tally} (h : Tallied outcomes table) :
    feasibleOf table
      = rates.toList.filter fun rate => ¬ RuledOut outcomes rate := by
  unfold feasibleOf
  rw [← RateSet.map_get_indices, List.filter_map]
  refine congrArg (List.map rates.get) (List.filter_congr fun i _ => ?_)
  rw [Bool.eq_iff_iff, isFeasible_iff h]
  exact decide_eq_true_iff.symm

theorem mem_feasibleOf {outcomes : List Outcome} {table : Table rates Tally}
    (h : Tallied outcomes table) {rate : Rate} :
    rate ∈ feasibleOf table
      ↔ rate ∈ rates.toList ∧ ¬ RuledOut outcomes rate := by
  rw [feasibleOf_eq_filter h, List.mem_filter, decide_eq_true_eq]

/-- What a range leaves feasible are the candidates that its outcomes do
not rule out; where there is no data, all of them. -/
theorem feasible?_eq_filter {w : Window rates} (h : InOrder w.records)
    {start stop : Instant} {feasible? : Option (List Rate)}
    (hfeasible : w.feasible? start stop = .ok feasible?) :
    feasible?.getD rates.toList = rates.toList.filter fun rate =>
      ¬ RuledOut (w.within start stop) rate := by
  obtain ⟨table?, htally, hfeasible⟩ := bind_eq_ok.1 hfeasible
  cases hfeasible
  obtain ⟨hsome, hnone⟩ := tally?_eq_ok h htally
  cases table? with
  | some table => exact feasibleOf_eq_filter (hsome table rfl)
  | none =>
      rw [hnone rfl]
      refine (List.filter_eq_self.2 fun rate _ => ?_).symm
      exact decide_eq_true (not_ruledOut_nil rate)

end Window

end LinkAdaptation
