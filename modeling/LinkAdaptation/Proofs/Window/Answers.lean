/-
What a window answers about a range that it has data for. In the order of
time, the outcomes of a range are those that stand between its two bounds.
The table of a range counts them, and every other answer is read off the
table: the loss of a rate, of several rates, and the candidates that are
left feasible.
-/
import LinkAdaptation.Proofs.Window.Range

namespace LinkAdaptation

variable {rates : RateSet}

-- ============================================================== losses

/-- The share of the outcomes at a rate that were not acknowledged. It is
not known where there are none, or where the rate is no candidate. -/
def lossOver (rates : RateSet) (outcomes : List Outcome) (rate : Rate) :
    Float :=
  let sent := outcomes.countP (atRate rate)
  let acked := outcomes.countP (atRateWith rate .acked)
  if rate ∉ rates.toList ∨ sent = 0 then unknownLoss
  else 1.0 - acked.toFloat / sent.toFloat

theorem lossOver_of_stranger {outcomes : List Outcome} {rate : Rate}
    (h : rate ∉ rates.toList) : lossOver rates outcomes rate = unknownLoss :=
  if_pos (.inl h)

/-- Nothing is known where there are no outcomes. -/
theorem lossOver_nil (rate : Rate) : lossOver rates [] rate = unknownLoss :=
  if_pos (.inr rfl)

theorem loss_of_tallied {outcomes : List Outcome} {table : Table rates Tally}
    (h : Tallied outcomes table) (i : rates.Index) :
    (table.get i).loss = lossOver rates outcomes (rates.get i) := by
  obtain ⟨hsent, hacked⟩ := h i
  unfold Tally.loss lossOver
  simp only [hsent, hacked, RateSet.get_mem, not_true, false_or]

namespace Window

variable {w : Window rates} {start stop : Instant}

/-- A table that counts some outcomes shows their loss at any rate. -/
theorem lossAt_of_tallied {outcomes : List Outcome}
    {table : Table rates Tally} (h : Tallied outcomes table) (rate : Rate) :
    lossAt table rate = lossOver rates outcomes rate := by
  unfold lossAt
  split
  · next i hi =>
      rw [loss_of_tallied h, RateSet.index?_eq_some_iff.1 hi]
  · next hnone =>
      have hstranger : rate ∉ rates.toList := by
        rw [RateSet.mem_toList_iff]
        rintro ⟨i, hi⟩
        exact RateSet.ne_get_of_index?_eq_none hnone i hi.symm
      exact (lossOver_of_stranger hstranger).symm

-- ============================================================= answers

/-- The candidates that a table does not rule out ascend. -/
theorem ascending_feasibleOf (table : Table rates Tally) :
    (feasibleOf table).Pairwise (· < ·) := by
  have hindices : rates.indices.Pairwise (· < ·) :=
    List.pairwise_lt_finRange _
  unfold feasibleOf
  rw [List.pairwise_map]
  exact (hindices.filter _).imp RateSet.get_lt_get

/-- Where a window has data of a range, its answers are what counting the
stored outcomes of that range gives, at every candidate: the table, the
losses of the rates that are asked for, candidates or not, and the
candidates left feasible, which are those that were acknowledged or hardly
used. -/
theorem answers_count_range {table : Table rates Tally}
    (hordered : InOrder w.records)
    (htally : w.tally? start stop = .ok (some table)) :
    w.within start stop = w.between start stop
      ∧ (∀ i, (table.get i).sent
            = (w.within start stop).countP (atRate (rates.get i))
          ∧ (table.get i).acked
            = (w.within start stop).countP (atRateWith (rates.get i) .acked))
      ∧ (∀ asked, w.losses? start stop asked
          = .ok (some (asked.map (lossOver rates (w.within start stop)))))
      ∧ (∀ rate, w.loss start stop rate
          = .ok (lossOver rates (w.within start stop) rate))
      ∧ ∃ feasible, w.feasible? start stop = .ok (some feasible)
        ∧ feasible.Pairwise (· < ·)
        ∧ ∀ rate, rate ∈ feasible ↔ rate ∈ rates.toList
          ∧ (0 < (w.within start stop).countP (atRateWith rate .acked)
            ∨ (w.within start stop).countP (atRate rate) < 2) := by
  have htallied := (tally?_eq_ok hordered htally).1 table rfl
  have hlosses : lossAt table = lossOver rates (w.within start stop) :=
    funext fun rate => lossAt_of_tallied htallied rate
  refine ⟨(between_eq_within hordered start stop).symm, htallied, ?_, ?_,
    feasibleOf table, ?_, ascending_feasibleOf table, ?_⟩
  · intro asked
    unfold losses?
    rw [htally, ← hlosses]
    rfl
  · intro rate
    unfold loss
    rw [htally, ← hlosses]
    rfl
  · unfold feasible?
    rw [htally]
    rfl
  · intro rate
    rw [mem_feasibleOf htallied]
    refine and_congr_right fun _ => ?_
    unfold RuledOut
    omega

/-- Outcomes at both ends of the range, and a rate that is no candidate. -/
theorem answers_count_range_ties :
    let rates : RateSet := ⟨#[10, 20, 55], by decide, by decide⟩
    let sent (n : Int) (rate : Rate) (status : Status) : Outcome :=
      ⟨⟨n⟩, 0, rate, 1000, status⟩
    let w : Window rates :=
      { retention := .seconds 2
        records := [sent 1 10 .acked, sent 2 20 .naked, sent 2 10 .acked
          , sent 2 20 .timedOut, sent 2 10 .naked, sent 3 20 .acked
          , sent 3 55 .acked] }
    ∃ (table : Table rates Tally) (feasible : List Rate),
      InOrder w.records ∧ w.tally? ⟨2⟩ ⟨3⟩ = .ok (some table)
        ∧ w.within ⟨2⟩ ⟨3⟩ = w.between ⟨2⟩ ⟨3⟩
        ∧ (∀ i, (table.get i).sent
              = (w.within ⟨2⟩ ⟨3⟩).countP (atRate (rates.get i))
            ∧ (table.get i).acked
              = (w.within ⟨2⟩ ⟨3⟩).countP (atRateWith (rates.get i) .acked))
        ∧ w.losses? ⟨2⟩ ⟨3⟩ [20, 99, 10, 55]
          = .ok (some [1.0, unknownLoss, 0.5, unknownLoss])
        ∧ w.loss ⟨2⟩ ⟨3⟩ 20 = .ok 1.0
        ∧ w.feasible? ⟨2⟩ ⟨3⟩ = .ok (some feasible)
        ∧ feasible.Pairwise (· < ·) ∧ 20 ∉ feasible := by
  intro rates sent w
  have hordered : InOrder w.records := by decide
  have hknown : ((w.tally? ⟨2⟩ ⟨3⟩).toOption.bind id).isSome = true := by
    decide +kernel
  obtain ⟨table, hknown⟩ := Option.isSome_iff_exists.1 hknown
  obtain ⟨_, htally, rfl⟩ := Option.bind_eq_some_iff.1 hknown
  rw [toOption_eq_some_iff] at htally
  obtain ⟨hbetween, hcounts, hlosses, hloss, feasible, hfeasible, hascending,
    hmem⟩ := answers_count_range hordered htally
  have hasked : [20, 99, 10, 55].map (lossOver rates (w.within ⟨2⟩ ⟨3⟩))
      = [1.0, unknownLoss, 0.5, unknownLoss] := by decide
  have hlost : lossOver rates (w.within ⟨2⟩ ⟨3⟩) 20 = 1.0 := by decide
  refine ⟨table, feasible, hordered, htally, hbetween, hcounts,
    (hlosses _).trans (by rw [hasked]), (hloss 20).trans (by rw [hlost]),
    hfeasible, hascending, ?_⟩
  rw [hmem]
  decide

end Window

end LinkAdaptation
