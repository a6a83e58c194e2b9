/-
Which candidates a decision leaves feasible. In a scouting mode, every
decision that chooses a candidate looks at the recent outcomes of the back
antenna, and rules out the candidates that were used at least twice there
and never acknowledged. As long as one candidate is left, the others are
infeasible. When none is left, the list of what is feasible is empty, and
an empty list reads as no evidence: then nothing is infeasible.

How recent is a matter of the back window, measured from the decision. It
may be longer than the past, but not by so much that it starts at no
instant: the decision then looks at no outcome at all.
-/
import LinkAdaptation.Proofs.Flow.Run
import LinkAdaptation.Proofs.Flow.Steps
import LinkAdaptation.Proofs.Window.Range

namespace LinkAdaptation.Flow

open Window (RuledOut)

variable {rates : RateSet} {f f' : Flow rates} {query : Query}
  {result : Except Error Decision}

theorem admits_eq_false_iff {feasible : List Rate} {rate : Rate} :
    admits feasible rate = false ↔ feasible ≠ [] ∧ rate ∉ feasible := by
  unfold admits
  simp

/-- A decision in a scouting mode leaves what it found feasible. -/
theorem decide_feasible (hscouted : f.mode.merging = .scouted)
    (hoccasion : query.occasion.isTimeout = false)
    (hdecide : f.decide query = .ok (f', result)) :
    f.feasibleAt query.now = .ok f'.feasible := by
  obtain ⟨f₁, f₂, _, _, _, hmerge, hchoose, rfl⟩ :=
    decide_merged hoccasion hdecide
  obtain ⟨_, feasible, _, rfl, hfeasible⟩ := merge_eq_ok hmerge
  obtain ⟨_, _, rfl⟩ := choose_eq_ok hchoose
  exact hfeasible hscouted

/-- What was feasible at an instant are the candidates that the outcomes of
the back window do not rule out. Where the window reaches back beyond the
range of instants, it looks at none. -/
theorem feasibleAt_eq_filter (hordered : InOrder f.back.records)
    {now : Instant} {feasible : List Rate}
    (h : f.feasibleAt now = .ok feasible) :
    feasible = rates.toList.filter fun rate =>
      ¬ RuledOut (f.back.within
        ((now.sub? f.config.backWindow).getD now) now) rate := by
  obtain ⟨feasible?, hfeasible, h⟩ := bind_eq_ok.1 h
  cases h
  exact Window.feasible?_eq_filter hordered hfeasible

theorem mem_feasibleAt (hordered : InOrder f.back.records) {now since : Instant}
    (hsince : now.sub? f.config.backWindow = some since)
    {feasible : List Rate} (h : f.feasibleAt now = .ok feasible)
    {rate : Rate} :
    rate ∈ feasible ↔ rate ∈ rates.toList
      ∧ ¬ RuledOut (f.back.within since now) rate := by
  rw [feasibleAt_eq_filter hordered h, hsince, List.mem_filter,
    decide_eq_true_eq, Option.getD_some]

/-- After a decision in a scouting mode, a candidate is infeasible exactly
when the recent outcomes at the back rule it out and leave another one. -/
theorem infeasible_iff_ruled_out {since : Instant}
    (hordered : InOrder f.back.records) (hscouted : f.mode.merging = .scouted)
    (hoccasion : query.occasion.isTimeout = false)
    (hsince : query.now.sub? f.config.backWindow = some since)
    (hdecide : f.decide query = .ok (f', result)) {rate : Rate}
    (hrate : rate ∈ rates.toList) :
    f'.isFeasible rate = false
      ↔ RuledOut (f.back.within since query.now) rate
        ∧ ∃ other ∈ rates.toList,
          ¬ RuledOut (f.back.within since query.now) other := by
  have hfeasible := decide_feasible hscouted hoccasion hdecide
  have hmem (rate : Rate) : rate ∈ f'.feasible ↔ rate ∈ rates.toList
      ∧ ¬ RuledOut (f.back.within since query.now) rate :=
    mem_feasibleAt hordered hsince hfeasible
  unfold isFeasible
  rw [admits_eq_false_iff, hmem]
  constructor
  · intro h
    obtain ⟨hsome, hnot⟩ := h
    obtain ⟨other, hother⟩ := List.exists_mem_of_ne_nil _ hsome
    exact ⟨by simpa [hrate] using hnot, other, (hmem other).1 hother⟩
  · intro h
    obtain ⟨hruled, other, hother⟩ := h
    exact ⟨List.ne_nil_of_mem ((hmem other).2 hother), fun hnot => hnot.2 hruled⟩

/-- Two recent losses rule a candidate out, though it was acknowledged
before. -/
theorem infeasible_iff_ruled_out_recent :
    let rates : RateSet := ⟨#[10, 20], by decide, by decide⟩
    let sent (n : Int) (rate : Rate) (status : Status) : Outcome :=
      ⟨⟨n⟩, 0, rate, 1000, status⟩
    let requests : List Request :=
      [ .feedBatch .back [sent 0 20 .acked, sent 150000000 20 .naked
        , sent 160000000 20 .naked, sent 170000000 10 .naked] ]
    let query : Query := ⟨⟨200000000⟩, .data, 0, 1000, 0⟩
    ∃ (f₀ f f' : Flow rates) (replies : List Reply)
      (result : Except Error Decision),
      start rates {} default = .ok f₀ ∧ f₀.run requests = .ok (f, replies)
        ∧ InOrder f.back.records ∧ f.mode.merging = .scouted
        ∧ query.occasion.isTimeout = false
        ∧ query.now.sub? f.config.backWindow = some ⟨100000000⟩
        ∧ f.decide query = .ok (f', result) ∧ 20 ∈ rates.toList
        ∧ (f'.isFeasible 20 = false
          ↔ RuledOut (f.back.within ⟨100000000⟩ query.now) 20
            ∧ ∃ other ∈ rates.toList,
              ¬ RuledOut (f.back.within ⟨100000000⟩ query.now) other)
        ∧ f'.isFeasible 20 = false := by
  intro rates sent requests query
  have hran : ((start rates {} default).toOption.bind fun f₀ =>
      (f₀.run requests).toOption.bind fun p =>
        (p.1.decide query).toOption.map fun q =>
          Decidable.decide (InOrder p.1.back.records ∧ p.1.mode.merging = .scouted
            ∧ query.now.sub? p.1.config.backWindow = some ⟨100000000⟩
            ∧ q.1.isFeasible 20 = false)) = some true := by decide +kernel
  obtain ⟨f₀, hstart, hran⟩ := Option.bind_eq_some_iff.1 hran
  obtain ⟨⟨f, replies⟩, hrun, hran⟩ := Option.bind_eq_some_iff.1 hran
  obtain ⟨⟨f', result⟩, hdecide, hfacts⟩ := Option.map_eq_some_iff.1 hran
  rw [toOption_eq_some_iff] at hstart hrun hdecide
  obtain ⟨hordered, hscouted, hsince, hinfeasible⟩ := of_decide_eq_true hfacts
  have hrate : 20 ∈ rates.toList := by decide
  exact ⟨f₀, f, f', replies, result, hstart, hrun, hordered, hscouted, rfl,
    hsince, hdecide, hrate, infeasible_iff_ruled_out hordered hscouted rfl
      hsince hdecide hrate, hinfeasible⟩

/-- Where every candidate is ruled out, none is infeasible: all of them
were used twice in vain, and yet the first one is not. -/
theorem feasible_though_ruled_out :
    let rates : RateSet := ⟨#[10, 20], by decide, by decide⟩
    let lost (n : Int) (rate : Rate) : Outcome :=
      ⟨⟨n⟩, 0, rate, 1000, .naked⟩
    let requests : List Request :=
      [.feedBatch .back [lost 1 10, lost 2 10, lost 3 20, lost 4 20]]
    let query : Query := ⟨⟨100000000⟩, .data, 10000, 1000, 0⟩
    ∃ (f₀ f f' : Flow rates) (replies : List Reply)
      (result : Except Error Decision),
      start rates {} default = .ok f₀ ∧ f₀.run requests = .ok (f, replies)
        ∧ InOrder f.back.records ∧ f.mode.merging = .scouted
        ∧ query.now.sub? f.config.backWindow = some ⟨0⟩
        ∧ f.decide query = .ok (f', result) ∧ 10 ∈ rates.toList
        ∧ ¬ (f'.isFeasible 10 = false
          ↔ RuledOut (f.back.within ⟨0⟩ query.now) 10) := by
  intro rates lost requests query
  have hran : ((start rates {} default).toOption.bind fun f₀ =>
      (f₀.run requests).toOption.bind fun p =>
        (p.1.decide query).toOption.map fun q =>
          Decidable.decide (InOrder p.1.back.records ∧ p.1.mode.merging = .scouted
            ∧ query.now.sub? p.1.config.backWindow = some ⟨0⟩
            ∧ ¬ q.1.isFeasible 10 = false
            ∧ RuledOut (p.1.back.within ⟨0⟩ query.now) 10)) = some true := by
    decide +kernel
  obtain ⟨f₀, hstart, hran⟩ := Option.bind_eq_some_iff.1 hran
  obtain ⟨⟨f, replies⟩, hrun, hran⟩ := Option.bind_eq_some_iff.1 hran
  obtain ⟨⟨f', result⟩, hdecide, hfacts⟩ := Option.map_eq_some_iff.1 hran
  rw [toOption_eq_some_iff] at hstart hrun hdecide
  obtain ⟨hordered, hscouted, hsince, hfeasible, hruled⟩ :=
    of_decide_eq_true hfacts
  exact ⟨f₀, f, f', replies, result, hstart, hrun, hordered, hscouted,
    hsince, hdecide, by decide, fun hiff => hfeasible (hiff.2 hruled)⟩

-- ============================================================== reach

/-- How far back a decision in a scouting mode looks. A back window that
starts at an instant before everything stored is one over the whole past:
what it leaves feasible are the candidates that the earlier outcomes do not
rule out. A back window so long that it starts at no instant is one over
nothing: it leaves every candidate feasible, whatever was stored. -/
theorem feasible_by_reach (hordered : InOrder f.back.records)
    (hscouted : f.mode.merging = .scouted)
    (hoccasion : query.occasion.isTimeout = false)
    (hdecide : f.decide query = .ok (f', result)) :
    (query.now.sub? f.config.backWindow = none → f'.feasible = rates.toList)
      ∧ ∀ since, query.now.sub? f.config.backWindow = some since →
        (∀ o ∈ f.back.records, since ≤ o.time) →
        f'.feasible = rates.toList.filter fun rate =>
          ¬ RuledOut (f.back.records.filter (·.time < query.now)) rate := by
  have hfeasible := feasibleAt_eq_filter hordered
    (decide_feasible hscouted hoccasion hdecide)
  refine ⟨?_, ?_⟩
  · intro hbeyond
    rw [hbeyond, Option.getD_none, Window.within_self] at hfeasible
    rw [hfeasible, List.filter_eq_self]
    exact fun rate _ => decide_eq_true (Window.not_ruledOut_nil rate)
  · intro since hsince hreaches
    rw [hsince, Option.getD_some, Window.within_of_reaches hreaches] at hfeasible
    exact hfeasible

/-- A thousand seconds back, two losses rule a candidate out. -/
theorem feasible_by_reach_long :
    let rates : RateSet := ⟨#[10, 20], by decide, by decide⟩
    let config : Config := { backWindow := .seconds 1000 }
    let sent (n : Int) (rate : Rate) (status : Status) : Outcome :=
      ⟨⟨n⟩, 0, rate, 1000, status⟩
    let requests : List Request :=
      [.feedBatch .back [sent 1 10 .naked, sent 2 10 .naked, sent 3 20 .acked]]
    let query : Query := ⟨⟨1000000⟩, .data, 10000, 1000, 0⟩
    ∃ (f₀ f f' : Flow rates) (replies : List Reply)
      (result : Except Error Decision) (since : Instant),
      start rates config default = .ok f₀ ∧ f₀.run requests = .ok (f, replies)
        ∧ InOrder f.back.records ∧ f.mode.merging = .scouted
        ∧ query.occasion.isTimeout = false
        ∧ f.decide query = .ok (f', result)
        ∧ query.now.sub? f.config.backWindow = some since
        ∧ (∀ o ∈ f.back.records, since ≤ o.time)
        ∧ f'.feasible = (rates.toList.filter fun rate =>
          ¬ RuledOut (f.back.records.filter (·.time < query.now)) rate)
        ∧ f'.feasible = [20] := by
  intro rates config sent requests query
  obtain ⟨f₀, f, replies, ⟨f', result⟩, hstart, hrun, hdecide, hordered,
      hscouted, hsince, hreaches, hfound⟩ :=
    exists_step rates config default requests (·.decide query)
      (fun f p => InOrder f.back.records ∧ f.mode.merging = .scouted
        ∧ query.now.sub? f.config.backWindow = some ⟨-999999000000⟩
        ∧ (∀ o ∈ f.back.records, (⟨-999999000000⟩ : Instant) ≤ o.time)
        ∧ p.1.feasible = [20])
      (by decide +kernel)
  have hlong := (feasible_by_reach hordered hscouted rfl hdecide).2
  exact ⟨f₀, f, f', replies, result, _, hstart, hrun, hordered, hscouted, rfl,
    hdecide, hsince, hreaches, hlong _ hsince hreaches, hfound⟩

/-- As far back as can be asked for, the same losses rule out nothing,
though they leave another candidate. -/
theorem feasible_despite_losses :
    let rates : RateSet := ⟨#[10, 20], by decide, by decide⟩
    let config : Config := { backWindow := .max }
    let sent (n : Int) (rate : Rate) (status : Status) : Outcome :=
      ⟨⟨n⟩, 0, rate, 1000, status⟩
    let requests : List Request :=
      [.feedBatch .back [sent 1 10 .naked, sent 2 10 .naked, sent 3 20 .acked]]
    let query : Query := ⟨⟨1000000⟩, .data, 10000, 1000, 0⟩
    ∃ (f₀ f f' : Flow rates) (replies : List Reply)
      (result : Except Error Decision),
      start rates config default = .ok f₀ ∧ f₀.run requests = .ok (f, replies)
        ∧ InOrder f.back.records ∧ f.mode.merging = .scouted
        ∧ query.occasion.isTimeout = false
        ∧ f.decide query = .ok (f', result)
        ∧ query.now.sub? f.config.backWindow = none
        ∧ RuledOut (f.back.records.filter (·.time < query.now)) 10
        ∧ ¬ RuledOut (f.back.records.filter (·.time < query.now)) 20
        ∧ f'.feasible = [10, 20] := by
  intro rates config sent requests query
  obtain ⟨f₀, f, replies, ⟨f', result⟩, hstart, hrun, hdecide, hordered,
      hscouted, hbeyond, hruled, hother, hfound⟩ :=
    exists_step rates config default requests (·.decide query)
      (fun f p => InOrder f.back.records ∧ f.mode.merging = .scouted
        ∧ query.now.sub? f.config.backWindow = none
        ∧ RuledOut (f.back.records.filter (·.time < query.now)) 10
        ∧ ¬ RuledOut (f.back.records.filter (·.time < query.now)) 20
        ∧ p.1.feasible = [10, 20])
      (by decide +kernel)
  exact ⟨f₀, f, f', replies, result, hstart, hrun, hordered, hscouted, rfl,
    hdecide, hbeyond, hruled, hother, hfound⟩

end LinkAdaptation.Flow
