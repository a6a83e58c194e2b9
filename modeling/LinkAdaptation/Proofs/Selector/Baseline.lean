/-
What a baseline selects is a candidate, and as many as were asked for.
Counting an outcome, and counting decisions, fail for one reason only: a
counter at the end of its range.
-/
import LinkAdaptation.Proofs.Checked
import LinkAdaptation.Proofs.RateSet
import LinkAdaptation.Selector.Baseline

namespace LinkAdaptation

variable {rates : RateSet}

-- =========================================================== counting

/-- A counter goes up, or is at the end of its range. -/
theorem increment_counts (n : Nat) :
    Upholds (increment n) (fun _ => True) (· = .counterOverflow) :=
  (increment_upholds n).imp fun _ _ => trivial

theorem SampleRate.Entry.count_upholds (e : SampleRate.Entry)
    (o : Outcome) :
    Upholds (e.count o) (fun _ => True) (· = .counterOverflow) := by
  apply (increment_counts e.sent).bind
  intro sent _
  cases o.status with
  | sent => exact trivial
  | acked => exact (increment_counts _).bind fun _ _ => trivial
  | naked =>
      exact (increment_counts _).bind fun _ _ =>
        (increment_counts _).bind fun _ _ => trivial
  | timedOut =>
      exact (increment_counts _).bind fun _ _ =>
        (increment_counts _).bind fun _ _ => trivial

theorem Rraa.Entry.count_upholds (e : Rraa.Entry) (o : Outcome) :
    Upholds (e.count o) (fun _ => True) (· = .counterOverflow) := by
  apply (increment_counts e.sent).bind
  intro sent _
  split
  · exact (increment_counts _).bind fun _ _ => trivial
  · exact trivial

theorem SampleRate.record_upholds (s : SampleRate rates) (o : Outcome) :
    Upholds (s.record o) (fun _ => True) (· = .counterOverflow) := by
  unfold record
  split
  · split
    · apply (SampleRate.Entry.count_upholds _ o).bind
      intro entry _
      split
      · exact (increment_counts _).bind fun _ _ => trivial
      · exact trivial
    · exact trivial
  · exact trivial

theorem Rraa.record_upholds (s : Rraa rates) (o : Outcome) :
    Upholds (s.record o) (fun _ => True) (· = .counterOverflow) := by
  unfold record
  split
  · split
    · exact (Rraa.Entry.count_upholds _ o).bind fun _ _ => trivial
    · exact trivial
  · exact trivial

theorem Selector.record_upholds (s : Selector rates) (o : Outcome) :
    Upholds (s.record o) (fun _ => True) (· = .counterOverflow) := by
  cases s with
  | sampleRate state => exact (state.record_upholds o).map fun _ _ => trivial
  | rraa state => exact (state.record_upholds o).map fun _ _ => trivial

theorem Baseline.insert_upholds (b : Baseline rates) (o : Outcome) :
    Upholds (b.insert o) (fun _ => True) (· = .counterOverflow) := by
  unfold insert
  split
  · exact (b.selector.record_upholds o).bind fun _ _ => trivial
  · exact trivial

-- =========================================================== selecting

theorem SampleRate.select_upholds (s : SampleRate rates) (now : Instant) :
    Upholds (s.select now) (fun p => p.2 ∈ rates.toList)
      (· = .counterOverflow) :=
  (increment_counts _).bind fun _ _ => RateSet.get_mem _

theorem Selector.select_upholds (s : Selector rates) (now : Instant) :
    Upholds (s.select now) (fun p => p.2 ∈ rates.toList)
      (· = .counterOverflow) := by
  cases s with
  | sampleRate state => exact (state.select_upholds now).bind fun _ h => h
  | rraa state => exact RateSet.get_mem _

/-- A baseline selects a candidate. -/
theorem Baseline.select_upholds (b : Baseline rates) (now : Instant) :
    Upholds (b.select now) (fun p => p.2 ∈ rates.toList)
      (· = .counterOverflow) :=
  (b.selector.select_upholds now).bind fun _ h => h

/-- It selects as many candidates as it is asked for. -/
theorem Baseline.selectMany_upholds (b : Baseline rates) (now : Instant)
    (n : Nat) :
    Upholds (b.selectMany now n)
      (fun p => p.2.length = n ∧ ∀ rate ∈ p.2, rate ∈ rates.toList)
      (· = .counterOverflow) := by
  induction n generalizing b with
  | zero =>
      refine ⟨rfl, ?_⟩
      intro rate h
      cases h
  | succ n ih =>
      apply (b.select_upholds now).bind
      intro p hrate
      apply (ih p.1).bind
      intro q hq
      obtain ⟨hlength, hrest⟩ := hq
      refine ⟨?_, List.forall_mem_cons.2 ⟨hrate, hrest⟩⟩
      show q.2.length + 1 = n + 1
      rw [hlength]

end LinkAdaptation
