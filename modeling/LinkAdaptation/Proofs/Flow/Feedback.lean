/-
Feedback keeps a flow sound. What it changes beside the windows is the
baseline, and the loss map of the vantage point it comes from, where a
range of outcomes is blended in as losses of a sound table.
-/
import LinkAdaptation.Flow.Feedback
import LinkAdaptation.Proofs.Flow.Basic
import LinkAdaptation.Proofs.Selector.Baseline

namespace LinkAdaptation.Flow

variable {rates : RateSet} {config : Config} {f : Flow rates}

theorem Sound.teach (h : Sound config f) (outcomes : List Outcome) :
    Upholds (f.teach outcomes) (Sound config) (· = .counterOverflow) := by
  unfold Flow.teach
  split
  · apply (Upholds.foldlM trivial fun b o _ => b.insert_upholds o).bind
    intro baseline _
    exact ⟨h.config_eq, h.meaningful⟩
  · exact h

theorem Sound.teachFrom (h : Sound config f) (vantage : Vantage)
    (outcomes : List Outcome) :
    Upholds (f.teachFrom vantage outcomes) (Sound config)
      (· = .counterOverflow) := by
  cases vantage with
  | front => exact h
  | back => exact h.teach outcomes

theorem Sound.feed (h : Sound config f) (vantage : Vantage) (o : Outcome) :
    Upholds (f.feed vantage o) (Sound config) Failure.NotLoss := by
  unfold Flow.feed
  split
  · exact Failure.notLoss_refused _
  · next w _ _ =>
      have hteach := (h.setWindow vantage w).teachFrom vantage [o]
      apply (hteach.weaken Fault.notLoss_of_counter).mapError
      exact Failure.notLoss_broken

/-- A range of outcomes is blended in without a fault of the estimates. -/
theorem Sound.refreshLoss (h : Sound config f) (hc : config.Accepted)
    (vantage : Vantage) (start stop : Instant) :
    Upholds (f.refreshLoss vantage start stop) (Sound config)
      (· = .counterOverflow) := by
  apply ((f.window vantage).tally?_sound start stop).bind
  intro table? htable
  have hw : ¬ 1.0 < f.config.backLossWeight := by
    rw [h.config_eq]
    exact hc.weight
  obtain ⟨m, hm, hmeaning⟩ := (h.meaningful vantage.view).absorb htable hw
  dsimp only
  rw [hm]
  exact h.setLossMap vantage.view hmeaning

theorem burstRange_upholds (first last : Instant) :
    Upholds (burstRange first last) (fun _ => True)
      (· = .instantOverflow) := by
  unfold burstRange
  split
  · exact trivial
  · exact rfl

theorem Sound.feedBatch (h : Sound config f) (hc : config.Accepted)
    (vantage : Vantage) (outcomes : List Outcome) :
    Upholds (f.feedBatch vantage outcomes) (Sound config)
      Failure.NotLoss := by
  unfold Flow.feedBatch
  split
  · exact Failure.notLoss_refused _
  · exact h
  · refine Upholds.mapError ?_ Failure.notLoss_broken
    apply (((h.setWindow vantage _).teachFrom vantage _).weaken
      Fault.notLoss_of_counter).bind
    intro f' h'
    apply ((burstRange_upholds _ _).weaken
      (Fault.notLoss_of_eq .instantOverflow nofun)).bind
    intro range _
    exact (h'.refreshLoss hc vantage range.1 range.2).weaken
      Fault.notLoss_of_counter

theorem Sound.giveUp (h : Sound config f) : Sound config f.giveUp := by
  refine ⟨h.config_eq, ?_⟩
  intro view
  cases view with
  | front => exact LossMap.meaningful_giveUp _
  | back => exact LossMap.meaningful_giveUp _
  | scout => exact LossMap.meaningful_giveUp _
  | combined => exact h.meaningful .combined

end LinkAdaptation.Flow
