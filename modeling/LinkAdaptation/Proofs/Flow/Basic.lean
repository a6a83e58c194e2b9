/-
What stays with a flow. A flow is started with an accepted configuration
and keeps it; its four loss maps hold estimates only; and a decision leaves
the windows and the settings alone. The lemmas about single operations say
which of these they keep.
-/
import LinkAdaptation.Flow.Basic
import LinkAdaptation.Proofs.LossMap.Update

namespace LinkAdaptation

-- ====================================================== configurations

/-- What an accepted configuration promises. -/
structure Config.Accepted (c : Config) : Prop where
  maxK_pos : 1 ≤ c.maxK
  maxK_lt : c.maxK < c.codedField
  probeCount_le : c.probeCount ≤ c.probeBound
  duplicateThreshold : inUnit c.duplicateThreshold = true
  lossBound : inUnit c.lossBound = true
  weight : ¬ 1.0 < c.backLossWeight

theorem Config.rejection?_eq_none_iff {c : Config} :
    c.rejection? = none ↔ c.Accepted := by
  unfold rejection?
  constructor
  · intro h
    split at h
    · cases h
    split at h
    · cases h
    split at h
    · cases h
    split at h
    · cases h
    split at h
    · cases h
    split at h
    · cases h
    · next hpos hroom hprobes hthreshold hbound hweight =>
        rw [Bool.not_eq_true', Bool.not_eq_false] at hthreshold hbound
        exact ⟨by omega, by omega, by omega, hthreshold, hbound, hweight⟩
  · intro h
    obtain ⟨h₁, h₂, h₃, h₄, h₅, h₆⟩ := h
    rw [if_neg (by omega), if_neg (by omega), if_neg (by omega), h₄, h₅,
      if_neg (by decide), if_neg (by decide), if_neg h₆]

/-- With a seed, no generator begins with entropy. -/
theorem Config.generator_of_seeded {c : Config} (h : c.seed.isSome = true)
    (entropy entropy' : Random.Key) :
    c.generator entropy = c.generator entropy' := by
  obtain ⟨seed, hseed⟩ := Option.isSome_iff_exists.1 h
  unfold generator
  rw [hseed]

-- ============================================================= reasons

/-- Any fault but an estimate out of its range. -/
def Fault.NotLoss (fault : Fault) : Prop := fault ≠ .lossOutOfRange

/-- Any failure but an estimate out of its range. -/
def Failure.NotLoss (failure : Failure) : Prop :=
  ∀ fault, failure = .broken fault → fault.NotLoss

theorem Fault.notLoss_of_eq (reason : Fault) (h : reason.NotLoss)
    (fault : Fault) (heq : fault = reason) : fault.NotLoss := by
  rw [heq]
  exact h

theorem Fault.notLoss_of_counter (fault : Fault)
    (h : fault = .counterOverflow) : fault.NotLoss :=
  notLoss_of_eq .counterOverflow nofun fault h

theorem Failure.notLoss_refused (error : Error) :
    Failure.NotLoss (.refused error) := by
  intro fault h
  cases h

theorem Failure.notLoss_broken (fault : Fault) (h : fault.NotLoss) :
    Failure.NotLoss (.broken fault) := by
  intro other heq
  cases heq
  exact h

namespace Flow

variable {rates : RateSet} {config : Config} {entropy : Random.Key}
  {f f' f'' : Flow rates}

theorem accepted_of_start (h : start rates config entropy = .ok f) :
    config.Accepted := by
  unfold start at h
  split at h
  · cases h
  · next hnone => exact Config.rejection?_eq_none_iff.1 hnone

-- ======================================================= what is kept

/-- Every entry of the four loss maps is an estimate. -/
def Meaningful (f : Flow rates) : Prop := ∀ view, (f.lossMap view).Meaningful

/-- A flow as its requests leave it: with the configuration it was started
with, and with estimates for losses. -/
structure Sound (config : Config) (f : Flow rates) : Prop where
  config_eq : f.config = config
  meaningful : f.Meaningful

theorem sound_start (h : start rates config entropy = .ok f) :
    Sound config f := by
  unfold start at h
  split at h
  · cases h
  · cases h
    refine ⟨rfl, ?_⟩
    intro view
    cases view <;> exact LossMap.meaningful_empty

theorem lossMap_setLossMap (f : Flow rates) (view other : View)
    (m : LossMap rates) :
    (f.setLossMap view m).lossMap other
      = if other = view then m else f.lossMap other := by
  cases view <;> cases other <;> rfl

theorem Sound.setLossMap (h : Sound config f) (view : View)
    {m : LossMap rates} (hm : m.Meaningful) :
    Sound config (f.setLossMap view m) := by
  refine ⟨?_, ?_⟩
  · cases view <;> exact h.config_eq
  · intro other
    rw [lossMap_setLossMap]
    split
    · exact hm
    · exact h.meaningful other

theorem Sound.setWindow (h : Sound config f) (vantage : Vantage)
    (w : Window rates) : Sound config (f.setWindow vantage w) := by
  cases vantage with
  | front => exact ⟨h.config_eq, h.meaningful⟩
  | back => exact ⟨h.config_eq, h.meaningful⟩

theorem Sound.setMode (h : Sound config f) (mode : Mode) (now : Instant)
    (entropy : Random.Key) : Sound config (f.setMode mode now entropy) := by
  unfold Flow.setMode
  dsimp only
  split
  · exact ⟨h.config_eq, h.meaningful⟩
  · split
    · exact ⟨h.config_eq, h.meaningful⟩
    · exact ⟨h.config_eq, h.meaningful⟩

theorem Sound.setDuplicateThreshold (h : Sound config f)
    (threshold : Float) :
    Upholds (f.setDuplicateThreshold threshold) (Sound config)
      fun _ => True := by
  unfold Flow.setDuplicateThreshold
  split
  · exact ⟨h.config_eq, h.meaningful⟩
  · exact trivial

theorem Sound.setLossBound (h : Sound config f) (bound : Float) :
    Upholds (f.setLossBound bound) (Sound config) fun _ => True := by
  unfold Flow.setLossBound
  split
  · exact ⟨h.config_eq, h.meaningful⟩
  · exact trivial

theorem Sound.setRate (h : Sound config f) (rate : Rate) :
    Upholds (f.setRate rate) (Sound config) fun _ => True := by
  unfold Flow.setRate
  split
  · exact ⟨h.config_eq, h.meaningful⟩
  · exact trivial

-- ============================================================ settings

/-- The windows and the settings of two flows are the same. -/
structure SameSettings (f f' : Flow rates) : Prop where
  config : f'.config = f.config
  front : f'.front = f.front
  back : f'.back = f.back
  mode : f'.mode = f.mode
  useCoding : f'.useCoding = f.useCoding
  mayDuplicate : f'.mayDuplicate = f.mayDuplicate
  speed : f'.speed = f.speed
  duplicateThreshold : f'.duplicateThreshold = f.duplicateThreshold
  lossBound : f'.lossBound = f.lossBound

theorem SameSettings.rfl : SameSettings f f :=
  ⟨Eq.refl _, Eq.refl _, Eq.refl _, Eq.refl _, Eq.refl _, Eq.refl _,
    Eq.refl _, Eq.refl _, Eq.refl _⟩

theorem SameSettings.trans (h : SameSettings f f')
    (h' : SameSettings f' f'') : SameSettings f f'' :=
  ⟨h'.config.trans h.config, h'.front.trans h.front, h'.back.trans h.back,
    h'.mode.trans h.mode, h'.useCoding.trans h.useCoding,
    h'.mayDuplicate.trans h.mayDuplicate, h'.speed.trans h.speed,
    h'.duplicateThreshold.trans h.duplicateThreshold,
    h'.lossBound.trans h.lossBound⟩

end Flow

end LinkAdaptation
