/-
What a refresh leaves of an estimate that it has no data for. A range of
outcomes is blended into the loss map of its vantage point, candidate by
candidate; a candidate without an outcome in the range comes with a loss
that is not known, whether the window has data of the others or none at
all. As long as the past has weight, such a loss leaves the estimate as it
was. Without weight, it replaces the estimate like any other.

The range is named by the caller, or is the one that holds a burst.
-/
import LinkAdaptation.Proofs.Flow.Run
import LinkAdaptation.Proofs.Window.Range

namespace LinkAdaptation

variable {rates : RateSet}

-- ============================================================ blending

theorem isKnown_unknownLoss : isKnown unknownLoss = false :=
  isKnown_eq_false_iff.2 rfl

/-- What is left of an estimate when nothing new is known of its
candidate. -/
def remembered (weight loss : Float) : Float :=
  if weight ≤ 0.0 then unknownLoss else loss

theorem LossEntry.blend_unknownLoss (e : LossEntry) (weight : Float) :
    (e.blend unknownLoss weight).loss = remembered weight e.loss := by
  unfold blend remembered
  rw [isKnown_unknownLoss, Bool.and_false, Bool.false_and,
    if_neg Bool.false_ne_true]
  by_cases hweight : weight ≤ 0.0
  · simp [hweight]
  · cases hknown : isKnown e.loss with
    | true => simp [hweight]
    | false => simp [hweight, isKnown_eq_false_iff.1 hknown]

namespace LossMap

variable {m m' : LossMap rates} {weight : Float} {i : rates.Index}

theorem get_blendAll {losses : Table rates Float}
    (h : m.blendAll losses weight = .ok m') :
    m'.entries.get i = (m.entries.get i).blend (losses.get i) weight := by
  unfold blendAll at h
  split at h
  · cases h
    exact Table.get_zipWith ..
  · cases h

/-- Without data, nothing new is known of any candidate. -/
theorem get_absorb_none (h : m.absorb none weight = .ok m') :
    m'.entries.get i = (m.entries.get i).blend unknownLoss weight := by
  rw [get_blendAll h, Table.get_fill]

/-- With data, a candidate's loss is blended in, and its counts are those of
the data. -/
theorem get_absorb_some {table : Table rates Tally}
    (h : m.absorb (some table) weight = .ok m') :
    m'.entries.get i = { (m.entries.get i).blend (table.get i).loss weight with
      sent := (table.get i).sent, acked := (table.get i).acked } := by
  obtain ⟨blended, hblend, h⟩ := bind_eq_ok.1 h
  cases h
  rw [Table.get_zipWith, get_blendAll hblend, Table.get_map]

/-- A candidate that a range did not count is left with what is
remembered of it. -/
theorem lossAt_of_absorb {table? : Option (Table rates Tally)}
    (h : m.absorb table? weight = .ok m')
    (huncounted : ∀ table ∈ table?, (table.get i).sent = 0) :
    m'.lossAt i = remembered weight (m.lossAt i) := by
  unfold lossAt
  cases table? with
  | none =>
      rw [get_absorb_none h]
      exact LossEntry.blend_unknownLoss _ weight
  | some table =>
      have hloss : (table.get i).loss = unknownLoss :=
        if_pos (huncounted table rfl)
      rw [get_absorb_some h, hloss]
      exact LossEntry.blend_unknownLoss _ weight

end LossMap

/-- A range without an outcome at a candidate does not count it. -/
theorem Window.uncounted_of_absent {w : Window rates}
    (h : InOrder w.records) {start stop : Instant}
    {table? : Option (Table rates Tally)}
    (htally : w.tally? start stop = .ok table?) {i : rates.Index}
    (habsent : ∀ o ∈ w.within start stop, o.rate ≠ rates.get i) :
    ∀ table ∈ table?, (table.get i).sent = 0 := by
  intro table htable
  have htallied := (tally?_eq_ok h htally).1 table htable
  rw [(htallied i).1, List.countP_eq_zero]
  intro o ho hrate
  exact habsent o ho (of_decide_eq_true hrate)

namespace Flow

variable {config : Config} {entropy : Random.Key} {f₀ f f' : Flow rates}
  {vantage : Vantage}
  {outcomes : List Outcome}

-- ============================================================== ranges

/-- The range that holds a burst, unless the burst is empty: from a
nanosecond before its earliest outcome, if there is such an instant, to a
nanosecond after its latest. -/
def burstRange? (outcomes : List Outcome) : Option (Instant × Instant) := do
  let first ← (outcomes.map (·.time)).min?
  let last ← (outcomes.map (·.time)).max?
  return ((first.sub? .tick).getD first, ⟨last.nanos + 1⟩)

/-- The vantage point whose loss map a request has refreshed, and the range
that is blended in. -/
def Request.refreshed? : Request → Option (Vantage × Instant × Instant)
  | .refreshLoss vantage start stop => some (vantage, start, stop)
  | .feedBatch vantage outcomes =>
      (burstRange? outcomes).map fun (start, stop) => (vantage, start, stop)
  | _ => none

theorem burstRange_eq_ok {first last start stop : Instant}
    (h : burstRange first last = .ok (start, stop)) :
    start = (first.sub? .tick).getD first ∧ stop = ⟨last.nanos + 1⟩ := by
  unfold burstRange at h
  split at h
  · next stop' hstop =>
      cases h
      refine ⟨rfl, ?_⟩
      unfold Instant.add? Instant.ofNanos? at hstop
      split at hstop <;> cases hstop
      rfl
  · cases h

-- ========================================================== refreshing

theorem teachFrom_eq_ok (h : f.teachFrom vantage outcomes = .ok f') :
    ∃ baseline?, f' = { f with baseline? } := by
  cases vantage with
  | front =>
      cases h
      exact ⟨f.baseline?, rfl⟩
  | back =>
      unfold teachFrom teach at h
      dsimp only at h
      split at h
      · obtain ⟨b, -, h⟩ := bind_eq_ok.1 h
        cases h
        exact ⟨some b, rfl⟩
      · cases h
        exact ⟨f.baseline?, rfl⟩

/-- A burst is recorded, taught, and then blended in. -/
theorem feedBatch_eq_ok {start stop : Instant}
    (hrange : burstRange? outcomes = some (start, stop))
    (h : f.feedBatch vantage outcomes = .ok f') :
    ∃ baseline?,
      refreshLoss { f.setWindow vantage
          (outcomes.foldl .push (f.window vantage)) with baseline? }
        vantage start stop = .ok f' := by
  unfold feedBatch at h
  split at h
  · cases h
  · cases hrange
  · next o rest _ =>
      cases hrange
      obtain ⟨f₁, hteach, h⟩ := bind_eq_ok.1 (mapError_eq_ok.1 h)
      obtain ⟨range, hrange, h⟩ := bind_eq_ok.1 h
      obtain ⟨baseline?, rfl⟩ := teachFrom_eq_ok hteach
      obtain ⟨hstart, hstop⟩ := burstRange_eq_ok hrange
      refine ⟨baseline?, ?_⟩
      dsimp only at h
      rw [hstart, hstop] at h
      exact h

/-- A refresh tallies the range and takes over what it showed. -/
theorem refreshLoss_eq_ok {start stop : Instant}
    (h : f.refreshLoss vantage start stop = .ok f') :
    ∃ table? m, (f.window vantage).tally? start stop = .ok table?
      ∧ (f.lossMap vantage.view).absorb table? f.config.backLossWeight = .ok m
      ∧ f' = f.setLossMap vantage.view m := by
  obtain ⟨table?, htally, h⟩ := bind_eq_ok.1 h
  obtain ⟨m, habsorb, h⟩ := bind_eq_ok.1 h
  cases h
  exact ⟨table?, m, htally, habsorb, rfl⟩

/-- A refresh leaves the windows, and what is remembered of a candidate
without an outcome in the range. -/
theorem lossAt_of_refreshLoss {start stop : Instant} {i : rates.Index}
    (h : f.refreshLoss vantage start stop = .ok f')
    (hordered : InOrder (f'.window vantage).records)
    (habsent : ∀ o ∈ (f'.window vantage).within start stop,
      o.rate ≠ rates.get i) :
    (f'.lossMap vantage.view).lossAt i
      = remembered f.config.backLossWeight
        ((f.lossMap vantage.view).lossAt i) := by
  obtain ⟨table?, m, htally, habsorb, rfl⟩ := refreshLoss_eq_ok h
  have hwindow : (f.setLossMap vantage.view m).window vantage
      = f.window vantage := by cases vantage <;> rfl
  rw [hwindow] at hordered habsent
  rw [lossMap_setLossMap, if_pos rfl]
  exact LossMap.lossAt_of_absorb habsorb
    (Window.uncounted_of_absent hordered htally habsent)

/-- Whatever a flow was asked before, a range that is blended into a loss
map leaves the estimate of a candidate without an outcome in it as it was,
if the past has weight; if it has none, the estimate is lost. -/
theorem estimate_without_data {requests : List Request}
    {replies : List Reply} {request : Request} {start stop : Instant}
    {i : rates.Index} (hstart : Flow.start rates config entropy = .ok f₀)
    (hrun : f₀.run requests = .ok (f, replies))
    (hrange : request.refreshed? = some (vantage, start, stop))
    (hhandle : f.handle request = .ok (f', .done))
    (hordered : InOrder (f'.window vantage).records)
    (habsent : ∀ o ∈ (f'.window vantage).within start stop,
      o.rate ≠ rates.get i) :
    (f'.lossMap vantage.view).lossAt i
      = if config.backLossWeight ≤ 0.0 then unknownLoss
        else (f.lossMap vantage.view).lossAt i := by
  have hsound := ((sound_start hstart).run (accepted_of_start hstart)
    requests).of_eq_ok hrun
  rw [← hsound.config_eq]
  unfold Request.refreshed? at hrange
  split at hrange
  · cases hrange
    obtain ⟨f₁, hrefresh, hhandle⟩ := bind_eq_ok.1 hhandle
    cases hhandle
    exact lossAt_of_refreshLoss hrefresh hordered habsent
  · next outcomes =>
      obtain ⟨range, hburst, hrange⟩ := Option.map_eq_some_iff.1 hrange
      cases hrange
      obtain ⟨-, hfeed⟩ | ⟨_, hreply, -⟩ := attemptChecked_eq_ok hhandle
      · obtain ⟨baseline?, hrefresh⟩ := feedBatch_eq_ok hburst hfeed
        have hkept := lossAt_of_refreshLoss hrefresh hordered habsent
        cases vantage <;> exact hkept
      · cases hreply
  · cases hrange

/-- A loss at one candidate after an acknowledgement at another, which is
remembered. -/
theorem estimate_without_data_weighted :
    let rates : RateSet := ⟨#[10, 20], by decide, by decide⟩
    let requests : List Request :=
      [.feedBatch .back [⟨⟨0⟩, 1, 10, 1000, .acked⟩]]
    let request : Request := .feedBatch .back [⟨⟨1000000⟩, 2, 20, 1000, .naked⟩]
    ∃ (f₀ f f' : Flow rates) (replies : List Reply),
      Flow.start rates {} default = .ok f₀ ∧ f₀.run requests = .ok (f, replies)
        ∧ request.refreshed? = some (.back, ⟨999999⟩, ⟨1000001⟩)
        ∧ f.handle request = .ok (f', .done)
        ∧ InOrder (f'.window .back).records
        ∧ (∀ o ∈ (f'.window .back).within ⟨999999⟩ ⟨1000001⟩,
          o.rate ≠ rates.get rates.bottom)
        ∧ (f'.lossMap .back).lossAt rates.bottom
          = (if (0.2 : Float) ≤ 0.0 then unknownLoss
            else (f.lossMap .back).lossAt rates.bottom)
        ∧ isKnown ((f.lossMap .back).lossAt rates.bottom) = true := by
  intro rates requests request
  obtain ⟨f₀, f, replies, ⟨f', reply⟩, hstart, hrun, hhandle, rfl, hordered,
      habsent, hknown⟩ :=
    exists_step rates {} default requests (·.handle request)
      (fun f p => p.2 = .done ∧ InOrder (p.1.window .back).records
        ∧ (∀ o ∈ (p.1.window .back).within ⟨999999⟩ ⟨1000001⟩,
          o.rate ≠ rates.get rates.bottom)
        ∧ isKnown ((f.lossMap .back).lossAt rates.bottom) = true)
      (by decide +kernel)
  have hrange : request.refreshed? = some (.back, ⟨999999⟩, ⟨1000001⟩) := by
    decide
  exact ⟨f₀, f, f', replies, hstart, hrun, hrange, hhandle, hordered, habsent,
    estimate_without_data hstart hrun hrange hhandle hordered habsent, hknown⟩

/-- Where the past has no weight, the estimate of a candidate is lost with
the first range that is blended in without an outcome of it. -/
theorem estimate_lost_without_weight :
    let rates : RateSet := ⟨#[10, 20], by decide, by decide⟩
    let config : Config := { backLossWeight := 0.0 }
    let requests : List Request :=
      [.feedBatch .back [⟨⟨0⟩, 1, 10, 1000, .acked⟩]]
    let request : Request := .feedBatch .back [⟨⟨1000000⟩, 2, 20, 1000, .naked⟩]
    ∃ (f₀ f f' : Flow rates) (replies : List Reply),
      Flow.start rates config default = .ok f₀
        ∧ f₀.run requests = .ok (f, replies)
        ∧ request.refreshed? = some (.back, ⟨999999⟩, ⟨1000001⟩)
        ∧ f.handle request = .ok (f', .done)
        ∧ InOrder (f'.window .back).records
        ∧ (∀ o ∈ (f'.window .back).within ⟨999999⟩ ⟨1000001⟩,
          o.rate ≠ rates.get rates.bottom)
        ∧ (f.lossMap .back).lossAt rates.bottom = 0.0
        ∧ (f'.lossMap .back).lossAt rates.bottom = unknownLoss := by
  intro rates config requests request
  obtain ⟨f₀, f, replies, ⟨f', reply⟩, hstart, hrun, hhandle, rfl, hordered,
      habsent, hknown, hlost⟩ :=
    exists_step rates config default requests (·.handle request)
      (fun f p => p.2 = .done ∧ InOrder (p.1.window .back).records
        ∧ (∀ o ∈ (p.1.window .back).within ⟨999999⟩ ⟨1000001⟩,
          o.rate ≠ rates.get rates.bottom)
        ∧ (f.lossMap .back).lossAt rates.bottom = 0.0
        ∧ (p.1.lossMap .back).lossAt rates.bottom = unknownLoss)
      (by decide +kernel)
  exact ⟨f₀, f, f', replies, hstart, hrun, by decide, hhandle, hordered,
    habsent, hknown, hlost⟩

end Flow

end LinkAdaptation
