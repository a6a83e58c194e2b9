/-
What a decision looks up before it chooses. In a scouting mode it goes back
to the time when the front antenna was where the back antenna is now, and
puts what the front window counted around that time in place of everything
that was looked up before. When there is no such time — the client stands
still, the lag is no duration, an instant leaves its range — nothing is
known of any candidate. The merged losses are then computed from what was
looked up and what the two antennas last reported; in the other modes they
are computed from the reports alone, and nothing is looked up.

Nothing after the merge changes any of this, so it holds of the flow that a
decision leaves, whether the decision found a batch or not.
-/
import LinkAdaptation.Proofs.Flow.Refresh
import LinkAdaptation.Proofs.Flow.Steps
import LinkAdaptation.Proofs.Window.Answers

namespace LinkAdaptation

variable {rates : RateSet}

-- ============================================================ replacing

/-- Replacing forgets what was known. -/
theorem LossEntry.blend_replacing (e : LossEntry) (loss : Float) :
    (e.blend loss replacing).loss = loss := by
  have hpast : ¬ 0.0 < replacing := by decide
  have hreplaces : replacing ≤ 0.0 := rfl
  unfold blend
  simp [hpast, hreplaces]

theorem LossMap.lossAt_of_replaceAll {m m' : LossMap rates}
    {losses : Table rates Float} (h : m.replaceAll losses = .ok m')
    (i : rates.Index) : m'.lossAt i = losses.get i := by
  unfold lossAt
  rw [get_blendAll h]
  exact LossEntry.blend_replacing _ _

namespace Flow

variable {f f' : Flow rates} {now first last : Instant} {query : Query}

-- ============================================================= aligning

/-- The front window is to be looked up from `first` up to `last`: half a
front window on either side of the instant that lies back by the lag, the
time that the client takes from one antenna to the other. -/
def LooksUp (f : Flow rates) (now first last : Instant) : Prop :=
  0.0 < f.speed ∧ ∃ lag : Duration,
    Duration.ofSeconds? (f.config.antennaDistance / f.speed) = some lag
    ∧ Instant.ofNanos? (now.nanos - lag.nanos) ≠ none
    ∧ Instant.ofNanos? (now.nanos - lag.nanos - f.config.frontWindow.half.nanos)
      = some first
    ∧ Instant.ofNanos? (now.nanos - lag.nanos + f.config.frontWindow.half.nanos)
      = some last

/-- A speed that is not a number leads to no lag. -/
theorem ofSeconds?_div_notANumber {x y : Float}
    (hy : unpack y = .notANumber) : Duration.ofSeconds? (x / y) = none := by
  unfold Duration.ofSeconds?
  rw [value?_div_notANumber hy]
  rfl

theorem alignedRange?_eq_some_iff :
    f.alignedRange? now = some (first, last) ↔ f.LooksUp now first last := by
  unfold alignedRange? LooksUp
  constructor
  · intro h
    split at h
    · cases h
    · next hspeed =>
        obtain ⟨lag, hlag, h⟩ := Option.bind_eq_some_iff.1 h
        obtain ⟨aligned, haligned, h⟩ := Option.bind_eq_some_iff.1 h
        obtain ⟨_, hfirst, h⟩ := Option.bind_eq_some_iff.1 h
        obtain ⟨_, hlast, h⟩ := Option.bind_eq_some_iff.1 h
        cases h
        have hmoving : 0.0 < f.speed := by
          rcases not_le_zero_iff.1 hspeed with hmoving | hnan
          · exact hmoving
          · rw [ofSeconds?_div_notANumber hnan] at hlag
            cases hlag
        have hplace := Instant.ofNanos?_eq_some haligned
        subst hplace
        refine ⟨hmoving, lag, hlag, ?_, hfirst, hlast⟩
        exact Option.ne_none_iff_exists'.2 ⟨_, haligned⟩
  · intro h
    obtain ⟨hmoving, lag, hlag, hsome, hfirst, hlast⟩ := h
    obtain ⟨aligned, haligned⟩ := Option.ne_none_iff_exists'.1 hsome
    have hplace := Instant.ofNanos?_eq_some haligned
    subst hplace
    rw [if_neg (not_le_zero_iff.2 (.inl hmoving))]
    exact Option.bind_eq_some_iff.2 ⟨lag, hlag, Option.bind_eq_some_iff.2
      ⟨_, haligned, Option.bind_eq_some_iff.2
        ⟨first, hfirst, Option.bind_eq_some_iff.2 ⟨last, hlast, rfl⟩⟩⟩⟩

-- ============================================================= scouting

/-- The losses that are looked up are those of the front outcomes of the
range; without a range, none is known. -/
theorem scoutedLosses_get (hordered : InOrder f.front.records)
    {losses : Table rates Float} (h : f.scoutedLosses now = .ok losses)
    (i : rates.Index) :
    losses.get i = (f.alignedRange? now).elim unknownLoss fun (first, last) =>
      lossOver rates (f.front.within first last) (rates.get i) := by
  unfold scoutedLosses at h
  cases hrange : f.alignedRange? now with
  | none =>
      rw [hrange] at h
      cases h
      exact Table.get_fill _ i
  | some range =>
      obtain ⟨first, last⟩ := range
      rw [hrange] at h
      obtain ⟨table?, htally, h⟩ := bind_eq_ok.1 h
      obtain ⟨hsome, hnone⟩ := Window.tally?_eq_ok hordered htally
      show losses.get i
        = lossOver rates (f.front.within first last) (rates.get i)
      cases table? with
      | none =>
          cases h
          rw [hnone rfl, lossOver_nil]
          exact Table.get_fill _ i
      | some table =>
          cases h
          rw [Table.get_map]
          exact loss_of_tallied (hsome table rfl) i

-- ============================================================= merging

/-- The modes that look up the front window. -/
def scoutModes : List Mode :=
  [.scoutSequential, .scoutRandom, .boundedSequential, .boundedRandom]

/-- The modes that merge what both antennas last reported. -/
def batchModes : List Mode := [.batchSequential, .batchRandom]

theorem merging_of_scouting {mode : Mode} (h : mode ∈ scoutModes) :
    mode.merging = .scouted := by
  revert h
  cases mode <;> decide

theorem merging_of_batch {mode : Mode} (h : mode ∈ batchModes) :
    mode.merging = .delayed := by
  revert h
  cases mode <;> decide

/-- A merge that looks up the front merges what it looked up. -/
theorem merge_of_scouting (hmode : f.mode ∈ scoutModes)
    (h : f.merge now = .ok f') :
    ∃ losses scoutLoss feasible combinedLoss,
      f' = { f with scoutLoss, feasible, combinedLoss }
      ∧ f.scoutedLosses now = .ok losses
      ∧ (∀ i, scoutLoss.lossAt i = losses.get i)
      ∧ ∀ i, combinedLoss.lossAt i
        = mergeLosses (maxNum (scoutLoss.lossAt i) (f.frontLoss.lossAt i))
          (f.backLoss.lossAt i) := by
  unfold merge at h
  rw [merging_of_scouting hmode, if_pos rfl] at h
  obtain ⟨f₁, hscout, h⟩ := bind_eq_ok.1 h
  obtain ⟨losses, scoutLoss, feasible, rfl, hlosses, hreplaced, -⟩ :=
    scout_eq_ok hscout
  obtain ⟨combinedLoss, hmerged, h⟩ := bind_eq_ok.1 h
  cases h
  refine ⟨losses, scoutLoss, feasible, combinedLoss, rfl, hlosses,
    LossMap.lossAt_of_replaceAll hreplaced, ?_⟩
  intro i
  rw [LossMap.lossAt_of_replaceAll hmerged, Table.get_ofFn]
  rfl

/-- A merge that looks up nothing changes the merged losses only. -/
theorem merge_of_not_scouting (hmode : f.mode.merging ≠ .scouted)
    (h : f.merge now = .ok f') :
    ∃ combinedLoss, f' = { f with combinedLoss }
      ∧ ∀ i, combinedLoss.lossAt i = f.mergedLoss f.mode.merging i := by
  unfold merge at h
  rw [if_neg hmode] at h
  obtain ⟨f₁, hsame, h⟩ := bind_eq_ok.1 h
  obtain ⟨combinedLoss, hmerged, h⟩ := bind_eq_ok.1 h
  cases hsame
  cases h
  refine ⟨combinedLoss, rfl, ?_⟩
  intro i
  rw [LossMap.lossAt_of_replaceAll hmerged, Table.get_ofFn]

-- ============================================================= results

/-- After a decision that merges, in a scouting mode, the scouted loss of a
candidate is the one that the front outcomes of the range show, and is not
known where there are none or there is no range; and the merged loss is that
of the worse of the scouted and the front estimate with the back estimate.
In the batch modes the two estimates are merged, in the others the back
estimate is taken, and in all of these what was looked up before stays. This
holds of decisions that find no batch as well. -/
theorem scouted_and_merged {result : Except Error Decision}
    (hordered : InOrder f.front.records)
    (hoccasion : query.occasion.isTimeout = false)
    (hdecide : f.decide query = .ok (f', result)) :
    (f.mode ∈ scoutModes →
      (∀ first last, f.LooksUp query.now first last →
        ∀ i, f'.scoutLoss.lossAt i
          = lossOver rates (f.front.within first last) (rates.get i))
      ∧ ((¬ ∃ first last, f.LooksUp query.now first last) →
        ∀ i, f'.scoutLoss.lossAt i = unknownLoss)
      ∧ ∀ i, f'.combinedLoss.lossAt i
        = mergeLosses (maxNum (f'.scoutLoss.lossAt i) (f.frontLoss.lossAt i))
          (f.backLoss.lossAt i))
    ∧ (f.mode ∈ batchModes → ∀ i, f'.combinedLoss.lossAt i
      = mergeLosses (f.frontLoss.lossAt i) (f.backLoss.lossAt i))
    ∧ (f.mode ∈ plainModes → ∀ i,
      f'.combinedLoss.lossAt i = f.backLoss.lossAt i)
    ∧ (f.mode ∉ scoutModes →
      f'.scoutLoss = f.scoutLoss ∧ f'.feasible = f.feasible)
    ∧ f'.frontLoss = f.frontLoss ∧ f'.backLoss = f.backLoss := by
  obtain ⟨f₁, _, _, _, _, hmerge, hchoose, rfl⟩ :=
    decide_merged hoccasion hdecide
  obtain ⟨_, _, rfl⟩ := choose_eq_ok hchoose
  refine ⟨?_, ?_, ?_, ?_, ?_⟩
  · intro hmode
    obtain ⟨losses, scoutLoss, _, _, rfl, hlosses, hscouted, hmerged⟩ :=
      merge_of_scouting hmode hmerge
    have hfound (i : rates.Index) := scoutedLosses_get hordered hlosses i
    refine ⟨?_, ?_, hmerged⟩
    · intro first last hrange i
      show scoutLoss.lossAt i = _
      rw [hscouted, hfound, alignedRange?_eq_some_iff.2 hrange]
      rfl
    · intro hnone i
      show scoutLoss.lossAt i = _
      cases hrange : f.alignedRange? query.now with
      | none =>
          rw [hscouted, hfound, hrange]
          rfl
      | some range =>
          exact absurd ⟨range.1, range.2, alignedRange?_eq_some_iff.1 hrange⟩
            hnone
  · intro hmode
    have hhow := merging_of_batch hmode
    obtain ⟨_, rfl, hmerged⟩ :=
      merge_of_not_scouting (by rw [hhow]; decide) hmerge
    rw [hhow] at hmerged
    exact hmerged
  · intro hmode
    have hhow := merging_of_plain hmode
    obtain ⟨_, rfl, hmerged⟩ :=
      merge_of_not_scouting (by rw [hhow]; decide) hmerge
    rw [hhow] at hmerged
    exact hmerged
  · intro hmode
    have hhow : f.mode.merging ≠ .scouted := by
      revert hmode
      cases f.mode <;> decide
    obtain ⟨_, rfl, -⟩ := merge_of_not_scouting hhow hmerge
    exact ⟨rfl, rfl⟩
  · obtain ⟨_, _, _, rfl, -⟩ := merge_eq_ok hmerge
    exact ⟨rfl, rfl⟩

/-- A client under way, asked for a batch that does not fit: the front saw
outcomes at both ends of the range, and none of the fastest candidate. -/
theorem scouted_and_merged_moving :
    let rates : RateSet := ⟨#[10, 20, 55], by decide, by decide⟩
    let sent (n : Int) (rate : Rate) (status : Status) : Outcome :=
      ⟨⟨n * 1000000⟩, 0, rate, 1000, status⟩
    let requests : List Request :=
      [ .setSpeed 11.0
      , .feedBatch .front [sent 874 20 .acked, sent 875 10 .acked
        , sent 900 10 .naked, sent 924 20 .naked, sent 925 20 .acked]
      , .feedBatch .back [sent 990 10 .naked, sent 995 20 .acked] ]
    let query : Query := ⟨⟨1000000000⟩, .data, 0, 1000, 0⟩
    ∃ (f₀ f f' : Flow rates) (replies : List Reply)
      (result : Except Error Decision),
      start rates {} default = .ok f₀ ∧ f₀.run requests = .ok (f, replies)
        ∧ InOrder f.front.records ∧ query.occasion.isTimeout = false
        ∧ f.decide query = .ok (f', result) ∧ result.toOption = none
        ∧ f.mode ∈ scoutModes ∧ f.LooksUp query.now ⟨875000000⟩ ⟨925000000⟩
        ∧ (∀ i, f'.scoutLoss.lossAt i = lossOver rates
          (f.front.within ⟨875000000⟩ ⟨925000000⟩) (rates.get i))
        ∧ (∀ i, f'.combinedLoss.lossAt i
          = mergeLosses (maxNum (f'.scoutLoss.lossAt i) (f.frontLoss.lossAt i))
            (f.backLoss.lossAt i))
        ∧ rates.indices.map f'.scoutLoss.lossAt = [0.5, 1.0, unknownLoss]
        ∧ f'.frontLoss = f.frontLoss ∧ f'.backLoss = f.backLoss := by
  intro rates sent requests query
  obtain ⟨f₀, f, replies, ⟨f', result⟩, hstart, hrun, hdecide, hordered, hfails,
      hmode, hrange, hlosses⟩ :=
    exists_step rates {} default requests (·.decide query)
      (fun f p => InOrder f.front.records ∧ p.2.toOption = none
        ∧ f.mode ∈ scoutModes
        ∧ f.alignedRange? query.now = some (⟨875000000⟩, ⟨925000000⟩)
        ∧ rates.indices.map p.1.scoutLoss.lossAt = [0.5, 1.0, unknownLoss])
      (by decide +kernel)
  have hlooks := alignedRange?_eq_some_iff.1 hrange
  obtain ⟨hscouting, -, -, -, hfront, hback⟩ :=
    scouted_and_merged hordered rfl hdecide
  obtain ⟨hfound, -, hmerged⟩ := hscouting hmode
  exact ⟨f₀, f, f', replies, result, hstart, hrun, hordered, rfl, hdecide,
    hfails, hmode, hlooks, hfound _ _ hlooks, hmerged, hlosses, hfront, hback⟩

end Flow

end LinkAdaptation
