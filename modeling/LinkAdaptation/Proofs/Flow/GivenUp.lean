/-
What follows when every candidate is given up. Both vantage points then
report a loss of one everywhere, and keep to it until the estimates of one
of them are computed anew or written: outcomes that come in one at a time,
settings, modes and decisions of any kind leave the reports alone.

The next decision that goes by the goodput merges these reports. A scouting
mode looks up the front window first, but no estimate exceeds a loss of one,
so the larger of what it found and what the front reports is still one. No
candidate promises anything then, feasible or not, and the first of them is
taken, on which batches are sent twice. The redundancy is more than a whole
batch: what it leaves to the data is less than nothing, and one packet is
what every batch holds.

This is sized even where a limit that is read as a negative number breaks
the size of other batches. The share it is spread over is negative as well.
-/
import LinkAdaptation.Proofs.Flow.Choice
import LinkAdaptation.Proofs.Flow.Lookup
import LinkAdaptation.Proofs.Flow.Sized

namespace LinkAdaptation

-- ========================================================== redundancy

namespace Sizer

variable {s : Sizer} {room : Nat} {coherenceUs packetUs : UInt32}

theorem isEstimate_one : isEstimate 1.0 = true := by decide +kernel

theorem representable_step : Representable (-(1 / 32)) :=
  ⟨-1, -5, by decide, by decide, by norm_num⟩

/-- Where everything is lost, less than nothing is left to the data. -/
theorem value?_kept_lost :
    ∃ c, value? (1.0 - redundancy 1.0 dataStart) = some c
      ∧ -1 ≤ c ∧ c ≤ -(1 / 32) := by
  obtain ⟨c, hc, low, -⟩ := value?_kept isEstimate_one
  have hbound : value? (-0.03125) = some (-(1 / 32)) := by decide +kernel
  exact ⟨c, hc, low, (le_iff_of_value? hc hbound).1 (by decide +kernel)⟩

theorem free_lost (hroom : room ≠ 0) (hlt : room < 4294967296) :
    floorInt (room.toFloat * (1.0 - redundancy 1.0 dataStart)) < 0 := by
  obtain ⟨c, hc, low, high⟩ := value?_kept_lost
  have hone : (1 : Rat) ≤ room := by
    exact_mod_cast Nat.pos_of_ne_zero hroom
  have hnearest : nearest (room * c) ≤ -(1 / 32) :=
    nearest_le representable_step (by nlinarith)
  have hlimit : signedLimit = 9223372036854775808 := rfl
  refine (floorInt_lt_iff (value?_free hlt hc low (by linarith)) (by omega)
    (by omega)).2 ?_
  push_cast
  linarith

/-- A negative limit, spread over a share that is negative as well, takes
some packet. -/
theorem ceilSize_lost {limit : Nat} (hlimit : limit ≠ 0)
    (hword : limit ≤ 9223372036854775808) :
    1 ≤ ceilSize (Float.ofInt (-limit)
      / (1.0 - redundancy 1.0 dataStart)) := by
  obtain ⟨c, hc, low, high⟩ := value?_kept_lost
  have hone : 1 ≤ nearest limit :=
    le_nearest representable_one
      (by exact_mod_cast Nat.pos_of_ne_zero hlimit)
  have hbound : nearest limit ≤ 2 ^ 63 :=
    nearest_le ⟨1, 63, by decide, by decide, by norm_num⟩
      (by exact_mod_cast hword)
  have hneg : c < 0 := by linarith
  have hquot : 1 ≤ -nearest limit / c := by
    rw [le_div_iff_of_neg hneg]
    linarith
  have hsmall : -nearest limit / c ≤ 2 ^ 100 := by
    rw [div_le_iff_of_neg hneg]
    linarith
  have hvalue := value?_div (value?_ofInt_neg hlimit (by omega)) hc hneg.ne
    (abs_nearest_lt (by rw [abs_of_nonneg (by linarith)]; exact hsmall))
  exact le_ceilSize hvalue (by decide)
    (le_nearest (by exact_mod_cast representable_one) (by exact_mod_cast hquot))

/-- A draft of no data packet, in at least one packet. -/
theorem draft_lost (s : Sizer) (hroom : room ≠ 0) (hlt : room < 4294967296) :
    (s.draft 1.0 room).1 < 0 ∧ 1 ≤ (s.draft 1.0 room).2 := by
  have hfree := free_lost hroom hlt
  unfold draft
  dsimp only
  split
  · next hcut =>
      have hneg : signedWord s.maxK < 0 := hcut.trans hfree
      have hword : -9223372036854775808 ≤ signedWord s.maxK := by
        have hsize : UInt64.size = 18446744073709551616 := rfl
        unfold signedWord
        rw [Int.bmod_def, hsize]
        omega
      obtain ⟨limit, hlimit⟩ := Int.eq_ofNat_of_zero_le
        (a := -signedWord s.maxK) (by omega)
      have hspelled : signedWord s.maxK = -(limit : Int) := by omega
      rw [hspelled] at hneg ⊢
      exact ⟨hneg, ceilSize_lost (by omega) (by omega)⟩
  · exact ⟨hfree, Nat.pos_of_ne_zero hroom⟩

/-- Where everything is lost, fresh data goes out one packet at a time. -/
theorem data_lost (hs : s.Roomy) (coding : s.useCoding = true)
    (hroom : fit coherenceUs packetUs ≠ 0) :
    ∃ n, s.data 1.0 coherenceUs packetUs = .ok ⟨1, n⟩ := by
  obtain ⟨hk, hkf⟩ := hs
  obtain ⟨hnone, hsome⟩ :=
    s.draft_lost hroom (fit_lt coherenceUs packetUs)
  have htight := tighten_le 1.0
    (min (s.draft 1.0 (fit coherenceUs packetUs)).2 s.fieldSize)
    (s.draft 1.0 (fit coherenceUs packetUs)).1
  have hone : (s.coded 1.0 (fit coherenceUs packetUs)).k = 1 := by
    unfold coded
    dsimp only
    omega
  have hn : 1 ≤ (s.coded 1.0 (fit coherenceUs packetUs)).n
      ∧ (s.coded 1.0 (fit coherenceUs packetUs)).n ≤ s.fieldSize := by
    unfold coded
    dsimp only
    omega
  refine ⟨(s.coded 1.0 (fit coherenceUs packetUs)).n, ?_⟩
  rw [data_coded coding hroom]
  dsimp only
  rw [holding_of]
  · rw [← hone]
  · simp [hone, hk, hn.1, hn.2]

end Sizer

-- ============================================================= reports

/-- No estimate is above a loss of one. -/
theorem maxNum_one {x : Float} (h : isEstimate x = true) :
    maxNum x 1.0 = 1.0 := by
  rcases isEstimate_iff.1 h with rfl | hunit
  · decide
  · obtain ⟨q, hx, -, high⟩ := inUnit_iff.1 hunit
    have hmax := value?_maxNum hx value?_one
    rw [max_eq_right high] at hmax
    exact eq_of_value? hmax value?_one one_ne_zero

theorem mergeLosses_one : mergeLosses 1.0 1.0 = 1.0 := by decide +kernel

theorem LossMap.lossAt_giveUp {rates : RateSet} (m : LossMap rates)
    (i : rates.Index) : m.giveUp.lossAt i = 1.0 := by
  unfold lossAt giveUp
  rw [Table.get_map]

namespace Flow

variable {rates : RateSet} {config : Config} {entropy : Random.Key}
  {f₀ f f₁ f' : Flow rates}
  {query : Query}

/-- Both vantage points report every candidate as lost. -/
structure AllLost (f : Flow rates) : Prop where
  front : ∀ i, f.frontLoss.lossAt i = 1.0
  back : ∀ i, f.backLoss.lossAt i = 1.0

/-- Whether a request leaves the two reports alone, or gives all up. -/
def Request.leavesReports : Request → Bool
  | .feedBatch .. | .refreshLoss .. | .lossMap .. => false
  | _ => true

theorem allLost_giveUp (f : Flow rates) : f.giveUp.AllLost :=
  ⟨f.frontLoss.lossAt_giveUp, f.backLoss.lossAt_giveUp⟩

/-- A decision does not report. -/
theorem prepare_reports (h : f.prepare query = .ok f') :
    f'.frontLoss = f.frontLoss ∧ f'.backLoss = f.backLoss := by
  unfold prepare at h
  split at h
  · cases h
    exact ⟨rfl, rfl⟩
  · obtain ⟨f₁, hmerge, hchoose⟩ := bind_eq_ok.1 h
    obtain ⟨_, _, _, rfl, -⟩ := merge_eq_ok hmerge
    obtain ⟨_, _, rfl⟩ := choose_eq_ok hchoose
    exact ⟨rfl, rfl⟩

namespace AllLost

theorem same (h : f.AllLost) (hfront : f'.frontLoss = f.frontLoss)
    (hback : f'.backLoss = f.backLoss) : f'.AllLost :=
  ⟨by rw [hfront]; exact h.front, by rw [hback]; exact h.back⟩

theorem setWindow (h : f.AllLost) (vantage : Vantage) (w : Window rates) :
    (f.setWindow vantage w).AllLost := by
  cases vantage <;> exact h.same rfl rfl

theorem feed (h : f.AllLost) {vantage : Vantage} {o : Outcome}
    (hfeed : f.feed vantage o = .ok f') : f'.AllLost := by
  unfold Flow.feed at hfeed
  split at hfeed
  · cases hfeed
  · obtain ⟨_, rfl⟩ := teachFrom_eq_ok (mapError_eq_ok.1 hfeed)
    exact (h.setWindow vantage _).same rfl rfl

theorem decide (h : f.AllLost) {result : Except Error Decision}
    (hdecide : f.decide query = .ok (f', result)) : f'.AllLost := by
  obtain ⟨f₁, hprepare, hresult⟩ := decide_eq_ok hdecide
  obtain ⟨hfront, hback⟩ := prepare_reports hprepare
  rcases hresult with ⟨_, -, rfl, -⟩ | ⟨_, _, -, -, hassemble⟩
  · exact h.same hfront hback
  · obtain ⟨_, _, _, rfl⟩ := assemble_changes hassemble
    exact h.same hfront hback

theorem setMode (h : f.AllLost) (mode : Mode) (now : Instant)
    (entropy : Random.Key) : (f.setMode mode now entropy).AllLost := by
  unfold Flow.setMode
  dsimp only
  split
  · exact h.same rfl rfl
  · split <;> exact h.same rfl rfl

theorem attempt (h : f.AllLost) {result : Except Error (Flow rates)}
    {reply : Reply} (hattempt : f.attempt result = .ok (f', reply))
    (hresult : ∀ after, result = .ok after →
      after.frontLoss = f.frontLoss ∧ after.backLoss = f.backLoss) :
    f'.AllLost := by
  rcases attempt_eq_ok hattempt with ⟨-, hdone⟩ | ⟨_, -, rfl⟩
  · obtain ⟨hfront, hback⟩ := hresult f' hdone
    exact h.same hfront hback
  · exact h

/-- Once everything was reported as lost, it stays so until the estimates
of a vantage point are computed anew or written. -/
theorem handle (h : f.AllLost) {request : Request} {reply : Reply}
    (hleaves : request.leavesReports = true)
    (hhandle : f.handle request = .ok (f', reply)) : f'.AllLost := by
  cases request with
  | feed vantage o =>
      rcases attemptChecked_eq_ok hhandle with ⟨-, hfeed⟩ | ⟨_, -, rfl⟩
      · exact h.feed hfeed
      · exact h
  | feedBatch vantage outcomes => cases hleaves
  | refreshLoss vantage start stop => cases hleaves
  | giveUp =>
      cases hhandle
      exact allLost_giveUp f
  | decide query =>
      obtain ⟨⟨after, result⟩, hdecide, hhandle⟩ := bind_eq_ok.1 hhandle
      have hafter := h.decide hdecide
      cases result with
      | ok d =>
          cases hhandle
          exact hafter
      | error error =>
          cases hhandle
          exact hafter
  | setMode mode now entropy =>
      cases hhandle
      exact h.setMode mode now entropy
  | setUseCoding on =>
      cases hhandle
      exact h.same rfl rfl
  | setMayDuplicate on =>
      cases hhandle
      exact h.same rfl rfl
  | setSpeed speed =>
      cases hhandle
      exact h.same rfl rfl
  | setDuplicateThreshold threshold =>
      refine h.attempt hhandle fun after hafter => ?_
      unfold setDuplicateThreshold at hafter
      split at hafter <;> cases hafter
      exact ⟨rfl, rfl⟩
  | setLossBound bound =>
      refine h.attempt hhandle fun after hafter => ?_
      unfold setLossBound at hafter
      split at hafter <;> cases hafter
      exact ⟨rfl, rfl⟩
  | setRate rate =>
      refine h.attempt hhandle fun after hafter => ?_
      unfold setRate at hafter
      split at hafter <;> cases hafter
      exact ⟨rfl, rfl⟩
  | window vantage request =>
      cases hhandle
      exact h.setWindow vantage _
  | lossMap view request => cases hleaves

theorem run (h : f.AllLost) {requests : List Request} {replies : List Reply}
    (hleaves : ∀ request ∈ requests, request.leavesReports = true)
    (hrun : f.run requests = .ok (f', replies)) : f'.AllLost := by
  induction requests generalizing f replies with
  | nil =>
      cases hrun
      exact h
  | cons request rest ih =>
      obtain ⟨f₁, reply, later, hhandle, hrest, -⟩ := run_cons_eq_ok.1 hrun
      obtain ⟨hfirst, hothers⟩ := List.forall_mem_cons.1 hleaves
      exact ih (h.handle hfirst hhandle) hothers hrest

-- ============================================================= merging

/-- Whatever is looked up, the merged losses are losses of one. -/
theorem merge (h : f.AllLost) (hmode : f.mode.isGoodput = true)
    {now : Instant} (hmerge : f.merge now = .ok f') (i : rates.Index) :
    f'.combinedLoss.lossAt i = 1.0 := by
  have hmodes : f.mode ∈ scoutModes ∨ f.mode ∈ batchModes := by
    revert hmode
    cases f.mode <;> simp [Mode.isGoodput, Mode.baseline?, scoutModes, batchModes]
  rcases hmodes with hscouting | hbatch
  · obtain ⟨losses, _, _, _, rfl, hlosses, hscouted, hmerged⟩ :=
      merge_of_scouting hscouting hmerge
    have hestimate := (f.scoutedLosses_upholds now).of_eq_ok hlosses i
    rw [hmerged, hscouted, h.front, h.back, maxNum_one hestimate,
      mergeLosses_one]
  · have hhow := merging_of_batch hbatch
    obtain ⟨_, rfl, hmerged⟩ :=
      merge_of_not_scouting (by simp [hhow]) hmerge
    rw [hmerged, hhow]
    show mergeLosses (f.frontLoss.lossAt i) (f.backLoss.lossAt i) = 1.0
    rw [h.front, h.back, mergeLosses_one]

-- ============================================================ choosing

/-- With nothing to be gained anywhere, the slowest candidate is taken,
feasible or not. -/
theorem prepare (h : f.AllLost) (hmeaning : f.Meaningful)
    (hmode : f.mode.isGoodput = true)
    (hoccasion : query.occasion.isTimeout = false)
    (hprepare : f.prepare query = .ok f') :
    (∀ i, f'.combinedLoss.lossAt i = 1.0) ∧ f'.current = rates.bottom := by
  unfold Flow.prepare at hprepare
  rw [hoccasion] at hprepare
  obtain ⟨f₁, hmerge, hchoose⟩ := bind_eq_ok.1 hprepare
  obtain ⟨hsame, hmeaning₁⟩ :=
    (merge_upholds hmeaning query.now).of_eq_ok hmerge
  have hlost := h.merge hmode hmerge
  obtain rfl := choose_goodput (by rw [hsame.mode]; exact hmode) hchoose
  refine ⟨hlost, ?_⟩
  choose value hvalue hnonneg hpos using
    value?_goodput (hmeaning₁ .combined) f₁.bound?
  have hnothing (i : rates.Index) : value i = 0 := by
    refine le_antisymm (not_lt.1 fun hi => ?_) (hnonneg i)
    obtain ⟨-, -, hpromises⟩ := (hpos i).1 hi
    have hknown : isKnown 1.0 = true := by decide
    rw [hlost i, if_pos hknown] at hpromises
    exact absurd hpromises (by decide)
  have hleads := bestCandidate_leads hvalue
  -- any other candidate would have to promise more than the slowest
  by_contra hother
  have hbelow : rates.bottom < f₁.bestCandidate f₁.bound? := by
    rw [Fin.lt_def]
    exact Nat.pos_of_ne_zero fun hzero => hother (Fin.ext hzero)
  have hless := hleads.first _ (List.mem_finRange _) hbelow
  rw [hnothing, hnothing] at hless
  exact lt_irrefl 0 hless

end AllLost

-- ============================================================== sizing

/-- At a loss of one, a batch is sized or refused, and fresh data that is
coded is sized as one packet. -/
theorem size_lost (hc : f.config.Accepted)
    (hlost : f.combinedLoss.lossAt f.current = 1.0)
    (hoccasion : query.occasion.isTimeout = false) :
    (∃ size, f.size query = .ok size
        ∧ (query.occasion = .data → f.useCoding = true → size.k = 1))
      ∨ ∃ error, f.size query = .error (.refused error) := by
  have hs := sizer_roomy hc
  unfold size
  dsimp only
  rw [hlost]
  cases hasked : query.occasion with
  | data =>
      by_cases hroom : Sizer.fit query.coherenceUs
          (packetTime f.rate query.packetSize query.overheadUs) = 0
      · exact .inr ⟨_, Sizer.data_refused hroom ..⟩
      · by_cases coding : f.useCoding = true
        · obtain ⟨n, hsize⟩ := Sizer.data_lost hs coding hroom
          exact .inl ⟨_, hsize, fun _ _ => rfl⟩
        · obtain ⟨size, hsize⟩ := Sizer.data_ok hs
            (fun hcoding => absurd hcoding coding) Sizer.isEstimate_one hroom
          exact .inl ⟨size, hsize, fun _ hcoding => absurd hcoding coding⟩
  | timeout k => simp [hasked, Occasion.isTimeout] at hoccasion
  | retransmission k =>
      by_cases hlimits : k = 0 ∨ min (Sizer.fit query.coherenceUs
          (packetTime f.rate query.packetSize query.overheadUs))
            f.sizer.fieldSize < k ∨ f.sizer.maxK < k
      · exact .inr ⟨_, Sizer.retransmission_refused hlimits _⟩
      · have hsized : ∃ size, f.sizer.retransmission 1.0 k query.coherenceUs
            (packetTime f.rate query.packetSize query.overheadUs) = .ok size :=
          Sizer.retransmission_ok Sizer.isEstimate_one (by omega) (by omega)
            (by omega)
        obtain ⟨size, hsize⟩ := hsized
        exact .inl ⟨size, hsize, nofun⟩

-- =========================================================== decisions

/-- On the slowest candidate, every batch that may be sent twice is. -/
theorem duplicates_bottom (hcurrent : f.current = rates.bottom)
    (occasion : Occasion) : f.duplicates occasion = f.mayDuplicate := by
  have hslowest : f.isBootstrapping = true := by
    unfold isBootstrapping
    rw [hcurrent]
    rfl
  unfold duplicates
  rw [hslowest, Bool.or_true, Bool.and_true]

/-- What a decision comes to where everything is lost. -/
structure FallsBack (f : Flow rates) (query : Query) (after : Flow rates)
    (result : Except Error Decision) : Prop where
  losses : ∀ i, after.combinedLoss.lossAt i = 1.0
  current : after.current = rates.bottom
  duplicate : ∀ d, result = .ok d → f.mayDuplicate = true →
    d.duplicate = true
  single : ∀ d, result = .ok d → query.occasion = .data →
    f.useCoding = true → d.k = 1

theorem AllLost.fallsBack (h : f.AllLost) (hmeaning : f.Meaningful)
    (hc : f.config.Accepted) (hmode : f.mode.isGoodput = true)
    (hoccasion : query.occasion.isTimeout = false)
    (hprepare : f.prepare query = .ok f₁) :
    ∃ after result, f.decide query = .ok (after, result)
      ∧ f.FallsBack query after result := by
  obtain ⟨hlost, hcurrent⟩ := h.prepare hmeaning hmode hoccasion hprepare
  have hsame := ((prepare_upholds hmeaning query).of_eq_ok hprepare).1
  have hc₁ : f₁.config.Accepted := by
    rw [hsame.config]
    exact hc
  rcases size_lost hc₁ (hlost f₁.current) hoccasion with
    ⟨size, hsize, hsingle⟩ | ⟨error, hrefused⟩
  · have hunled : f₁.mode.baseline? = none := by
      rw [hsame.mode]
      exact (isGoodput_iff.1 hmode).2
    obtain ⟨⟨after, d⟩, hassemble⟩ := assemble_succeeds hc₁ hunled query size
    obtain ⟨_, _, -, -, hk, -, hduplicate⟩ := assemble_eq_ok hassemble
    obtain ⟨_, _, _, hafter⟩ := assemble_changes hassemble
    refine ⟨after, .ok d, bind_eq_ok.2 ⟨f₁, hprepare, ?_⟩, ?_, ?_, ?_, ?_⟩
    · rw [hsize]
      exact bind_eq_ok.2 ⟨_, hassemble, rfl⟩
    · rw [hafter]
      exact hlost
    · rw [hafter]
      exact hcurrent
    · intro d' hd' hmay
      cases hd'
      rw [hduplicate, duplicates_bottom hcurrent, hsame.mayDuplicate, hmay]
    · intro d' hd' hdata hcoding
      cases hd'
      rw [hk]
      exact hsingle hdata (hsame.useCoding.trans hcoding)
  · refine ⟨f₁, .error error, bind_eq_ok.2 ⟨f₁, hprepare, ?_⟩, hlost, hcurrent,
      nofun, nofun⟩
    rw [hrefused]
    rfl

/-- Whatever a flow was asked before everything was given up, and whatever
it is asked then that does not compute or write the estimates of a vantage
point, the next decision that goes by the goodput and is not a flush takes
every loss for one and the slowest candidate for the best. A batch that may
be sent twice is, and one of fresh data that is coded holds one packet. Only
a window of more outcomes than can be counted stops such a decision. -/
theorem given_up_falls_back {requests between : List Request}
    {replies : List Reply}
    (hstart : start rates config entropy = .ok f₀)
    (hrun : f₀.run (requests ++ .giveUp :: between) = .ok (f, replies))
    (hleaves : ∀ request ∈ between, request.leavesReports = true)
    (hmode : f.mode.isGoodput = true)
    (hoccasion : query.occasion.isTimeout = false) :
    (∃ after result, f.decide query = .ok (after, result)
        ∧ f.FallsBack query after result)
      ∨ (f.decide query = .error .counterOverflow ∧ ¬ f.HasRoom) := by
  have hc := accepted_of_start hstart
  obtain ⟨rfl, hmeaning⟩ := ((sound_start hstart).run hc _).of_eq_ok hrun
  obtain ⟨f₁, _, _, -, hrest⟩ := run_of_append hrun
  obtain ⟨f₂, _, _, hgiven, hbetween, -⟩ := run_cons_eq_ok.1 hrest
  cases hgiven
  have hlost := (allLost_giveUp f₁).run hleaves hbetween
  cases hprepare : f.prepare query with
  | ok f₃ =>
      exact .inl (hlost.fallsBack hmeaning hc hmode hoccasion hprepare)
  | error fault =>
      have hfault : fault = .counterOverflow :=
        (prepare_upholds hmeaning query).of_eq_error hprepare
      refine .inr ⟨?_, fun hroom => ?_⟩
      · unfold Flow.decide
        rw [hprepare, hfault]
        rfl
      · have hunled := (isGoodput_iff.1 hmode).2
        obtain ⟨_, hprepared⟩ := prepare_succeeds hroom hmeaning hunled query
        cases hprepare.symm.trans hprepared

/-- A moving client whose antennas both see packets get through at the
fastest candidate, before everything is given up and after. -/
theorem given_up_falls_back_moving :
    let rates : RateSet := ⟨#[10, 20, 55], by decide, by decide⟩
    let sent (n : Int) (status : Status) : Outcome :=
      ⟨⟨n * 1000000⟩, 0, 55, 1000, status⟩
    let requests : List Request :=
      [ .setSpeed 11.0, .feedBatch .front [sent 880 .acked, sent 890 .naked]
      , .feedBatch .back [sent 980 .acked], .setRate 55 ]
    let between : List Request :=
      [ .feed .back (sent 990 .acked), .setMode .boundedSequential ⟨0⟩ default
      , .decide ⟨⟨995000000⟩, .timeout 2, 10000, 1000, 0⟩, .setLossBound 0.5 ]
    let query : Query := ⟨⟨1000000000⟩, .data, 40000, 1000, 0⟩
    ∃ (f₀ f after : Flow rates) (replies : List Reply) (d : Decision),
      start rates {} default = .ok f₀
        ∧ f₀.run (requests ++ .giveUp :: between) = .ok (f, replies)
        ∧ (∀ request ∈ between, request.leavesReports = true)
        ∧ f.mode.isGoodput = true ∧ query.occasion.isTimeout = false
        ∧ f.rate = 55 ∧ f.decide query = .ok (after, .ok d)
        ∧ f.FallsBack query after (.ok d)
        ∧ after.rate = 10 ∧ d.duplicate = true ∧ d.k = 1 := by
  intro rates sent requests between query
  obtain ⟨f₀, f, replies, ⟨after, result⟩, hstart, hrun, hdecide, hmode, hrate,
      hmay, hcoding, hbatch⟩ :=
    exists_step rates {} default (requests ++ .giveUp :: between)
      (·.decide query)
      (fun f p => f.mode.isGoodput = true ∧ f.rate = 55
        ∧ f.mayDuplicate = true ∧ f.useCoding = true
        ∧ p.2.toOption.isSome = true)
      (by decide +kernel)
  have hleaves : ∀ request ∈ between, request.leavesReports = true := by
    simp [between, Request.leavesReports]
  have hoccasion : query.occasion.isTimeout = false := rfl
  rcases given_up_falls_back hstart hrun hleaves hmode hoccasion with
    ⟨after', result', hdecide', hfalls⟩ | ⟨hstopped, -⟩
  · cases hdecide.symm.trans hdecide'
    obtain ⟨d, hd⟩ := Option.isSome_iff_exists.1 hbatch
    obtain rfl := toOption_eq_some_iff.1 hd
    have hafter : after.rate = 10 := by
      unfold rate
      rw [hfalls.current]
      rfl
    exact ⟨f₀, f, after, replies, d, hstart, hrun, hleaves, hmode, hoccasion, hrate,
      hdecide, hfalls, hafter, hfalls.duplicate d rfl hmay,
      hfalls.single d rfl rfl hcoding⟩
  · cases hdecide.symm.trans hstopped

end Flow

end LinkAdaptation
