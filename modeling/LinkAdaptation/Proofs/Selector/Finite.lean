/-
Which figures of selection by average airtime are numbers. Rates are
positive where they mean anything, and at a positive rate every airtime is
a number, a sum of them stays one however long outcomes are counted and
uncounted, and so do the averages that decisions compute from it. A rate of
zero is in order for a rate set all the same. A packet at such a rate takes
no number of microseconds, and uncounting it does not undo that: what is
taken away is no number either. Then the sum is lost until the next reset,
and with the first decision that finds bytes the best case is lost as well.
-/
import LinkAdaptation.Proofs.Selector.Residue

namespace LinkAdaptation

open LinkAdaptation.Random (Generator)
open Selector (Request liveAfter forgetsLive decidesOn sinceReset
  liveAfter_concat decidesOn_concat decidesOn_concat_of_not_select
  forgetsLive_sinceReset mem_live_of_forgets)

variable {rate : Rate} {o : Outcome} {live : List Outcome}
  {request : Request} {requests : List Request}

-- ============================================================ airtimes

/-- Sums of airtimes do not get further from zero than this. -/
def airtimeLimit : Rat := 2 ^ 77

theorem airtimeLimit_nonneg : 0 ≤ airtimeLimit := by
  unfold airtimeLimit
  positivity

theorem airtimeLimit_add_le : airtimeLimit + 2 ^ 24 ≤ 2 ^ 100 := by
  unfold airtimeLimit
  norm_num

/-- At the limit a double has no room for another airtime: the next one is
more than twice as far away as the airtime is long. -/
theorem nearest_limit : nearest (airtimeLimit + 2 ^ 24) = airtimeLimit := by
  decide +kernel

/-- So one airtime more or less does not lead past it. -/
theorem nearest_within {q : Rat} (h : |q| ≤ airtimeLimit + 2 ^ 24) :
    |nearest q| ≤ airtimeLimit := by
  obtain ⟨low, high⟩ := abs_le.1 h
  have hlow := nearest_mono low
  have hhigh := nearest_mono high
  rw [nearest_neg, nearest_limit] at hlow
  rw [nearest_limit] at hhigh
  exact abs_le.2 ⟨hlow, hhigh⟩

/-- A packet at the rate zero takes no number of microseconds, not even an
empty one. -/
theorem value?_airtime_zero (length : UInt16) :
    value? (airtime 0 length) = none :=
  value?_add_none (.inl (value?_div_zero _))

-- ============================================================ requests

/-- Whether an outcome at a rate was counted, live or not. -/
def hears (rate : Rate) (requests : List Request) : Bool :=
  (recordedIn requests).any (atRate rate)

theorem hears_concat :
    hears rate (requests ++ [request])
      = (hears rate requests || hears rate [request]) := by
  unfold hears
  rw [recordedIn_concat, List.any_append]

theorem hears_of_not_isAbout (habout : request.isAbout rate = false) :
    hears rate [request] = false := by
  rw [← Bool.not_eq_true]
  intro h
  obtain ⟨o, hmem, ho⟩ := List.any_eq_true.1 h
  obtain ⟨request', hrequest, htrue⟩ := isAbout_of_mem_recordedIn hmem ho
  rw [List.mem_singleton.1 hrequest, habout] at htrue
  cases htrue

/-- What is live was counted. -/
theorem mem_recordedIn_of_live (h : o ∈ liveAfter requests) :
    o ∈ recordedIn requests := by
  induction requests using List.reverseRecOn with
  | nil => cases h
  | append_singleton requests request ih =>
      rw [liveAfter_concat] at h
      rw [recordedIn_concat, List.mem_append]
      cases request with
      | record a =>
          unfold Request.note at h
          dsimp only at h
          split at h
          · next ha =>
              refine (List.mem_append.1 h).imp ih fun h => ?_
              simpa [recordedIn, ha] using h
          · exact .inl (ih h)
      | forget a => exact .inl (ih (List.mem_of_mem_erase h))
      | select now => exact .inl (ih h)
      | reset => cases h

theorem hears_of_live (ho : atRate rate o = true)
    (h : o ∈ liveAfter requests) : hears rate requests = true :=
  List.any_eq_true.2 ⟨o, mem_recordedIn_of_live h, ho⟩

/-- A decision finds no bytes at a rate that nothing was counted at. -/
theorem hears_of_decidesOn (h : decidesOn rate [] requests = true) :
    hears rate requests = true := by
  induction requests using List.reverseRecOn with
  | nil => cases h
  | append_singleton requests request ih =>
      rw [decidesOn_concat, Bool.or_eq_true_iff, Bool.and_eq_true_iff] at h
      rw [hears_concat, Bool.or_eq_true_iff]
      rcases h with h | ⟨-, hbytes⟩
      · exact .inl (ih h)
      · obtain ⟨o, hmem, ho⟩ :=
          SampleRate.Entry.exists_mem_of_bytesOf_pos (of_decide_eq_true hbytes)
        exact .inl (hears_of_live ho hmem)

namespace SampleRate.Entry

variable {e e' : Entry}

-- ============================================================= numbers

/-- The figures of an entry are numbers. -/
structure IsFinite (e : Entry) : Prop where
  totalAirtime : (value? e.totalAirtime).isSome
  average : (value? e.average).isSome
  bestCase : (value? e.bestCase).isSome

/-- They are, and the sum is within its limit. -/
structure Sound (e : Entry) : Prop where
  total : ∃ v, value? e.totalAirtime = some v ∧ |v| ≤ airtimeLimit
  average : (value? e.average).isSome
  bestCase : (value? e.bestCase).isSome

theorem Sound.isFinite (h : e.Sound) : e.IsFinite := by
  obtain ⟨⟨v, hv, -⟩, haverage, hbest⟩ := h
  exact ⟨by rw [hv]; rfl, haverage, hbest⟩

theorem sound_empty : Sound {} :=
  ⟨⟨0, value?_zero, by rw [abs_zero]; exact airtimeLimit_nonneg⟩, rfl, rfl⟩

/-- One airtime more or less leaves the sum within its limit. -/
theorem total_step {x : Float} {q : Rat}
    (hx : |nearest q| < 2 ^ (1024 : Int) → value? x = some (nearest q))
    (h : |q| ≤ airtimeLimit + 2 ^ 24) :
    ∃ v, value? x = some v ∧ |v| ≤ airtimeLimit :=
  ⟨_, hx (abs_nearest_lt (h.trans airtimeLimit_add_le)), nearest_within h⟩

theorem Sound.count (h : e.Sound) (hrate : 0 < o.rate.toNat)
    (hcount : e.count o = .ok e') : e'.Sound := by
  obtain ⟨⟨v, hv, hle⟩, haverage, hbest⟩ := h
  obtain ⟨-, htotal, hsame, hsame'⟩ := rest_of_count hcount
  obtain ⟨a, ha, hlow, hhigh⟩ := value?_airtime hrate o.length
  refine ⟨?_, by rw [hsame]; exact haverage, by rw [hsame']; exact hbest⟩
  rw [htotal]
  refine total_step (value?_add hv ha) ((abs_add_le v a).trans ?_)
  rw [abs_of_nonneg (by linarith : 0 ≤ a)]
  linarith

theorem Sound.uncount (h : e.Sound) (hrate : 0 < o.rate.toNat) :
    (e.uncount o).Sound := by
  obtain ⟨⟨v, hv, hle⟩, haverage, hbest⟩ := h
  obtain ⟨-, htotal, hsame, hsame'⟩ := rest_uncount e o
  obtain ⟨a, ha, hlow, hhigh⟩ := value?_airtime hrate o.length
  refine ⟨?_, by rw [hsame]; exact haverage, by rw [hsame']; exact hbest⟩
  rw [htotal]
  refine total_step (value?_sub hv ha) ((abs_sub v a).trans ?_)
  rw [abs_of_nonneg (by linarith : 0 ≤ a)]
  linarith

/-- Settling leaves a number within the limit. -/
theorem settle_within {x : Float} {v : Rat} (hv : value? x = some v)
    (hle : |v| ≤ airtimeLimit) :
    ∃ v, value? (settle x) = some v ∧ |v| ≤ airtimeLimit := by
  unfold settle
  split
  · exact ⟨0, value?_zero, by rw [abs_zero]; exact airtimeLimit_nonneg⟩
  · exact ⟨v, hv, hle⟩

/-- A share of the sum for each of some bytes is a number. -/
theorem isSome_share {x : Float} {v : Rat} {n : Nat} (hv : value? x = some v)
    (hle : |v| ≤ airtimeLimit) (hn : n ≠ 0) (hlt : n < wholeLimit) :
    (value? (x / n.toFloat)).isSome := by
  have hone : (1 : Rat) ≤ n := by exact_mod_cast Nat.one_le_iff_ne_zero.2 hn
  have hlimit : airtimeLimit ≤ 2 ^ 100 :=
    (le_add_of_nonneg_right (by norm_num)).trans airtimeLimit_add_le
  have hshare : |v / n| ≤ 2 ^ 100 := by
    rw [abs_div, abs_of_nonneg (by linarith : (0 : Rat) ≤ n)]
    exact (div_le_self (abs_nonneg v) hone).trans (hle.trans hlimit)
  rw [value?_div hv (value?_whole hlt) (by linarith) (abs_nearest_lt hshare)]
  rfl

/-- A decision divides by bytes only where there are some. -/
theorem Sound.refresh (h : e.Sound) (haccounts : e.Accounts rate live) :
    e.refresh.Sound := by
  obtain ⟨⟨v, hv, hle⟩, haverage, hbest⟩ := h
  obtain ⟨w, hw, hwle⟩ := settle_within hv hle
  have hsent := Counted.bytesOf_lt haccounts.sent.count_lt
  have hacked := Counted.bytesOf_lt haccounts.acked.count_lt
  refine ⟨⟨w, hw, hwle⟩, ?_, ?_⟩
  · rw [average_refresh_eq, haccounts.acked.settle_eq,
      haccounts.acked.bytes_eq]
    split
    · rfl
    · next hsome =>
        have hne : bytesOf (atRateWith rate .acked) live ≠ 0 := by
          intro hzero
          rw [hzero] at hsome
          exact hsome (by decide +kernel)
        split
        · exact isSome_share hw hwle hne hacked
        · exact haverage
  · rw [bestCase_refresh_eq, haccounts.sent.settle_eq,
      haccounts.sent.bytes_eq]
    split
    · next hsome =>
        have hpos := (zero_lt_toFloat_iff hsent).1
          (of_decide_eq_true (Bool.and_eq_true_iff.1 hsome).2)
        exact isSome_share hw hwle hpos.ne' hsent
    · exact hbest

-- ============================================================= nothing

/-- The sum at a candidate is lost, and so is the best case if a decision
found bytes. -/
structure Spoiled (rate : Rate) (requests : List Request) (e : Entry) :
    Prop where
  total : value? e.totalAirtime = none
  bestCase : decidesOn rate [] requests = true → value? e.bestCase = none

theorem Spoiled.refresh (h : e.Spoiled rate requests)
    (haccounts : e.Accounts rate (liveAfter requests)) (now : Instant)
    (lossRun : Nat) :
    Spoiled rate (requests ++ [.select now]) { e with lossRun }.refresh := by
  obtain ⟨htotal, hbest⟩ := h
  have hsettled := settle_of_not_isNoise (not_isNoise_of_none htotal)
  constructor
  · show value? (settle e.totalAirtime) = none
    rw [hsettled, htotal]
  · rw [decidesOn_concat, Bool.or_eq_true_iff, Bool.and_eq_true_iff,
      decide_eq_true_iff]
    intro hdecided
    have hsent := Counted.bytesOf_lt haccounts.sent.count_lt
    rw [bestCase_refresh_eq]
    dsimp only
    rw [haccounts.sent.settle_eq, haccounts.sent.bytes_eq, hsettled,
      not_isNoise_of_none htotal]
    split
    · exact value?_div_none htotal (value?_whole hsent)
    · next hnone =>
        refine hbest (hdecided.resolve_right fun hbytes => hnone ?_)
        simpa using (zero_lt_toFloat_iff hsent).2 hbytes.2

/-- Where the sum was lost it stays so. -/
theorem Spoiled.step (h : e.Spoiled rate requests)
    (haccounts : e.Accounts rate (liveAfter requests))
    (hstep : Step rate request e e') :
    e'.Spoiled rate (requests ++ [request]) := by
  cases hstep with
  | refresh lossRun => exact h.refresh haccounts _ lossRun
  | count hat ho hcount =>
      obtain ⟨-, htotal, -, hsame⟩ := rest_of_count hcount
      refine ⟨by rw [htotal]; exact value?_add_none (.inl h.total), ?_⟩
      rw [decidesOn_concat_of_not_select rfl, hsame]
      exact h.bestCase
  | uncount hat ho =>
      obtain ⟨-, htotal, -, hsame⟩ := rest_uncount e _
      refine ⟨by rw [htotal]; exact value?_sub_none (.inl h.total), ?_⟩
      rw [decidesOn_concat_of_not_select rfl, hsame]
      exact h.bestCase
  | pass hselect hreset habout =>
      refine ⟨h.total, ?_⟩
      rw [decidesOn_concat_of_not_select hselect]
      exact h.bestCase

/-- The figures of a candidate are numbers, unless something was counted at
the rate zero. -/
structure Judged (rate : Rate) (requests : List Request) (e : Entry) :
    Prop where
  accounts : e.Accounts rate (liveAfter requests)
  sound : rate ≠ 0 ∨ hears rate requests = false → e.Sound
  spoiled : rate = 0 → hears rate requests = true → e.Spoiled rate requests

theorem judged_empty (rate : Rate) : Judged rate [] {} :=
  ⟨accounts_empty rate, fun _ => sound_empty, fun _ => nofun⟩

/-- Nothing but counting at the rate zero loses a figure. -/
theorem Judged.step_sound (h : e.Judged rate requests)
    (hstep : Step rate request e e')
    (hforgets : forgetsLive [] (requests ++ [request]) = true)
    (hfine : rate ≠ 0 ∨ hears rate (requests ++ [request]) = false) :
    e'.Sound := by
  rw [hears_concat, Bool.or_eq_false_iff] at hfine
  have hsound := h.sound (hfine.imp_right And.left)
  -- what is counted or uncounted here was counted at the rate
  have hpos : hears rate requests = true ∨ hears rate [request] = true →
      0 < rate.toNat := by
    intro hheard
    refine Nat.pos_of_ne_zero fun hzero => ?_
    rcases hfine with hne | ⟨hbefore, hlast⟩
    · exact hne (UInt16.toNat_inj.1 hzero)
    · simp [hbefore, hlast] at hheard
  cases hstep with
  | count hat ho hcount =>
      have hatRate : atRate rate _ = true := decide_eq_true hat
      refine hsound.count ?_ hcount
      rw [hat]
      exact hpos (.inr (by simp [hears, recordedIn, ho, hatRate]))
  | uncount hat ho =>
      have hatRate : atRate rate _ = true := decide_eq_true hat
      refine hsound.uncount ?_
      rw [hat]
      exact hpos (.inl (hears_of_live hatRate
        (mem_live_of_forgets ho hforgets)))
  | refresh lossRun =>
      obtain ⟨htotal, haverage, hbest⟩ := hsound
      obtain ⟨hsent, hacked, hnaked, htimedOut⟩ := h.accounts
      exact Sound.refresh (e := { e with lossRun })
        ⟨htotal, haverage, hbest⟩ ⟨hsent, hacked, hnaked, htimedOut⟩
  | pass hselect hreset habout => exact hsound

/-- And the first outcome that is counted there does. -/
theorem Judged.step_spoiled (h : e.Judged rate requests)
    (hstep : Step rate request e e') (hzero : rate = 0)
    (hheard : hears rate (requests ++ [request]) = true) :
    e'.Spoiled rate (requests ++ [request]) := by
  by_cases hbefore : hears rate requests = true
  · exact (h.spoiled hzero hbefore).step h.accounts hstep
  rw [hears_concat, Bool.or_eq_true_iff, or_iff_right hbefore] at hheard
  cases hstep with
  | uncount hat ho => cases hheard
  | refresh lossRun => cases hheard
  | pass hselect hreset habout =>
      rw [hears_of_not_isAbout habout] at hheard
      cases hheard
  | count hat ho hcount =>
      obtain ⟨-, htotal, -⟩ := rest_of_count hcount
      constructor
      · rw [htotal, hat, hzero]
        exact value?_add_none (.inr (value?_airtime_zero _))
      · rw [decidesOn_concat_of_not_select rfl]
        exact fun hdecided => absurd (hears_of_decidesOn hdecided) hbefore

theorem Judged.step (h : e.Judged rate requests)
    (hstep : Step rate request e e')
    (hforgets : forgetsLive [] (requests ++ [request]) = true) :
    e'.Judged rate (requests ++ [request]) :=
  ⟨h.accounts.step hstep hforgets, h.step_sound hstep hforgets,
    h.step_spoiled hstep⟩

end SampleRate.Entry

-- ============================================================= results

namespace SampleRate

variable {rates : RateSet} {s : SampleRate rates} {order : BootstrapOrder}
  {generator : Generator} {made : Instant}

/-- The figures of a candidate are numbers at the end of every run that
forgets live outcomes only, unless the candidate is the rate zero and some
outcome was counted there since the last reset. Then the sum of airtimes is
no number, whether or not anything is still live, and neither is the best
case if a decision found bytes. -/
theorem figures_finite_unless_zero (order : BootstrapOrder)
    (generator : Generator) (made : Instant) (i : rates.Index)
    (hforgets : forgetsLive [] requests = true)
    (hrun : (start rates order generator made).run requests = .ok s) :
    let e := s.table.get i
    let recent := sinceReset requests
    (rates.get i ≠ 0 ∨ hears (rates.get i) recent = false → e.IsFinite)
      ∧ (rates.get i = 0 → hears (rates.get i) recent = true →
        value? e.totalAirtime = none
          ∧ (decidesOn (rates.get i) [] recent = true →
            value? e.bestCase = none)) := by
  have hkept := entry_run_sinceReset
    (P := fun done e => forgetsLive [] done = true →
      e.Judged (rates.get i) done) i
    (fun _ => Entry.judged_empty _) hrun ?_
  · obtain ⟨-, hsound, hspoiled⟩ := hkept.2 (forgetsLive_sinceReset hforgets)
    refine ⟨fun hfine => (hsound hfine).isFinite, fun hzero hheard => ?_⟩
    obtain ⟨htotal, hbest⟩ := hspoiled hzero hheard
    exact ⟨htotal, hbest⟩
  · intro done request e e' h hstep hforgets
    exact (h (forgetsLive_of_concat hforgets)).step hstep hforgets

/-- What is counted at the rate zero is lost until a reset, and the rate
above it has its figures all the while. -/
theorem figures_finite_unless_zero_reset :
    let rates : RateSet := ⟨#[0, 10], by decide, by decide⟩
    let fresh := start rates .lowestFirst (.ofSeed 0) ⟨0⟩
    let sent (rate : Rate) : Outcome := ⟨⟨0⟩, 0, rate, 1000, .acked⟩
    let requests : List Request :=
      [ .record (sent 0), .record (sent 10), .select ⟨0⟩, .forget (sent 0)
      , .select ⟨0⟩ ]
    forgetsLive [] requests = true ∧ liveAfter requests = [sent 10]
      ∧ (∃ s, fresh.run requests = .ok s
        ∧ value? (s.table.get rates.bottom).totalAirtime = none
        ∧ value? (s.table.get rates.bottom).bestCase = none
        ∧ (s.table.get rates.top).IsFinite)
      ∧ ∃ s, fresh.run (requests ++ [.reset]) = .ok s
        ∧ (s.table.get rates.bottom).IsFinite := by
  intro rates fresh sent requests
  have hforgets : forgetsLive [] requests = true := by decide
  have hforgets' : forgetsLive [] (requests ++ [.reset]) = true := by decide
  obtain ⟨s, hrun, -⟩ := exists_run fresh requests (fun _ => True)
    (by decide +kernel)
  obtain ⟨s', hrun', -⟩ := exists_run fresh (requests ++ [.reset])
    (fun _ => True) (by decide +kernel)
  obtain ⟨-, hspoiled⟩ :=
    figures_finite_unless_zero _ _ _ rates.bottom hforgets hrun
  obtain ⟨htotal, hbest⟩ := hspoiled (by decide) (by decide)
  have htop := (figures_finite_unless_zero _ _ _ rates.top hforgets hrun).1
    (.inl (by decide))
  have hreset := (figures_finite_unless_zero _ _ _ rates.bottom hforgets'
    hrun').1 (.inr (by decide))
  exact ⟨hforgets, by decide, ⟨s, hrun, htotal, hbest (by decide), htop⟩,
    s', hrun', hreset⟩

/-- A rate set may begin with zero. One packet there, counted and then
uncounted, and no figure of the candidate is a number while it counts; the
sum still is none when nothing is live and a decision has been made. -/
theorem zero_rate_spoils_figures :
    let rates : RateSet := ⟨#[0, 10], by decide, by decide⟩
    let sent : Outcome := ⟨⟨0⟩, 1, 0, 1000, .acked⟩
    let counted : List Request := [.record sent, .select ⟨0⟩]
    let forgotten : List Request :=
      [.record sent, .forget sent, .select ⟨0⟩]
    RateSet.ofList [0, 10] = .ok rates
      ∧ forgetsLive [] counted = true ∧ forgetsLive [] forgotten = true
      ∧ liveAfter forgotten = []
      ∧ (∃ s, (start rates .lowestFirst (.ofSeed 1) ⟨0⟩).run counted = .ok s
        ∧ value? (s.table.get rates.bottom).totalAirtime = none
        ∧ value? (s.table.get rates.bottom).average = none
        ∧ value? (s.table.get rates.bottom).bestCase = none)
      ∧ ∃ s, (start rates .lowestFirst (.ofSeed 1) ⟨0⟩).run forgotten = .ok s
        ∧ value? (s.table.get rates.bottom).totalAirtime = none := by
  intro rates sent counted forgotten
  refine ⟨by decide, by decide, by decide, by decide, ?_, ?_⟩
  · exact exists_run _ _ (fun s =>
      value? (s.table.get rates.bottom).totalAirtime = none
        ∧ value? (s.table.get rates.bottom).average = none
        ∧ value? (s.table.get rates.bottom).bestCase = none)
      (by decide +kernel)
  · exact exists_run _ _ (fun s =>
      value? (s.table.get rates.bottom).totalAirtime = none)
      (by decide +kernel)

end SampleRate

end LinkAdaptation
