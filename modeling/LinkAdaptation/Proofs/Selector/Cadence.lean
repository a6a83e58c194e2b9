/-
When selection by average airtime samples, and where its decisions lead.
The decisions since the last sampling one are counted through searches as
well, and only a sampling decision or a reset begins to count again. So in
any stretch of a run there are no more sampling decisions than times the
count completes an interval, and none of these is skipped while something
acknowledged is accounted.

A sampling decision leads to a candidate that could do better than the
current one, if there is such a candidate. Any other leads to the one of the
least average airtime, the slowest of several; doubles that are below a
bound are in a linear order, so there is one.
-/
import LinkAdaptation.Proofs.Number.Order
import LinkAdaptation.Proofs.Random.Draw
import LinkAdaptation.Proofs.Selector.Decisions

namespace LinkAdaptation

open LinkAdaptation.Random (Generator)
open Selector (Request)

variable {rates : RateSet}

namespace SampleRate

variable {s s' : SampleRate rates} {now : Instant}
  {requests before between : List Request}

-- ============================================================= cadence

/-- A sampling decision takes back an interval of the count, and any other
adds at most one to what is begun of one. -/
theorem sampling_step {request : Request} (h : s.handle request = .ok s') :
    (if request.isSelect && s.isSampling then sampleInterval else 0)
        + s'.decisions % sampleInterval
      ≤ s.decisions % sampleInterval + if request.isSelect then 1 else 0 := by
  have hinterval : sampleInterval = 10 := rfl
  cases request with
  | record o =>
      rw [decisions_of_record h]
      simp [Request.isSelect]
  | forget o =>
      cases h
      rw [decisions_of_forget]
      simp [Request.isSelect]
  | reset =>
      cases h
      have hfresh : s.reset.decisions = 0 := rfl
      rw [hfresh]
      simp [Request.isSelect]
  | select now =>
      simp only [Request.isSelect, Bool.true_and, if_true, isSampling,
        decide_eq_true_eq, hinterval]
      cases (handle_select_eq_ok.1 h).2 with
      | search hunacked =>
          rw [if_neg fun hsampling => hsampling.1 hunacked]
          dsimp only
          omega
      | sample hacked hdue =>
          rw [hinterval] at hdue
          rw [if_pos ⟨hacked, hdue⟩]
          dsimp only
          omega
      | fastest hacked hnotDue =>
          rw [if_neg fun hsampling => hnotDue hsampling.2]
          dsimp only
          omega

/-- So sampling decisions are no more than the intervals that are completed,
the one under way included. -/
theorem countSelects_isSampling_le (s : SampleRate rates)
    (requests : List Request) :
    sampleInterval * s.countSelects isSampling requests
      ≤ s.decisions % sampleInterval + requests.countP Request.isSelect := by
  induction requests generalizing s with
  | nil => exact Nat.zero_le _
  | cons request rest ih =>
      rw [countSelects, List.countP_cons]
      cases hhandle : s.handle request with
      | error fault => exact Nat.zero_le _
      | ok s' =>
          have hfirst := sampling_step hhandle
          have hrest := ih s'
          dsimp only
          rw [Nat.mul_add, mul_ite, Nat.mul_one, Nat.mul_zero]
          omega

-- ============================================================= fastest

variable {average : rates.Index → Float} {current i : rates.Index}
  {seen : List rates.Index}

/-- What a decision without sampling goes to: among the candidates with a
known average the first of the least, and without any the current one. -/
inductive IsFastest (average : rates.Index → Float) (current : rates.Index) :
    rates.Index → Prop where
  | least {i : rates.Index} (hknown : average i < noAirtime)
      (hleast : ∀ j, average j < noAirtime →
        average i ≤ average j ∧ (j < i → average i < average j)) :
      IsFastest average current i
  | unknown (h : ∀ j, ¬ average j < noAirtime) :
      IsFastest average current current

/-- The best of some candidates so far, with its average. -/
inductive Best (average : rates.Index → Float) (current : rates.Index)
    (seen : List rates.Index) : Float × rates.Index → Prop where
  | least {i : rates.Index} (hmem : i ∈ seen) (hknown : average i < noAirtime)
      (hleast : ∀ j ∈ seen, average j < noAirtime →
        average i ≤ average j ∧ (j < i → average i < average j)) :
      Best average current seen (average i, i)
  | unknown (h : ∀ j ∈ seen, ¬ average j < noAirtime) :
      Best average current seen (noAirtime, current)

/-- A later candidate is better only if it is strictly better. -/
theorem Best.concat {best : Float × rates.Index}
    (h : Best average current seen best) (hlater : ∀ j ∈ seen, j < i) :
    Best average current (seen ++ [i])
      (if average i < best.1 then (average i, i) else best) := by
  cases h with
  | unknown hunknown =>
      dsimp only
      split
      · next hknown =>
          refine .least (by simp) hknown ?_
          intro j hj hother
          rcases List.mem_append.1 hj with hj | hj
          · exact absurd hother (hunknown j hj)
          · cases List.mem_singleton.1 hj
            exact ⟨double_le_refl hknown, fun hlt => absurd hlt (lt_irrefl i)⟩
      · next hunknown' =>
          refine .unknown ?_
          intro j hj
          rcases List.mem_append.1 hj with hj | hj
          · exact hunknown j hj
          · cases List.mem_singleton.1 hj
            exact hunknown'
  | least hmem hknown hleast =>
      next k =>
      dsimp only
      split
      · next hless =>
          have hknown' := double_lt_of_lt_of_le hless (double_le_of_lt hknown)
          refine .least (by simp) hknown' ?_
          intro j hj hother
          rcases List.mem_append.1 hj with hj | hj
          · have hlt := double_lt_of_lt_of_le hless (hleast j hj hother).1
            exact ⟨double_le_of_lt hlt, fun _ => hlt⟩
          · cases List.mem_singleton.1 hj
            exact ⟨double_le_refl hknown', fun hlt => absurd hlt (lt_irrefl i)⟩
      · next hnotLess =>
          refine .least (List.mem_append_left _ hmem) hknown ?_
          intro j hj hother
          rcases List.mem_append.1 hj with hj | hj
          · exact hleast j hj hother
          · cases List.mem_singleton.1 hj
            exact ⟨double_le_of_not_lt hknown hother hnotLess,
              fun hlt => absurd hlt (hlater k hmem).not_gt⟩

theorem best_foldl (hseen : seen.Pairwise (· < ·)) :
    Best average current seen
      (seen.foldl (fun best i =>
        if average i < best.1 then (average i, i) else best)
        (noAirtime, current)) := by
  induction seen using List.reverseRecOn with
  | nil => exact .unknown nofun
  | append_singleton seen i ih =>
      obtain ⟨hseen, -, hlater⟩ := List.pairwise_append.1 hseen
      rw [List.foldl_append, List.foldl_cons, List.foldl_nil]
      exact (ih hseen).concat fun j hj => hlater j hj i (List.mem_singleton.2 rfl)

/-- The best of all candidates is the fastest. -/
theorem Best.isFastest {best : Float × rates.Index}
    (h : Best average current rates.indices best) :
    IsFastest average current best.2 := by
  cases h with
  | least _ hknown hleast =>
      exact .least hknown fun j => hleast j (List.mem_finRange j)
  | unknown h => exact .unknown fun j => h j (List.mem_finRange j)

theorem isFastest_fastest (s : SampleRate rates) :
    IsFastest (fun i => (s.table.get i).average) s.current s.fastest :=
  (best_foldl (List.pairwise_lt_finRange rates.size)).isFastest

-- ============================================================ sampling

variable {table : Table rates Entry}

/-- A candidate that could do better than the current one, and is not far
above it. -/
structure IsWorthSampling (table : Table rates Entry) (current : rates.Index)
    (i : rates.Index) : Prop where
  ne_current : i ≠ current
  near : i.val < current.val + lookahead
  usable : (table.get i).lossRun < maxLossRun
  better : (table.get i).bestCase < (table.get current).average

/-- What a sampling decision goes to: a candidate that is worth it, and
without any the current one. -/
inductive IsSample (table : Table rates Entry) (current : rates.Index) :
    rates.Index → Prop where
  | drawn {i : rates.Index} (h : IsWorthSampling table current i) :
      IsSample table current i
  | none (h : ∀ i, ¬ IsWorthSampling table current i) :
      IsSample table current current

theorem mem_sampleCandidates :
    i ∈ s.sampleCandidates ↔ IsWorthSampling s.table s.current i := by
  unfold sampleCandidates Entry.isUsable
  simp only [List.mem_filter, Bool.and_eq_true, decide_eq_true_eq,
    bne_iff_ne]
  constructor
  · intro h
    obtain ⟨-, ⟨⟨hnear, hne⟩, husable⟩, hbetter⟩ := h
    exact ⟨hne, hnear, husable, hbetter⟩
  · intro h
    exact ⟨List.mem_finRange i, ⟨⟨h.near, h.ne_current⟩, h.usable⟩, h.better⟩

theorem isSample_sample (s : SampleRate rates) :
    IsSample s.table s.current s.sample.1 := by
  show IsSample _ _ ((s.generator.choose s.sampleCandidates).1.getD s.current)
  by_cases hnone : s.sampleCandidates = []
  · rw [hnone]
    refine .none ?_
    intro i h
    have hmem := mem_sampleCandidates.2 h
    rw [hnone] at hmem
    cases hmem
  · obtain ⟨i, hi, hchosen⟩ :=
      Random.Generator.exists_choose hnone s.generator
    rw [hchosen]
    exact .drawn (mem_sampleCandidates.1 hi)

-- ============================================================= results

/-- Of ten decisions in a row, whatever is asked in between, at most one
samples. While something acknowledged is accounted, the one that does goes
to a candidate that is worth it, and any other to the fastest. -/
theorem samples_at_most_once_in_ten (order : BootstrapOrder)
    (generator : Generator) (made : Instant)
    (hrun : (start rates order generator made).run before = .ok s)
    (hten : between.countP Request.isSelect ≤ 10) :
    s.countSelects isSampling between ≤ 1
      ∧ ∀ now, s.totalAcked ≠ 0 →
        before.countP Request.isSelect + 1 < counterLimit →
        ∃ s', s.select now = .ok (s', rates.get s'.current)
          ∧ if s.isSampling then IsSample s'.table s.current s'.current
            else IsFastest (fun i => (s'.table.get i).average) s.current
              s'.current := by
  constructor
  · have hmost := s.countSelects_isSampling_le between
    have hbegun : s.decisions % sampleInterval < sampleInterval :=
      Nat.mod_lt _ (by decide)
    have hinterval : sampleInterval = 10 := rfl
    rw [hinterval] at hmost hbegun
    omega
  · intro now hacked hroom
    have hdecisions := decisions_of_run hrun
    rw [decisions_start] at hdecisions
    obtain ⟨s', hselect, hdecides⟩ := s.exists_select now (by omega)
    refine ⟨s', hselect, ?_⟩
    have hcurrent := (s.sameCourse_refresh now).current
    unfold isSampling
    simp only [decide_eq_true_eq]
    cases hdecides with
    | search hunacked => exact absurd hunacked hacked
    | sample _ hdue =>
        rw [if_pos ⟨hacked, hdue⟩, ← hcurrent]
        exact isSample_sample (s.refresh now)
    | fastest _ hnotDue =>
        rw [if_neg fun hsampling => hnotDue hsampling.2, ← hcurrent]
        exact isFastest_fastest (s.refresh now)

/-- The tenth packet after an acknowledgement is a sample, and of the nine
that follow none is. -/
theorem samples_at_most_once_in_ten_tenth :
    let rates : RateSet := ⟨#[10, 20], by decide, by decide⟩
    let now : Instant := ⟨0⟩
    let before : List Request :=
      .record ⟨now, 0, 10, 1000, .acked⟩ :: List.replicate 9 (.select now)
    let between : List Request := List.replicate 10 (.select now)
    between.countP Request.isSelect ≤ 10
      ∧ before.countP Request.isSelect + 1 < counterLimit
      ∧ ∃ s s', (start rates .lowestFirst (.ofSeed 0) now).run before = .ok s
        ∧ s.totalAcked ≠ 0 ∧ s.isSampling = true
        ∧ s.countSelects isSampling between ≤ 1
        ∧ s.select now = .ok (s', rates.get s'.current)
        ∧ IsSample s'.table s.current s'.current := by
  intro rates now before between
  have hten : between.countP Request.isSelect ≤ 10 := by decide
  have hroom : before.countP Request.isSelect + 1 < counterLimit := by decide
  obtain ⟨s, hrun, hacked, hsampling⟩ :=
    exists_run (start rates .lowestFirst (.ofSeed 0) now) before
      (fun s => s.totalAcked ≠ 0 ∧ s.isSampling = true) (by decide +kernel)
  obtain ⟨honce, hdecisions⟩ :=
    samples_at_most_once_in_ten .lowestFirst (.ofSeed 0) now hrun hten
  obtain ⟨s', hselect, hsample⟩ := hdecisions now hacked hroom
  rw [if_pos hsampling] at hsample
  exact ⟨hten, hroom, s, s', hrun, hacked, hsampling, honce, hselect, hsample⟩

end SampleRate

end LinkAdaptation
