/-
What ends a run of selection by average airtime. The counters of outcomes
have room for as many outcomes as they can count. The counter of decisions
has no such bound: a sampling decision clears it, but while nothing
acknowledged is accounted no decision samples, and every one is counted. So
it is bounded by the decisions that were made without an acknowledgement,
and by nothing else; the decision that finds it full is not made.
-/
import LinkAdaptation.Proofs.Selector.Decisions

namespace LinkAdaptation

open LinkAdaptation.Random (Generator)
open Selector (Request)

variable {rates : RateSet}

namespace SampleRate

variable {s s' : SampleRate rates} {now : Instant} {request : Request}
  {requests between : List Request}

-- ============================================================== bounds

/-- Only a decision without an acknowledgement takes the counter past a
multiple of the interval. -/
theorem interval_step (h : s.handle request = .ok s') :
    s'.decisions / sampleInterval
      ≤ s.decisions / sampleInterval
        + if request.isSelect && s.isUnacked then 1 else 0 := by
  have hinterval : sampleInterval = 10 := rfl
  cases request with
  | record o =>
      rw [decisions_of_record h]
      exact Nat.le_add_right _ _
  | forget o =>
      cases h
      rw [decisions_of_forget]
      exact Nat.le_add_right _ _
  | reset =>
      cases h
      have hfresh : s.reset.decisions = 0 := rfl
      rw [hfresh, Nat.zero_div]
      exact Nat.zero_le _
  | select now =>
      simp only [Request.isSelect, Bool.true_and, isUnacked,
        decide_eq_true_eq, hinterval]
      cases (handle_select_eq_ok.1 h).2 with
      | search hunacked =>
          rw [if_pos hunacked]
          dsimp only
          omega
      | sample hacked _ =>
          rw [if_neg hacked]
          dsimp only
          omega
      | fastest hacked hnotDue =>
          rw [hinterval] at hnotDue
          rw [if_neg hacked]
          dsimp only
          omega

/-- So in a run it is bounded by such decisions. -/
theorem intervals_of_run (hrun : s.run requests = .ok s') :
    s'.decisions / sampleInterval
      ≤ s.decisions / sampleInterval + s.countSelects isUnacked requests := by
  induction requests generalizing s with
  | nil =>
      cases hrun
      exact Nat.le_refl _
  | cons request rest ih =>
      rw [run_cons] at hrun
      obtain ⟨s₁, hfirst, hrest⟩ := bind_eq_ok.1 hrun
      have hstep := interval_step hfirst
      have hrest := ih hrest
      rw [countSelects, hfirst]
      dsimp only
      omega

/-- The decisions in the first part of a run are not more than in all of
it. -/
theorem countSelects_append_le (p : SampleRate rates → Bool)
    (s : SampleRate rates) (requests after : List Request) :
    s.countSelects p requests ≤ s.countSelects p (requests ++ after) := by
  induction requests generalizing s with
  | nil => exact Nat.zero_le _
  | cons request rest ih =>
      rw [List.cons_append, countSelects, countSelects]
      cases s.handle request with
      | ok s' => exact Nat.add_le_add_left (ih s') _
      | error fault => exact Nat.le_refl _

/-- What was counted did not fill the counter. -/
theorem decisions_lt_of_run (h : s.decisions < counterLimit)
    (hrun : s.run requests = .ok s') : s'.decisions < counterLimit := by
  refine run_keeps (P := fun _ s => s.decisions < counterLimit) h hrun ?_
  intro _ s₁ request s₂ h hhandle
  cases request with
  | record o =>
      rw [decisions_of_record hhandle]
      exact h
  | forget o =>
      cases hhandle
      rw [decisions_of_forget]
      exact h
  | reset =>
      cases hhandle
      exact Nat.zero_lt_of_lt h
  | select now =>
      obtain ⟨hroom, hdecides⟩ := handle_select_eq_ok.1 hhandle
      cases hdecides with
      | search _ => exact hroom
      | sample _ _ => exact Nat.zero_lt_of_lt h
      | fastest _ _ => exact hroom

-- ============================================================ counting

/-- Between samplings and resets every decision is counted. -/
theorem decisions_of_no_sampling (hrun : s.run requests = .ok s')
    (hsamplings : s.countSelects isSampling requests = 0)
    (hresets : .reset ∉ requests) :
    s'.decisions = s.decisions + requests.countP Request.isSelect := by
  induction requests generalizing s with
  | nil =>
      cases hrun
      rfl
  | cons request rest ih =>
      rw [run_cons] at hrun
      obtain ⟨s₁, hfirst, hrest⟩ := bind_eq_ok.1 hrun
      rw [countSelects, hfirst] at hsamplings
      obtain ⟨hnone, hsamplings⟩ := Nat.add_eq_zero_iff.1 hsamplings
      obtain ⟨hreset, hresets⟩ := not_or.1 (List.mem_cons.not.1 hresets)
      rw [ih hrest hsamplings hresets, List.countP_cons]
      cases request with
      | record o =>
          rw [decisions_of_record hfirst]
          rfl
      | forget o =>
          cases hfirst
          rw [decisions_of_forget]
          rfl
      | reset => exact absurd rfl hreset
      | select now =>
          have hcounted : s₁.decisions = s.decisions + 1 := by
            cases (handle_select_eq_ok.1 hfirst).2 with
            | search _ => rfl
            | fastest _ _ => rfl
            | sample hacked hdue =>
                simp [Request.isSelect, isSampling, hacked, hdue] at hnone
          have hselect : (Request.select now).isSelect = true := rfl
          rw [hcounted, if_pos hselect]
          omega

/-- Without an acknowledgement no decision samples, and after it there still
is none. -/
theorem run_replicate_select {n : Nat} (hunacked : s.totalAcked = 0)
    (now : Instant) (hroom : s.decisions + n < counterLimit) :
    ∃ s', s.run (List.replicate n (.select now)) = .ok s'
      ∧ s'.totalAcked = 0 ∧ s'.decisions = s.decisions + n := by
  induction n generalizing s with
  | zero => exact ⟨s, rfl, hunacked, rfl⟩
  | succ n ih =>
      obtain ⟨s₁, hselect, hdecides⟩ := s.exists_select now (by omega)
      have hunacked₁ : s₁.totalAcked = 0 := by
        obtain ⟨-, -, -, htotal, -⟩ := hdecides.table_eq
        exact htotal.trans hunacked
      have hdecisions₁ : s₁.decisions = s.decisions + 1 := by
        cases hdecides with
        | search _ => rfl
        | sample hacked _ => exact absurd hunacked hacked
        | fastest hacked _ => exact absurd hunacked hacked
      obtain ⟨s', hrun, hunacked', hdecisions'⟩ := ih hunacked₁ (by omega)
      refine ⟨s', ?_, hunacked', by omega⟩
      rw [List.replicate_succ, run_cons]
      show ((s.select now >>= fun p => .ok p.1) >>= fun s₁ => s₁.run _) = _
      rw [hselect]
      exact hrun

-- ============================================================= results

/-- With room in the counters of outcomes, a run ends early only at a
decision that finds the counter of decisions full. It does not as long as
few decisions are made without an acknowledgement; but between samplings and
resets every decision is counted, and without an acknowledgement none
samples. -/
theorem run_breaks_off_when_full (order : BootstrapOrder)
    (generator : Generator) (made : Instant) (requests : List Request)
    (hreports : requests.countP Request.isReport < counterLimit) :
    let fresh := start rates order generator made
    let unacked := fresh.countSelects isUnacked requests
    (sampleInterval * (unacked + 1) < counterLimit →
      ∃ s, fresh.run requests = .ok s
        ∧ s.decisions < sampleInterval * (unacked + 1))
    ∧ (∀ fault, fresh.run requests = .error fault ↔
        fault = .counterOverflow ∧ ∃ before now after s,
          requests = before ++ .select now :: after
            ∧ fresh.run before = .ok s ∧ s.decisions + 1 = counterLimit)
    ∧ ∀ (s s' : SampleRate rates) between, s.run between = .ok s' →
        .reset ∉ between → s.countSelects isSampling between = 0 →
        s'.decisions = s.decisions + between.countP Request.isSelect := by
  intro fresh unacked
  have hrun :=
    (bounded_start rates order generator made).run requests (by omega)
  have hfew : ∀ {requests : List Request} {s}, fresh.run requests = .ok s →
      s.decisions < sampleInterval * (fresh.countSelects isUnacked requests + 1) := by
    intro requests s hok
    have hintervals := intervals_of_run hok
    rw [decisions_start, Nat.zero_div, Nat.zero_add] at hintervals
    have hlt := Nat.lt_succ_of_le hintervals
    rw [Nat.div_lt_iff_lt_mul (by decide), Nat.mul_comm] at hlt
    exact hlt
  have hbroken : ∀ fault, fresh.run requests = .error fault →
      fault = .counterOverflow ∧ ∃ before now after s,
        requests = before ++ .select now :: after
          ∧ fresh.run before = .ok s ∧ s.decisions + 1 = counterLimit := by
    intro fault hfault
    obtain ⟨rfl, before, now, after, s, hsplit, hbefore, hfull⟩ :=
      hrun.of_eq_error hfault
    have hlt := decisions_lt_of_run
      (by rw [decisions_start]; decide : fresh.decisions < counterLimit) hbefore
    exact ⟨rfl, before, now, after, s, hsplit, hbefore, by omega⟩
  refine ⟨?_, ?_, fun s s' between hbetween hresets hsamplings =>
    decisions_of_no_sampling hbetween hsamplings hresets⟩
  · intro hunacked
    cases hresult : fresh.run requests with
    | ok s => exact ⟨s, rfl, hfew hresult⟩
    | error fault =>
        obtain ⟨-, before, now, after, s, rfl, hbefore, hfull⟩ :=
          hbroken fault hresult
        have hle := countSelects_append_le isUnacked fresh before
          (.select now :: after)
        have hlt : s.decisions < sampleInterval * (unacked + 1) :=
          (hfew hbefore).trans_le
            (Nat.mul_le_mul_left _ (Nat.add_le_add_right hle 1))
        omega
  · intro fault
    constructor
    · exact hbroken fault
    · intro h
      obtain ⟨rfl, before, now, after, s, rfl, hbefore, hfull⟩ := h
      rw [run_append, hbefore]
      show s.run (.select now :: after) = _
      rw [run_cons, handle_select_of_full (by omega)]
      rfl

/-- With an acknowledgement accounted, the counter never gets far. -/
theorem run_breaks_off_when_full_acked :
    let rates : RateSet := ⟨#[10], by decide, by decide⟩
    let fresh := start rates .lowestFirst (.ofSeed 0) ⟨0⟩
    let requests : List Request := .select ⟨0⟩
      :: .record ⟨⟨0⟩, 0, 10, 1000, .acked⟩ :: List.replicate 30 (.select ⟨0⟩)
    requests.countP Request.isReport < counterLimit
      ∧ fresh.countSelects isUnacked requests = 1
      ∧ ∃ s, fresh.run requests = .ok s ∧ s.decisions < 20 := by
  intro rates fresh requests
  have hreports : requests.countP Request.isReport < counterLimit := by decide
  have hunacked : fresh.countSelects isUnacked requests = 1 := by
    decide +kernel
  obtain ⟨hfew, -, -⟩ :=
    @run_breaks_off_when_full rates .lowestFirst (.ofSeed 0) ⟨0⟩ requests
      hreports
  rw [hunacked] at hfew
  exact ⟨hreports, hunacked, hfew (by decide)⟩

/-- Nothing is recorded, and the decision after the last that can be counted
is not made. -/
theorem selects_exhaust_counter :
    let rates : RateSet := ⟨#[10], by decide, by decide⟩
    let requests : List Request := List.replicate counterLimit (.select ⟨0⟩)
    requests.countP Request.isReport = 0
      ∧ (start rates .lowestFirst (.ofSeed 0) ⟨0⟩).run requests
        = .error .counterOverflow := by
  intro rates requests
  have hreports : ∀ n, (List.replicate n (Request.select ⟨0⟩)).countP
      Request.isReport = 0 := by
    intro n
    rw [List.countP_replicate]
    rfl
  refine ⟨hreports counterLimit, ?_⟩
  obtain ⟨n, hn⟩ : ∃ n, counterLimit = n + 1 := ⟨4294967295, rfl⟩
  obtain ⟨s, hrun, -, hdecisions⟩ := run_replicate_select
    (s := start rates .lowestFirst (.ofSeed 0) ⟨0⟩) (n := n) rfl ⟨0⟩
    (by rw [decisions_start]; omega)
  rw [decisions_start, Nat.zero_add] at hdecisions
  show run _ (List.replicate counterLimit _) = _
  rw [hn, List.replicate_succ', run_append, hrun]
  show s.run [.select ⟨0⟩] = _
  rw [run_cons, handle_select_of_full (by omega)]
  rfl

end SampleRate

end LinkAdaptation
