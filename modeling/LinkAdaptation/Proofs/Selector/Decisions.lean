/-
The decisions of selection by average airtime, and runs of a selector that
is asked directly. A decision brings the averages up to date and then goes
one of three ways: it searches for a usable candidate, draws one to sample,
or takes the fastest. Which way it goes depends on the accounted
acknowledgements and on the decisions since the last sampling one, and
neither of them is touched by bringing averages up to date.

Only counters can break a run off. Those of outcomes have room while fewer
outcomes were recorded than a counter can count, and then all that is left
is a decision with a full counter of decisions.
-/
import LinkAdaptation.Proofs.RateSet
import LinkAdaptation.Proofs.Selector.SampleRate
import LinkAdaptation.Selector.Request

namespace LinkAdaptation

open LinkAdaptation.Random (Generator)
open Selector (Request)

/-- Whether a request has an outcome counted. -/
def Selector.Request.isReport : Request → Bool
  | .record o => o.status.isFeedback
  | _ => false

variable {rates : RateSet}

namespace SampleRate

variable {s s' : SampleRate rates} {now : Instant} {rate : Rate}

-- ============================================================= entries

/-- What counting does besides the counts and the byte sums: a loss
lengthens the run, an acknowledgement ends it, and averages are left to a
decision. -/
theorem Entry.rest_of_count {e e' : Entry} {o : Outcome}
    (h : e.count o = .ok e') :
    (e'.lossRun = if o.status = .acked then 0
        else e.lossRun + if o.status.isLoss then 1 else 0)
      ∧ e'.totalAirtime = e.totalAirtime + airtime o.rate o.length
      ∧ e'.average = e.average ∧ e'.bestCase = e.bestCase := by
  obtain ⟨sent, -, h⟩ := bind_eq_ok.1 h
  cases hstatus : o.status with
  | sent =>
      rw [hstatus] at h
      cases h
      exact ⟨rfl, rfl, rfl, rfl⟩
  | acked =>
      rw [hstatus] at h
      obtain ⟨acked, -, h⟩ := bind_eq_ok.1 h
      cases h
      exact ⟨rfl, rfl, rfl, rfl⟩
  | naked =>
      rw [hstatus] at h
      obtain ⟨naked, -, h⟩ := bind_eq_ok.1 h
      obtain ⟨lossRun, hincrement, h⟩ := bind_eq_ok.1 h
      cases h
      exact ⟨(increment_eq_ok_iff.1 hincrement).1, rfl, rfl, rfl⟩
  | timedOut =>
      rw [hstatus] at h
      obtain ⟨timedOut, -, h⟩ := bind_eq_ok.1 h
      obtain ⟨lossRun, hincrement, h⟩ := bind_eq_ok.1 h
      cases h
      exact ⟨(increment_eq_ok_iff.1 hincrement).1, rfl, rfl, rfl⟩

/-- Uncounting does not shorten a run. -/
theorem Entry.rest_uncount (e : Entry) (o : Outcome) :
    (e.uncount o).lossRun = e.lossRun
      ∧ (e.uncount o).totalAirtime = e.totalAirtime - airtime o.rate o.length
      ∧ (e.uncount o).average = e.average
      ∧ (e.uncount o).bestCase = e.bestCase := by
  unfold uncount
  cases o.status <;> exact ⟨rfl, rfl, rfl, rfl⟩

-- =========================================================== decisions

/-- A change of the table, and of what tells when it was changed: all that
bringing averages up to date does. -/
structure SameCourse (s s' : SampleRate rates) : Prop where
  totalAcked : s'.totalAcked = s.totalAcked
  decisions : s'.decisions = s.decisions
  current : s'.current = s.current
  order : s'.order = s.order

theorem sameCourse_refresh (s : SampleRate rates) (now : Instant) :
    s.SameCourse (s.refresh now) := by
  apply refresh_keeps (P := s.SameCourse) ⟨rfl, rfl, rfl, rfl⟩
  · intro s₁ h
    exact ⟨h.totalAcked, h.decisions, h.current, h.order⟩
  · intro s₁ h
    exact ⟨h.totalAcked, h.decisions, h.current, h.order⟩

/-- What a refresh makes of an entry: its averages, and an end to its run
of losses where that is due. -/
theorem get_refresh (i : rates.Index) :
    (s.refresh now).table.get i
      = if s.outdated then
          { s.table.get i with
            lossRun := if s.isLossResetDue now then 0
              else (s.table.get i).lossRun }.refresh
        else s.table.get i := by
  unfold refresh
  split
  · dsimp only
    rw [Table.get_map]
    split
    · unfold resetLosses
      rw [Table.get_map]
    · rfl
  · rfl

/-- Whether the next decision draws a candidate to sample. -/
def isSampling (s : SampleRate rates) : Bool :=
  s.totalAcked ≠ 0 ∧ (s.decisions + 1) % sampleInterval = 0

/-- Whether the next decision is made without an acknowledgement. -/
def isUnacked (s : SampleRate rates) : Bool := s.totalAcked = 0

/-- The three ways of a decision. -/
inductive Decides (s : SampleRate rates) (now : Instant) :
    SampleRate rates → Prop where
  | search (hunacked : s.totalAcked = 0) :
      Decides s now { s.refresh now with
        decisions := s.decisions + 1
        current := (s.refresh now).firstUsable }
  | sample (hacked : s.totalAcked ≠ 0)
      (hdue : (s.decisions + 1) % sampleInterval = 0) :
      Decides s now { s.refresh now with
        decisions := 0
        current := (s.refresh now).sample.1
        generator := (s.refresh now).sample.2 }
  | fastest (hacked : s.totalAcked ≠ 0)
      (hnotDue : (s.decisions + 1) % sampleInterval ≠ 0) :
      Decides s now { s.refresh now with
        decisions := s.decisions + 1
        current := (s.refresh now).fastest }

/-- A decision is made if its counter has room, and goes one of the three
ways. -/
theorem select_eq_ok :
    s.select now = .ok (s', rate) ↔ s.decisions + 1 < counterLimit
      ∧ s.Decides now s' ∧ rate = rates.get s'.current := by
  obtain ⟨htotal, hdecisions, -, -⟩ := s.sameCourse_refresh now
  unfold select
  rw [bind_eq_ok]
  constructor
  · intro h
    obtain ⟨decisions, hincrement, h⟩ := h
    rw [hdecisions, increment_eq_ok_iff] at hincrement
    obtain ⟨rfl, hroom⟩ := hincrement
    refine ⟨hroom, ?_⟩
    cases h
    split
    · next hunacked => exact ⟨.search (htotal.symm.trans hunacked), rfl⟩
    · next hacked =>
        rw [htotal] at hacked
        split
        · next hdue => exact ⟨.sample hacked hdue, rfl⟩
        · next hnotDue => exact ⟨.fastest hacked hnotDue, rfl⟩
  · intro h
    obtain ⟨hroom, hdecides, rfl⟩ := h
    refine ⟨s.decisions + 1, ?_, ?_⟩
    · rw [hdecisions, increment_eq_ok_iff]
      exact ⟨rfl, hroom⟩
    · cases hdecides with
      | search hunacked =>
          rw [if_pos (htotal.trans hunacked)]
          rfl
      | sample hacked hdue =>
          rw [if_neg (htotal.trans_ne hacked), if_pos hdue]
          rfl
      | fastest hacked hnotDue =>
          rw [if_neg (htotal.trans_ne hacked), if_neg hnotDue]
          rfl

/-- With room in its counter, a decision is made. -/
theorem exists_select (s : SampleRate rates) (now : Instant)
    (hroom : s.decisions + 1 < counterLimit) :
    ∃ s', s.select now = .ok (s', rates.get s'.current) ∧ s.Decides now s' := by
  have hways : ∃ s', s.Decides now s' := by
    by_cases hunacked : s.totalAcked = 0
    · exact ⟨_, .search hunacked⟩
    · by_cases hdue : (s.decisions + 1) % sampleInterval = 0
      · exact ⟨_, .sample hunacked hdue⟩
      · exact ⟨_, .fastest hunacked hdue⟩
  obtain ⟨s', hdecides⟩ := hways
  exact ⟨s', select_eq_ok.2 ⟨hroom, hdecides, rfl⟩, hdecides⟩

/-- Without, it is not. -/
theorem select_of_full (hfull : counterLimit ≤ s.decisions + 1) :
    s.select now = .error .counterOverflow := by
  have hdecisions := (s.sameCourse_refresh now).decisions
  have hfailed : increment (s.refresh now).decisions
      = .error .counterOverflow := by
    unfold increment
    rw [hdecisions, if_neg (Nat.not_lt.2 hfull)]
  unfold select
  dsimp only
  rw [hfailed]
  rfl

/-- Only the table, what tells when it changed, and the outcome of the
decision are new. -/
theorem Decides.table_eq (h : s.Decides now s') :
    s'.table = (s.refresh now).table ∧ s'.outdated = (s.refresh now).outdated
      ∧ s'.lastLossReset = (s.refresh now).lastLossReset
      ∧ s'.totalAcked = s.totalAcked ∧ s'.order = s.order := by
  have hsame := s.sameCourse_refresh now
  cases h with
  | search _ => exact ⟨rfl, rfl, rfl, hsame.totalAcked, hsame.order⟩
  | sample _ _ => exact ⟨rfl, rfl, rfl, hsame.totalAcked, hsame.order⟩
  | fastest _ _ => exact ⟨rfl, rfl, rfl, hsame.totalAcked, hsame.order⟩

-- ============================================================ requests

theorem handle_select_eq_ok :
    s.handle (.select now) = .ok s'
      ↔ s.decisions + 1 < counterLimit ∧ s.Decides now s' := by
  unfold handle
  rw [bind_eq_ok]
  constructor
  · intro h
    obtain ⟨⟨s₁, rate⟩, hselect, h⟩ := h
    cases h
    obtain ⟨hroom, hdecides, -⟩ := select_eq_ok.1 hselect
    exact ⟨hroom, hdecides⟩
  · intro h
    exact ⟨_, select_eq_ok.2 ⟨h.1, h.2, rfl⟩, rfl⟩

theorem handle_select_of_full (hfull : counterLimit ≤ s.decisions + 1) :
    s.handle (.select now) = .error .counterOverflow := by
  unfold handle
  dsimp only
  rw [select_of_full hfull]
  rfl

/-- Whether an outcome is counted: it reports, and at a candidate. -/
def counts (rates : RateSet) (o : Outcome) : Bool :=
  o.status.isFeedback && rates.contains o.rate

variable {o : Outcome} {i : rates.Index}

theorem counts_of (hi : rates.get i = o.rate)
    (ho : o.status.isFeedback = true) : counts rates o = true := by
  unfold counts
  rw [ho, Bool.true_and, RateSet.contains_iff, ← hi]
  exact RateSet.get_mem i

theorem exists_of_counts (h : counts rates o = true) :
    o.status.isFeedback = true ∧ ∃ i, rates.index? o.rate = some i := by
  obtain ⟨ho, hcandidate⟩ := Bool.and_eq_true_iff.1 h
  exact ⟨ho, Option.isSome_iff_exists.1 hcandidate⟩

/-- Other outcomes are passed over. -/
theorem record_of_not_counts (h : counts rates o = false) :
    s.record o = .ok s := by
  unfold record
  split
  · next i hi =>
      rw [if_neg]
      intro ho
      rw [counts_of (RateSet.index?_eq_some_iff.1 hi) ho] at h
      cases h
  · rfl

theorem forget_of_not_counts (h : counts rates o = false) :
    s.forget o = s := by
  unfold forget
  split
  · next i hi =>
      rw [if_neg]
      intro ho
      rw [counts_of (RateSet.index?_eq_some_iff.1 hi) ho] at h
      cases h
  · rfl

/-- All that recording can do. -/
theorem record_cases (h : s.record o = .ok s') :
    (counts rates o = false ∧ s' = s)
      ∨ ∃ i e, rates.get i = o.rate ∧ o.status.isFeedback = true
        ∧ (s.table.get i).count o = .ok e
        ∧ s' = { s with
          table := s.table.set i e
          totalAcked := s.totalAcked + if o.status = .acked then 1 else 0
          outdated := true } := by
  cases hcounts : counts rates o with
  | false =>
      cases (record_of_not_counts hcounts).symm.trans h
      exact .inl ⟨rfl, rfl⟩
  | true =>
      obtain ⟨ho, i, hi⟩ := exists_of_counts hcounts
      obtain ⟨e, hcount, hs'⟩ := record_eq_ok hi ho h
      exact .inr ⟨i, e, RateSet.index?_eq_some_iff.1 hi, ho, hcount, hs'⟩

/-- All that forgetting can do. -/
theorem forget_cases (s : SampleRate rates) (o : Outcome) :
    (counts rates o = false ∧ s.forget o = s)
      ∨ ∃ i, rates.get i = o.rate ∧ o.status.isFeedback = true
        ∧ s.forget o = { s with
          table := s.table.set i ((s.table.get i).uncount o)
          totalAcked :=
            if o.status = .acked then s.totalAcked - 1 else s.totalAcked
          outdated := true } := by
  cases hcounts : counts rates o with
  | false => exact .inl ⟨rfl, forget_of_not_counts hcounts⟩
  | true =>
      obtain ⟨ho, i, hi⟩ := exists_of_counts hcounts
      refine .inr ⟨i, RateSet.index?_eq_some_iff.1 hi, ho, ?_⟩
      unfold forget
      rw [hi]
      exact if_pos ho

/-- Recording does not count as a decision, nor does forgetting. -/
theorem decisions_of_record (h : s.record o = .ok s') :
    s'.decisions = s.decisions := by
  rcases record_cases h with ⟨-, rfl⟩ | ⟨i, e, -, -, -, rfl⟩
  · rfl
  · rfl

theorem decisions_of_forget (s : SampleRate rates) (o : Outcome) :
    (s.forget o).decisions = s.decisions := by
  rcases s.forget_cases o with ⟨-, heq⟩ | ⟨i, -, -, heq⟩
  · rw [heq]
  · rw [heq]

variable {n m : Nat} {requests before after : List Request}

/-- With room for its outcome, a request is answered unless the counter of
decisions is full. -/
theorem Bounded.handle (h : s.Bounded n m) (request : Request)
    (hreports : n + (if request.isReport then 1 else 0) < counterLimit) :
    Upholds (s.handle request)
      (Bounded (n + if request.isReport then 1 else 0)
        (m + if request.isSelect then 1 else 0))
      fun fault => fault = .counterOverflow ∧ request.isSelect = true
        ∧ counterLimit ≤ s.decisions + 1 := by
  cases request with
  | record o =>
      show Upholds (s.record o) _ _
      cases ho : o.status.isFeedback with
      | true =>
          have hreport : (Request.record o).isReport = true := ho
          rw [if_pos hreport] at hreports ⊢
          exact (h.record hreports o).weaken fun _ hnone => hnone.elim
      | false =>
          have hreport : ¬ (Request.record o).isReport = true := by
            simp [Request.isReport, ho]
          rw [record_of_not_counts (by simp [counts, ho]), if_neg hreport]
          exact h
  | forget o => exact h.forget o
  | select now =>
      by_cases hroom : s.decisions + 1 < counterLimit
      · obtain ⟨s', hselect, -⟩ := s.exists_select now hroom
        show Upholds (s.select now >>= fun p => .ok p.1) _ _
        rw [hselect]
        exact h.of_select hselect
      · have hfull := Nat.not_lt.1 hroom
        rw [handle_select_of_full hfull]
        exact ⟨rfl, rfl, hfull⟩
  | reset => exact bounded_of_empty rfl rfl rfl

-- ================================================================ runs

theorem run_cons {request : Request} :
    s.run (request :: requests)
      = s.handle request >>= fun s' => s'.run requests :=
  List.foldlM_cons

theorem run_append :
    s.run (before ++ after) = s.run before >>= fun s' => s'.run after :=
  List.foldlM_append

/-- How many decisions of a run are made in a state with a property. -/
def countSelects (p : SampleRate rates → Bool) (s : SampleRate rates) :
    List Request → Nat
  | [] => 0
  | request :: rest =>
      match s.handle request with
      | .ok s' =>
          (if request.isSelect && p s then 1 else 0) + s'.countSelects p rest
      | .error _ => 0

/-- A run that can be computed exists, with a property of its end that can
be tested. -/
theorem exists_run (s₀ : SampleRate rates) (requests : List Request)
    (P : SampleRate rates → Prop) [DecidablePred P]
    (h : (s₀.run requests).toOption.map (fun s => Decidable.decide (P s))
      = some true) :
    ∃ s, s₀.run requests = .ok s ∧ P s := by
  obtain ⟨s, hrun, hP⟩ := Option.map_eq_some_iff.1 h
  rw [toOption_eq_some_iff] at hrun
  exact ⟨s, hrun, of_decide_eq_true hP⟩

/-- What every request keeps in step with the requests so far, a run
keeps. -/
theorem run_keeps {P : List Request → SampleRate rates → Prop}
    (h : P [] s) (hrun : s.run requests = .ok s')
    (hstep : ∀ done s request s', P done s → s.handle request = .ok s' →
      P (done ++ [request]) s') : P requests s' := by
  rw [← List.nil_append requests]
  exact foldlM_eq_ok_accounts h hrun hstep

/-- With room for its outcomes, a run ends, unless it comes to a decision
with a full counter. -/
theorem Bounded.run (h : s.Bounded n m) (requests : List Request)
    (hreports : n + requests.countP Request.isReport < counterLimit) :
    Upholds (s.run requests)
      (Bounded (n + requests.countP Request.isReport)
        (m + requests.countP Request.isSelect))
      fun fault => fault = .counterOverflow ∧ ∃ before now after s₁,
        requests = before ++ .select now :: after ∧ s.run before = .ok s₁
          ∧ counterLimit ≤ s₁.decisions + 1 := by
  induction requests generalizing s n m with
  | nil => exact h
  | cons request rest ih =>
      rw [List.countP_cons] at hreports
      have hfirst := h.handle request (by omega)
      rw [run_cons]
      cases hhandle : s.handle request with
      | error fault =>
          obtain ⟨hfault, hselect, hfull⟩ := hfirst.of_eq_error hhandle
          refine ⟨hfault, ?_⟩
          cases request with
          | select now => exact ⟨[], now, rest, s, rfl, rfl, hfull⟩
          | record o => cases hselect
          | forget o => cases hselect
          | reset => cases hselect
      | ok s' =>
          have hrest := ih (hfirst.of_eq_ok hhandle) (by omega)
          refine hrest.mono ?_ ?_
          · intro s'' h''
            rw [List.countP_cons, List.countP_cons]
            convert h'' using 1 <;> omega
          · intro fault hfault
            obtain ⟨hfault, before, now, after, s₁, rfl, hbefore, hfull⟩ :=
              hfault
            refine ⟨hfault, request :: before, now, after, s₁, rfl, ?_, hfull⟩
            rw [run_cons, hhandle]
            exact hbefore

/-- No request counts as more than the decision it is for. -/
theorem decisions_of_handle {request : Request}
    (h : s.handle request = .ok s') :
    s'.decisions ≤ s.decisions + if request.isSelect then 1 else 0 := by
  cases request with
  | record o => exact (decisions_of_record h).le
  | forget o =>
      cases h
      exact (decisions_of_forget s o).le
  | select now =>
      cases (handle_select_eq_ok.1 h).2 with
      | search _ => exact Nat.le_refl _
      | sample _ _ => exact Nat.zero_le _
      | fastest _ _ => exact Nat.le_refl _
  | reset =>
      cases h
      exact Nat.zero_le _

theorem decisions_of_run (hrun : s.run requests = .ok s') :
    s'.decisions ≤ s.decisions + requests.countP Request.isSelect := by
  refine run_keeps (P := fun done s' => s'.decisions
    ≤ s.decisions + done.countP Request.isSelect) (Nat.le_refl _) hrun ?_
  intro done s₁ request s₂ h hhandle
  have hstep := decisions_of_handle hhandle
  rw [List.countP_append, List.countP_singleton]
  omega

variable {order : BootstrapOrder} {generator : Generator} {made : Instant}

theorem decisions_start (rates : RateSet) (order : BootstrapOrder)
    (generator : Generator) (made : Instant) :
    (start rates order generator made).decisions = 0 := rfl

theorem bounded_start (rates : RateSet) (order : BootstrapOrder)
    (generator : Generator) (made : Instant) :
    (start rates order generator made).Bounded 0 0 :=
  bounded_of_empty rfl rfl rfl

/-- With room in its counters, a fresh selector answers every request. -/
theorem exists_run_start (rates : RateSet) (order : BootstrapOrder)
    (generator : Generator) (made : Instant)
    (hreports : requests.countP Request.isReport < counterLimit)
    (hselects : requests.countP Request.isSelect < counterLimit) :
    ∃ s, (start rates order generator made).run requests = .ok s
      ∧ s.decisions ≤ requests.countP Request.isSelect := by
  have hrun :=
    (bounded_start rates order generator made).run requests (by omega)
  cases hresult : (start rates order generator made).run requests with
  | ok s =>
      have hle := decisions_of_run hresult
      rw [decisions_start, Nat.zero_add] at hle
      exact ⟨s, rfl, hle⟩
  | error fault =>
      obtain ⟨-, before, now, after, s₁, rfl, hbefore, hfull⟩ :=
        hrun.of_eq_error hresult
      have hle := decisions_of_run hbefore
      rw [decisions_start] at hle
      rw [List.countP_append, List.countP_cons] at hselects
      simp only [Request.isSelect, if_true] at hselects
      omega

end SampleRate

end LinkAdaptation
