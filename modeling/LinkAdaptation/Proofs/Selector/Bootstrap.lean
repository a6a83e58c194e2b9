/-
The search for a first usable candidate, over whole runs. What speaks
against a candidate is its run of losses: those recorded at it since an
acknowledgement was, since the selector was reset, and since all runs were
ended because they had lasted too long. Forgetting does not shorten a run.

All of this is said of the requests so far, told latest first: whether
anything changed since the last decision, when all runs were last ended,
and which requests came after. The selector follows each of them one
request at a time.
-/
import LinkAdaptation.Proofs.RateSet
import LinkAdaptation.Proofs.Selector.Decisions

namespace LinkAdaptation

open LinkAdaptation.Random (Generator)
open Selector (Request)

-- ========================================================== searching

/-- The rate that is looked at first. -/
def BootstrapOrder.first (rates : RateSet) : BootstrapOrder → Rate
  | .lowestFirst => rates.lowest
  | .highestFirst => rates.highest

/-- Whether a rate is looked at before another. -/
def BootstrapOrder.IsBefore (rate other : Rate) : BootstrapOrder → Prop
  | .lowestFirst => rate < other
  | .highestFirst => other < rate

/-- What a search finds among the candidates: the first that is admitted,
or the first of all when none is. -/
inductive BootstrapOrder.Finds (rates : RateSet) (admitted : Rate → Prop)
    (order : BootstrapOrder) : Rate → Prop where
  | admitted {rate : Rate} (hmem : rate ∈ rates.toList) (h : admitted rate)
      (hbefore : ∀ other ∈ rates.toList, order.IsBefore other rate →
        ¬ admitted other) : Finds rates admitted order rate
  | nothing (h : ∀ rate ∈ rates.toList, ¬ admitted rate) :
      Finds rates admitted order (order.first rates)

variable {rates : RateSet} {order : BootstrapOrder} {rate other : Rate}

theorem BootstrapOrder.IsBefore.asymm (h : order.IsBefore rate other) :
    ¬ order.IsBefore other rate := by
  cases order with
  | lowestFirst => exact UInt16.lt_asymm h
  | highestFirst => exact UInt16.lt_asymm h

/-- A list of all candidates in the order of a search finds what the search
does. -/
theorem BootstrapOrder.finds_of_find? {l : List rates.Index}
    {start : rates.Index} {usable : rates.Index → Bool}
    {admitted : Rate → Prop} (hall : ∀ i, i ∈ l)
    (hl : l.Pairwise fun i j => order.IsBefore (rates.get i) (rates.get j))
    (hstart : rates.get start = order.first rates)
    (hadmitted : ∀ i, usable i = true ↔ admitted (rates.get i)) :
    order.Finds rates admitted
      (rates.get ((l.find? usable).getD start)) := by
  cases hfind : l.find? usable with
  | none =>
      rw [Option.getD_none, hstart]
      refine .nothing ?_
      intro rate hmem h
      obtain ⟨i, rfl⟩ := RateSet.mem_toList_iff.1 hmem
      exact List.find?_eq_none.1 hfind i (hall i) ((hadmitted i).2 h)
  | some i =>
      obtain ⟨hi, before, after, rfl, hbefore⟩ :=
        List.find?_eq_some_iff_append.1 hfind
      refine .admitted (RateSet.get_mem i) ((hadmitted i).1 hi) ?_
      intro other hmem hother h
      obtain ⟨j, rfl⟩ := RateSet.mem_toList_iff.1 hmem
      -- what is looked at before stands ahead, where nothing is usable
      rcases List.mem_append.1 (hall j) with hj | hj
      · have hunusable := hbefore j hj
        rw [(hadmitted j).2 h] at hunusable
        cases hunusable
      · rcases List.mem_cons.1 hj with rfl | hj
        · exact hother.asymm hother
        · have hlater := List.pairwise_cons.1 (List.pairwise_append.1 hl).2.1
          exact hother.asymm (hlater.1 j hj)

namespace SampleRate

variable {s s' : SampleRate rates} {now : Instant}

/-- The first usable candidate is what a search finds. -/
theorem finds_firstUsable {admitted : Rate → Prop}
    (hadmitted : ∀ i, (s.table.get i).isUsable = true
      ↔ admitted (rates.get i)) :
    s.order.Finds rates admitted (rates.get s.firstUsable) := by
  have hascending : rates.indices.Pairwise (rates.get · < rates.get ·) :=
    (List.pairwise_lt_finRange rates.size).imp RateSet.get_lt_get
  unfold firstUsable
  cases s.order with
  | lowestFirst =>
      exact BootstrapOrder.finds_of_find? List.mem_finRange hascending rfl
        hadmitted
  | highestFirst =>
      exact BootstrapOrder.finds_of_find?
        (fun i => List.mem_reverse.2 (List.mem_finRange i))
        (List.pairwise_reverse.2 hascending) rfl hadmitted

-- =========================================================== the past

/-- Whether a request changes what is known of some candidate. -/
def isAccounted (rates : RateSet) : Request → Bool
  | .record o | .forget o => counts rates o
  | .select _ => false
  | .reset => true

/-- Whether something changed since the last decision. Before the first,
the selector itself is new. -/
def changed (rates : RateSet) (past : List Request) : Bool :=
  !past.any Request.isSelect
    || (past.takeWhile fun request => !request.isSelect).any
      (isAccounted rates)

/-- When all runs of losses were last ended for having lasted too long, or
else when the selector was made. They are ended by a decision, if something
changed. -/
def latestLossReset (rates : RateSet) (made : Instant) :
    List Request → Instant
  | [] => made
  | .select now :: past =>
      if changed rates past
          ∧ lossResetInterval < now.since (latestLossReset rates made past) then
        now
      else
        latestLossReset rates made past
  | _ :: past => latestLossReset rates made past

/-- Whether a decision ends all runs of losses. -/
def isLossReset (rates : RateSet) (made now : Instant)
    (past : List Request) : Bool :=
  changed rates past
    ∧ lossResetInterval < now.since (latestLossReset rates made past)

/-- Whether a request ends the run of losses at a rate. -/
def endsLosses (rates : RateSet) (made : Instant) (rate : Rate)
    (past : List Request) : Request → Bool
  | .record o => o.status = .acked ∧ o.rate = rate
  | .forget _ => false
  | .select now => isLossReset rates made now past
  | .reset => true

/-- The requests since one that ended the run of losses at a rate. -/
def sinceLossEnd (rates : RateSet) (made : Instant) (rate : Rate) :
    List Request → List Request
  | [] => []
  | request :: past =>
      if endsLosses rates made rate past request then []
      else request :: sinceLossEnd rates made rate past

/-- Whether a request records a loss at a rate. -/
def isLossAt (rate : Rate) : Request → Bool
  | .record o => o.status.isLoss ∧ o.rate = rate
  | _ => false

/-- The losses recorded at a rate since something ended their run. -/
def lossesOf (rates : RateSet) (made : Instant) (rate : Rate)
    (past : List Request) : Nat :=
  (sinceLossEnd rates made rate past).countP (isLossAt rate)

variable {made : Instant} {past : List Request} {request : Request}

theorem changed_cons (hrequest : request.isSelect = false) :
    changed rates (request :: past)
      = (isAccounted rates request || changed rates past) := by
  unfold changed
  rw [List.any_cons, hrequest, Bool.false_or,
    List.takeWhile_cons_of_pos (by rw [hrequest]; rfl), List.any_cons]
  cases isAccounted rates request <;> simp

theorem changed_select : changed rates (.select now :: past) = false := by
  simp [changed, Request.isSelect]

theorem latestLossReset_select :
    latestLossReset rates made (.select now :: past)
      = if isLossReset rates made now past then now
        else latestLossReset rates made past := by
  rw [latestLossReset]
  unfold isLossReset
  simp only [decide_eq_true_eq]

theorem latestLossReset_cons (hrequest : request.isSelect = false) :
    latestLossReset rates made (request :: past)
      = latestLossReset rates made past := by
  cases request with
  | select now => cases hrequest
  | record o => rfl
  | forget o => rfl
  | reset => rfl

theorem lossesOf_cons :
    lossesOf rates made rate (request :: past)
      = if endsLosses rates made rate past request then 0
        else lossesOf rates made rate past
          + if isLossAt rate request then 1 else 0 := by
  unfold lossesOf
  rw [sinceLossEnd]
  split
  · rfl
  · rw [List.countP_cons]

-- =========================================================== following

/-- A selector that follows the past in all that a search depends on. -/
structure Follows (order : BootstrapOrder) (made : Instant)
    (past : List Request) (s : SampleRate rates) : Prop where
  order_eq : s.order = order
  outdated : s.outdated = changed rates past
  lastLossReset : s.lastLossReset = latestLossReset rates made past
  lossRun : ∀ i, (s.table.get i).lossRun
    = lossesOf rates made (rates.get i) past

variable {generator : Generator} {o : Outcome}

theorem follows_start (rates : RateSet) (order : BootstrapOrder)
    (generator : Generator) (made : Instant) :
    (start rates order generator made).Follows order made [] := by
  refine ⟨rfl, rfl, rfl, ?_⟩
  intro i
  unfold start
  rw [Table.get_fill]
  rfl

/-- A request that changes no entry leaves the selector in step. -/
theorem Follows.pass (h : s.Follows order made past)
    (hselect : request.isSelect = false)
    (haccounted : isAccounted rates request = false)
    (hlosses : ∀ i, lossesOf rates made (rates.get i) (request :: past)
      = lossesOf rates made (rates.get i) past) :
    s.Follows order made (request :: past) := by
  refine ⟨h.order_eq, ?_, ?_, ?_⟩
  · rw [changed_cons hselect, haccounted, Bool.false_or, h.outdated]
  · rw [latestLossReset_cons hselect, h.lastLossReset]
  · intro i
    rw [hlosses, h.lossRun i]

/-- One that changes an entry leaves it in step if the run of losses is
right there, and nothing is said of other candidates. -/
theorem Follows.set (h : s.Follows order made past)
    (hselect : request.isSelect = false)
    (haccounted : isAccounted rates request = true) {i : rates.Index}
    {e : Entry} {n : Nat}
    (hself : e.lossRun = lossesOf rates made (rates.get i) (request :: past))
    (hothers : ∀ j, j ≠ i →
      lossesOf rates made (rates.get j) (request :: past)
        = lossesOf rates made (rates.get j) past) :
    Follows order made (request :: past)
      { s with table := s.table.set i e, totalAcked := n, outdated := true } := by
  refine ⟨h.order_eq, ?_, ?_, ?_⟩
  · rw [changed_cons hselect, haccounted, Bool.true_or]
  · rw [latestLossReset_cons hselect]
    exact h.lastLossReset
  · refine Table.forall_get_set (P := fun j (e : Entry) => e.lossRun
      = lossesOf rates made (rates.get j) (request :: past)) ?_ hself
    intro j hj
    rw [hothers j hj, h.lossRun j]

theorem Follows.record (h : s.Follows order made past)
    (hrecord : s.record o = .ok s') :
    s'.Follows order made (.record o :: past) := by
  rcases record_cases hrecord with
    ⟨hcounts, rfl⟩ | ⟨i, e, hi, ho, hcount, rfl⟩
  · refine h.pass rfl hcounts fun i => ?_
    -- an outcome that is not counted is neither kind of report here
    have hsilent : rates.get i = o.rate → o.status = .sent := by
      intro hi
      cases hstatus : o.status with
      | sent => rfl
      | acked => simp [counts_of hi (by rw [hstatus]; rfl)] at hcounts
      | naked => simp [counts_of hi (by rw [hstatus]; rfl)] at hcounts
      | timedOut => simp [counts_of hi (by rw [hstatus]; rfl)] at hcounts
    rw [lossesOf_cons]
    by_cases hi : o.rate = rates.get i
    · simp [endsLosses, isLossAt, hsilent hi.symm, Status.isLoss]
    · simp [endsLosses, isLossAt, hi]
  · have haccounted : isAccounted rates (.record o) = true := counts_of hi ho
    refine h.set rfl haccounted ?_ ?_
    · rw [(Entry.rest_of_count hcount).1, h.lossRun i, lossesOf_cons]
      simp [endsLosses, isLossAt, hi]
    · intro j hj
      have hother : o.rate ≠ rates.get j := fun heq =>
        hj (RateSet.get_injective (hi.trans heq)).symm
      simp [lossesOf_cons, endsLosses, isLossAt, hother]

/-- Forgetting leaves the runs of losses. -/
theorem lossesOf_forget :
    lossesOf rates made rate (.forget o :: past)
      = lossesOf rates made rate past := by
  rw [lossesOf_cons]
  rfl

theorem Follows.forget (h : s.Follows order made past) (o : Outcome) :
    (s.forget o).Follows order made (.forget o :: past) := by
  rcases s.forget_cases o with ⟨hcounts, heq⟩ | ⟨i, hi, ho, heq⟩
  · rw [heq]
    exact h.pass rfl hcounts fun _ => lossesOf_forget
  · have haccounted : isAccounted rates (.forget o) = true := counts_of hi ho
    rw [heq]
    refine h.set rfl haccounted ?_ fun _ _ => lossesOf_forget
    rw [(Entry.rest_uncount _ _).1, h.lossRun i, lossesOf_forget]

theorem Follows.reset (h : s.Follows order made past) :
    s.reset.Follows order made (.reset :: past) := by
  refine ⟨h.order_eq, ?_, h.lastLossReset, ?_⟩
  · rw [changed_cons rfl]
    rfl
  · intro i
    unfold SampleRate.reset
    rw [Table.get_fill]
    rfl

/-- All runs of losses are ended when that is due, but only if something
changed. -/
theorem Follows.isLossReset_eq (h : s.Follows order made past) :
    isLossReset rates made now past
      = (s.outdated && s.isLossResetDue now) := by
  unfold isLossReset isLossResetDue
  rw [h.outdated, h.lastLossReset]
  simp

theorem Follows.lossRun_refresh (h : s.Follows order made past)
    (i : rates.Index) :
    ((s.refresh now).table.get i).lossRun
      = lossesOf rates made (rates.get i) (.select now :: past) := by
  rw [lossesOf_cons, endsLosses, h.isLossReset_eq, get_refresh, ← h.lossRun i]
  cases s.outdated with
  | false => rfl
  | true =>
      cases s.isLossResetDue now with
      | false => rfl
      | true => rfl

theorem Follows.decides (h : s.Follows order made past)
    (hdecides : s.Decides now s') :
    s'.Follows order made (.select now :: past) := by
  obtain ⟨htable, houtdated, hlast, -, horder⟩ := hdecides.table_eq
  refine ⟨horder.trans h.order_eq, ?_, ?_, ?_⟩
  · rw [houtdated, changed_select]
    unfold refresh
    split
    · rfl
    · next hsettled => simpa using hsettled
  · rw [hlast, latestLossReset_select, h.isLossReset_eq, ← h.lastLossReset]
    unfold refresh
    cases s.outdated with
    | false => rfl
    | true =>
        cases s.isLossResetDue now with
        | false => rfl
        | true => rfl
  · intro i
    rw [htable]
    exact h.lossRun_refresh i

theorem Follows.handle (h : s.Follows order made past)
    (hhandle : s.handle request = .ok s') :
    s'.Follows order made (request :: past) := by
  cases request with
  | record o => exact h.record hhandle
  | forget o =>
      cases hhandle
      exact h.forget o
  | select now => exact h.decides (handle_select_eq_ok.1 hhandle).2
  | reset =>
      cases hhandle
      exact h.reset

/-- With nothing acknowledged, a decision finds the first candidate whose
losses are few. -/
theorem Follows.finds (h : s.Follows order made past)
    (hdecides : s.Decides now s') (hunacked : s.totalAcked = 0) :
    order.Finds rates
      (lossesOf rates made · (.select now :: past) < maxLossRun)
      (rates.get s'.current) := by
  cases hdecides with
  | search _ =>
      have horder : (s.refresh now).order = order :=
        (s.sameCourse_refresh now).order.trans h.order_eq
      rw [← horder]
      apply finds_firstUsable
      intro i
      unfold Entry.isUsable
      rw [h.lossRun_refresh, decide_eq_true_iff]
  | sample hacked _ => exact absurd hunacked hacked
  | fastest hacked _ => exact absurd hunacked hacked

-- ============================================================= results

/-- While nothing acknowledged is accounted, a decision goes to the first
candidate, in the order of the search, with few losses since an
acknowledgement at it, a reset, or an end to all runs of losses, and to the
first of all when every candidate has many. Forgetting takes no losses
away. All runs are ended at the decisions that come long enough after they
last were, provided that something changed since the decision before. -/
theorem search_goes_by_losses (order : BootstrapOrder) (generator : Generator)
    (made now : Instant) (requests : List Request)
    (hreports : requests.countP Request.isReport < counterLimit)
    (hselects : requests.countP Request.isSelect + 1 < counterLimit) :
    let past := requests.reverse
    ∃ s s', (start rates order generator made).run requests = .ok s
      ∧ s.select now = .ok (s', rates.get s'.current)
      ∧ (s.totalAcked = 0 → order.Finds rates
          (lossesOf rates made · (.select now :: past) < maxLossRun)
          (rates.get s'.current))
      ∧ (∀ i, (s.table.get i).lossRun = lossesOf rates made (rates.get i) past)
      ∧ (∀ o i, ((s.forget o).table.get i).lossRun = (s.table.get i).lossRun)
      ∧ s.lastLossReset = latestLossReset rates made past
      ∧ s'.lastLossReset
        = (if isLossReset rates made now past then now else s.lastLossReset)
      ∧ ∀ i, (s'.table.get i).lossRun
        = if isLossReset rates made now past then 0
          else (s.table.get i).lossRun := by
  intro past
  obtain ⟨s, hrun, hdecisions⟩ := exists_run_start rates order generator made
    hreports (by omega)
  obtain ⟨s', hselect, hdecides⟩ := s.exists_select now (by omega)
  have hfollows : s.Follows order made past := by
    refine run_keeps (P := fun done s => s.Follows order made done.reverse)
      (follows_start rates order generator made) hrun ?_
    intro done s request s' h hhandle
    rw [List.reverse_append]
    exact h.handle hhandle
  have hfollows' := hfollows.decides hdecides
  refine ⟨s, s', hrun, hselect, hfollows.finds hdecides, hfollows.lossRun, ?_,
    hfollows.lastLossReset, ?_, ?_⟩
  · intro o i
    rw [(hfollows.forget o).lossRun, lossesOf_forget, hfollows.lossRun]
  · rw [hfollows'.lastLossReset, latestLossReset_select,
      hfollows.lastLossReset]
  · intro i
    rw [hfollows'.lossRun, lossesOf_cons, hfollows.lossRun]
    rfl

/-- Four losses keep the slowest candidate from being found, forgotten or
not, until all runs of losses are ended. -/
theorem search_goes_by_losses_aged :
    let rates : RateSet := ⟨#[10, 20], by decide, by decide⟩
    let lost : Outcome := ⟨⟨0⟩, 0, 10, 1000, .naked⟩
    let requests : List Request :=
      .select ⟨0⟩ :: List.replicate 4 (.record lost) ++ [.select ⟨0⟩]
        ++ List.replicate 4 (.forget lost)
    let now : Instant := ⟨10000000001⟩
    requests.countP Request.isReport < counterLimit
      ∧ requests.countP Request.isSelect + 1 < counterLimit
      ∧ lossesOf rates ⟨0⟩ 10 requests.reverse = 4
      ∧ isLossReset rates ⟨0⟩ now requests.reverse = true
      ∧ ∃ s s', (start rates .lowestFirst (.ofSeed 0) ⟨0⟩).run requests = .ok s
        ∧ rates.get s.current = 20
        ∧ s.select now = .ok (s', 10)
        ∧ s'.lastLossReset = now := by
  intro rates lost requests now
  have hreports : requests.countP Request.isReport < counterLimit := by decide
  have hselects : requests.countP Request.isSelect + 1 < counterLimit := by
    decide
  have hreset : isLossReset rates ⟨0⟩ now requests.reverse = true := by
    decide +kernel
  obtain ⟨s, s', hrun, hselect, hfinds, -, -, -, hlast, -⟩ :=
    @search_goes_by_losses rates .lowestFirst (.ofSeed 0) ⟨0⟩ now requests
      hreports hselects
  obtain ⟨s₁, hrun₁, hunacked, hcurrent⟩ :=
    exists_run (start rates .lowestFirst (.ofSeed 0) ⟨0⟩) requests
      (fun s => s.totalAcked = 0 ∧ rates.get s.current = 20)
      (by decide +kernel)
  cases hrun.symm.trans hrun₁
  refine ⟨hreports, hselects, by decide +kernel, hreset, s, s', hrun, hcurrent,
    ?_, ?_⟩
  · rw [hselect]
    generalize rates.get s'.current = rate at hfinds
    cases hfinds hunacked with
    | nothing hnone => exact absurd (by decide +kernel) (hnone 10 (by decide))
    | admitted hmem h hbefore =>
        have hmem : rate ∈ [10, 20] := hmem
        simp only [List.mem_cons, List.not_mem_nil, or_false] at hmem
        rcases hmem with rfl | rfl
        · rfl
        · have hfirst := hbefore 10 (by decide) (by decide : (10 : Rate) < 20)
          exact absurd (by decide +kernel) hfirst
  · rw [hlast, if_pos hreset]

end SampleRate

end LinkAdaptation
