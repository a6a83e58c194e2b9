/-
The counts of selection by average airtime. For every candidate there are
four counts and four byte sums, one of each for all outcomes and for each
kind of report. Recording an outcome and forgetting it touch the same ones,
so at any time they are the counts and the sums of what the history holds.

A count can only leave its range when that many outcomes were recorded, or
that many decisions made.
-/
import LinkAdaptation.Proofs.Selector.History

namespace LinkAdaptation

open LinkAdaptation.Random (Generator)

variable {rates : RateSet} {o : Outcome} {live : List Outcome}

-- ============================================================= entries

namespace SampleRate.Entry

variable {e e' : Entry} {rate : Rate}

/-- An entry that accounts for the outcomes at its rate. -/
structure Accounts (rate : Rate) (live : List Outcome) (e : Entry) :
    Prop where
  sent : Counted (atRate rate) live e.sent e.bytesSent
  acked : Counted (atRateWith rate .acked) live e.acked e.bytesAcked
  naked : Counted (atRateWith rate .naked) live e.naked e.bytesNaked
  timedOut : Counted (atRateWith rate .timedOut) live e.timedOut
    e.bytesTimedOut

theorem accounts_empty (rate : Rate) : Accounts rate [] {} :=
  ⟨.empty _, .empty _, .empty _, .empty _⟩

/-- An outcome at another rate is not counted. -/
theorem Accounts.skip (h : e.Accounts rate live) (hrate : o.rate ≠ rate) :
    e.Accounts rate (live ++ [o]) := by
  obtain ⟨hsent, hacked, hnaked, htimedOut⟩ := h
  exact ⟨hsent.skip (by simpa [atRate] using hrate),
    hacked.skip (by simp [atRateWith, hrate]),
    hnaked.skip (by simp [atRateWith, hrate]),
    htimedOut.skip (by simp [atRateWith, hrate])⟩

/-- Nor is it uncounted. -/
theorem Accounts.pass (h : e.Accounts rate (o :: live))
    (hrate : o.rate ≠ rate) : e.Accounts rate live := by
  obtain ⟨hsent, hacked, hnaked, htimedOut⟩ := h
  exact ⟨hsent.pass (by simpa [atRate] using hrate),
    hacked.pass (by simp [atRateWith, hrate]),
    hnaked.pass (by simp [atRateWith, hrate]),
    htimedOut.pass (by simp [atRateWith, hrate])⟩

theorem Accounts.count (h : e.Accounts rate live) (hrate : o.rate = rate)
    (ho : o.status.isFeedback = true) (hcount : e.count o = .ok e') :
    e'.Accounts rate (live ++ [o]) := by
  obtain ⟨hsent, hacked, hnaked, htimedOut⟩ := h
  obtain ⟨sent, hincrement, hcount⟩ := bind_eq_ok.1 hcount
  obtain ⟨rfl, hroom⟩ := increment_eq_ok_iff.1 hincrement
  have hsent' := hsent.add (o := o) (by simp [atRate, hrate]) hroom
  cases hstatus : o.status with
  | sent =>
      rw [hstatus] at ho
      cases ho
  | acked =>
      rw [hstatus] at hcount
      obtain ⟨acked, hincrement, hcount⟩ := bind_eq_ok.1 hcount
      obtain ⟨rfl, hroom⟩ := increment_eq_ok_iff.1 hincrement
      cases hcount
      exact ⟨hsent', hacked.add (by simp [atRateWith, hrate, hstatus]) hroom,
        hnaked.skip (by simp [atRateWith, hstatus]),
        htimedOut.skip (by simp [atRateWith, hstatus])⟩
  | naked =>
      rw [hstatus] at hcount
      obtain ⟨naked, hincrement, hcount⟩ := bind_eq_ok.1 hcount
      obtain ⟨rfl, hroom⟩ := increment_eq_ok_iff.1 hincrement
      obtain ⟨lossRun, -, hcount⟩ := bind_eq_ok.1 hcount
      cases hcount
      exact ⟨hsent', hacked.skip (by simp [atRateWith, hstatus]),
        hnaked.add (by simp [atRateWith, hrate, hstatus]) hroom,
        htimedOut.skip (by simp [atRateWith, hstatus])⟩
  | timedOut =>
      rw [hstatus] at hcount
      obtain ⟨timedOut, hincrement, hcount⟩ := bind_eq_ok.1 hcount
      obtain ⟨rfl, hroom⟩ := increment_eq_ok_iff.1 hincrement
      obtain ⟨lossRun, -, hcount⟩ := bind_eq_ok.1 hcount
      cases hcount
      exact ⟨hsent', hacked.skip (by simp [atRateWith, hstatus]),
        hnaked.skip (by simp [atRateWith, hstatus]),
        htimedOut.add (by simp [atRateWith, hrate, hstatus]) hroom⟩

/-- Uncounting is the mirror image of counting, at the front. -/
theorem Accounts.uncount (h : e.Accounts rate (o :: live))
    (hrate : o.rate = rate) (ho : o.status.isFeedback = true) :
    (e.uncount o).Accounts rate live := by
  obtain ⟨hsent, hacked, hnaked, htimedOut⟩ := h
  have hsent' := hsent.remove (by simp [atRate, hrate])
  unfold Entry.uncount
  cases hstatus : o.status with
  | sent =>
      rw [hstatus] at ho
      cases ho
  | acked =>
      exact ⟨hsent', hacked.remove (by simp [atRateWith, hrate, hstatus]),
        hnaked.pass (by simp [atRateWith, hstatus]),
        htimedOut.pass (by simp [atRateWith, hstatus])⟩
  | naked =>
      exact ⟨hsent', hacked.pass (by simp [atRateWith, hstatus]),
        hnaked.remove (by simp [atRateWith, hrate, hstatus]),
        htimedOut.pass (by simp [atRateWith, hstatus])⟩
  | timedOut =>
      exact ⟨hsent', hacked.pass (by simp [atRateWith, hstatus]),
        hnaked.pass (by simp [atRateWith, hstatus]),
        htimedOut.remove (by simp [atRateWith, hrate, hstatus])⟩

/-- Bringing averages up to date leaves the counts and the sums. -/
theorem Accounts.refresh (h : e.Accounts rate live) :
    e.refresh.Accounts rate live := by
  obtain ⟨hsent, hacked, hnaked, htimedOut⟩ := h
  exact ⟨hsent.settle, hacked.settle, hnaked, htimedOut⟩

/-- Everything that reports is counted under one kind of report. -/
theorem Accounts.sent_eq (h : e.Accounts rate live)
    (hlive : ∀ o ∈ live, o.status.isFeedback = true) :
    e.sent = e.acked + e.naked + e.timedOut := by
  rw [h.sent.count_eq, h.acked.count_eq, h.naked.count_eq,
    h.timedOut.count_eq]
  clear h
  induction live with
  | nil => rfl
  | cons o rest ih =>
      obtain ⟨ho, hrest⟩ := List.forall_mem_cons.1 hlive
      have hkinds : (if atRate rate o then 1 else 0)
          = (if atRateWith rate .acked o then 1 else 0)
            + (if atRateWith rate .naked o then 1 else 0)
            + if atRateWith rate .timedOut o then 1 else 0 := by
        by_cases hrate : o.rate = rate
        · cases hstatus : o.status with
          | sent =>
              rw [hstatus] at ho
              cases ho
          | acked => simp [atRate, atRateWith, hrate, hstatus]
          | naked => simp [atRate, atRateWith, hrate, hstatus]
          | timedOut => simp [atRate, atRateWith, hrate, hstatus]
        · simp [atRate, atRateWith, hrate]
      have ih := ih hrest
      simp only [List.countP_cons]
      omega

/-- No count of an entry is above a number. -/
structure Within (n : Nat) (e : Entry) : Prop where
  sent : e.sent ≤ n
  acked : e.acked ≤ n
  naked : e.naked ≤ n
  timedOut : e.timedOut ≤ n
  lossRun : e.lossRun ≤ n

variable {n : Nat}

theorem within_empty (n : Nat) : Within n {} :=
  ⟨Nat.zero_le n, Nat.zero_le n, Nat.zero_le n, Nat.zero_le n, Nat.zero_le n⟩

theorem Within.mono (h : e.Within n) {n' : Nat} (hle : n ≤ n') :
    e.Within n' := by
  obtain ⟨hsent, hacked, hnaked, htimedOut, hrun⟩ := h
  exact ⟨hsent.trans hle, hacked.trans hle, hnaked.trans hle,
    htimedOut.trans hle, hrun.trans hle⟩

/-- With room for one more, an outcome is counted. -/
theorem Within.count (h : e.Within n) (hroom : n + 1 < counterLimit)
    (o : Outcome) :
    Upholds (e.count o) (Within (n + 1)) fun _ => False := by
  obtain ⟨hsent, hacked, hnaked, htimedOut, hrun⟩ := h
  have hacked' := Nat.le_succ_of_le hacked
  have hnaked' := Nat.le_succ_of_le hnaked
  have htimedOut' := Nat.le_succ_of_le htimedOut
  apply (increment_succeeds hsent hroom).bind
  rintro _ rfl
  have hsent' := Nat.succ_le_succ hsent
  cases o.status with
  | sent => exact ⟨hsent', hacked', hnaked', htimedOut', Nat.le_succ_of_le hrun⟩
  | acked =>
      apply (increment_succeeds hacked hroom).bind
      rintro _ rfl
      exact ⟨hsent', Nat.succ_le_succ hacked, hnaked', htimedOut',
        Nat.zero_le _⟩
  | naked =>
      apply (increment_succeeds hnaked hroom).bind
      rintro _ rfl
      apply (increment_succeeds hrun hroom).bind
      rintro _ rfl
      exact ⟨hsent', hacked', Nat.succ_le_succ hnaked, htimedOut',
        Nat.succ_le_succ hrun⟩
  | timedOut =>
      apply (increment_succeeds htimedOut hroom).bind
      rintro _ rfl
      apply (increment_succeeds hrun hroom).bind
      rintro _ rfl
      exact ⟨hsent', hacked', hnaked', Nat.succ_le_succ htimedOut,
        Nat.succ_le_succ hrun⟩

theorem Within.uncount (h : e.Within n) (o : Outcome) :
    (e.uncount o).Within n := by
  obtain ⟨hsent, hacked, hnaked, htimedOut, hrun⟩ := h
  have hsent' := (Nat.sub_le e.sent 1).trans hsent
  unfold Entry.uncount
  cases o.status with
  | sent => exact ⟨hsent', hacked, hnaked, htimedOut, hrun⟩
  | acked =>
      exact ⟨hsent', (Nat.sub_le _ 1).trans hacked, hnaked, htimedOut, hrun⟩
  | naked =>
      exact ⟨hsent', hacked, (Nat.sub_le _ 1).trans hnaked, htimedOut, hrun⟩
  | timedOut =>
      exact ⟨hsent', hacked, hnaked, (Nat.sub_le _ 1).trans htimedOut, hrun⟩

end SampleRate.Entry

-- =========================================================== selectors

namespace SampleRate

variable {s s' : SampleRate rates} {n m : Nat}

/-- What ending the runs of losses and averaging keep, a refresh keeps. -/
theorem refresh_keeps {P : SampleRate rates → Prop} (h : P s) (now : Instant)
    (hreset : ∀ s, P s → P (s.resetLosses now))
    (haverage : ∀ s, P s →
      P { s with table := s.table.map Entry.refresh, outdated := false }) :
    P (s.refresh now) := by
  unfold refresh
  split
  · apply haverage
    split
    · exact hreset s h
    · exact h
  · exact h

/-- Whether an outcome is an acknowledgement at a candidate. -/
def isAck (rates : RateSet) (o : Outcome) : Bool :=
  o.status = .acked ∧ o.rate ∈ rates.toList

/-- A selector that accounts for a history of reports. -/
structure Accounts (live : List Outcome) (s : SampleRate rates) : Prop where
  entry : ∀ i, (s.table.get i).Accounts (rates.get i) live
  totalAcked : s.totalAcked = live.countP (isAck rates)
  reports : ∀ o ∈ live, o.status.isFeedback = true

theorem accounts_of_empty (htable : s.table = .fill rates {})
    (htotal : s.totalAcked = 0) : s.Accounts [] := by
  refine ⟨?_, htotal, nofun⟩
  intro i
  rw [htable, Table.get_fill]
  exact Entry.accounts_empty _

/-- Recording counts an outcome at its candidate, and its acknowledgement
in the total. -/
theorem record_eq_ok {i : rates.Index} (hi : rates.index? o.rate = some i)
    (ho : o.status.isFeedback = true) (h : s.record o = .ok s') :
    ∃ e, (s.table.get i).count o = .ok e
      ∧ s' = { s with
        table := s.table.set i e
        totalAcked := s.totalAcked + if o.status = .acked then 1 else 0
        outdated := true } := by
  unfold record at h
  rw [hi] at h
  dsimp only at h
  rw [if_pos ho] at h
  obtain ⟨e, hcount, h⟩ := bind_eq_ok.1 h
  refine ⟨e, hcount, ?_⟩
  split at h
  · next hacked =>
      obtain ⟨totalAcked, hincrement, h⟩ := bind_eq_ok.1 h
      obtain ⟨rfl, -⟩ := increment_eq_ok_iff.1 hincrement
      cases h
      rw [if_pos hacked]
  · next hacked =>
      obtain ⟨totalAcked, hsame, h⟩ := bind_eq_ok.1 h
      cases hsame
      cases h
      rw [if_neg hacked, Nat.add_zero]

theorem isAck_of_candidate {i : rates.Index}
    (hi : rates.index? o.rate = some i) :
    isAck rates o = decide (o.status = .acked) := by
  have hmem : o.rate ∈ rates.toList := by
    rw [← RateSet.index?_eq_some_iff.1 hi]
    exact RateSet.get_mem i
  simp [isAck, hmem]

theorem isAck_of_stranger (hnone : rates.index? o.rate = none) :
    ¬ isAck rates o = true := by
  intro h
  obtain ⟨-, hmem⟩ := of_decide_eq_true h
  obtain ⟨i, hi⟩ := RateSet.mem_toList_iff.1 hmem
  exact RateSet.ne_get_of_index?_eq_none hnone i hi.symm

theorem Accounts.record (h : s.Accounts live)
    (ho : o.status.isFeedback = true) (hrecord : s.record o = .ok s') :
    s'.Accounts (live ++ [o]) := by
  obtain ⟨hentry, htotal, hreports⟩ := h
  have hreports' : ∀ a ∈ live ++ [o], a.status.isFeedback = true := by
    simpa [or_imp, forall_and] using ⟨hreports, ho⟩
  cases hi : rates.index? o.rate with
  | some i =>
      have hrate := RateSet.index?_eq_some_iff.1 hi
      obtain ⟨e, hcount, rfl⟩ := record_eq_ok hi ho hrecord
      refine ⟨Table.forall_get_set ?_ ?_, ?_, hreports'⟩
      · intro j hj
        exact (hentry j).skip (RateSet.ne_get_of_index?_eq_some hi hj)
      · exact (hentry i).count hrate.symm ho hcount
      · show s.totalAcked + _ = _
        rw [htotal, List.countP_append, List.countP_singleton,
          isAck_of_candidate hi]
        simp
  | none =>
      unfold SampleRate.record at hrecord
      rw [hi] at hrecord
      cases hrecord
      refine ⟨?_, ?_, hreports'⟩
      · intro j
        exact (hentry j).skip (RateSet.ne_get_of_index?_eq_none hi j)
      · rw [htotal, List.countP_append, List.countP_singleton,
          if_neg (isAck_of_stranger hi), Nat.add_zero]

theorem Accounts.forget (h : s.Accounts (o :: live)) :
    (s.forget o).Accounts live := by
  obtain ⟨hentry, htotal, hreports⟩ := h
  obtain ⟨ho, hreports⟩ := List.forall_mem_cons.1 hreports
  unfold SampleRate.forget
  cases hi : rates.index? o.rate with
  | some i =>
      have hrate := RateSet.index?_eq_some_iff.1 hi
      dsimp only
      rw [if_pos ho]
      refine ⟨Table.forall_get_set ?_ ?_, ?_, hreports⟩
      · intro j hj
        exact (hentry j).pass (RateSet.ne_get_of_index?_eq_some hi hj)
      · exact (hentry i).uncount hrate.symm ho
      · show (if o.status = .acked then s.totalAcked - 1 else s.totalAcked) = _
        rw [htotal, List.countP_cons, isAck_of_candidate hi]
        by_cases hacked : o.status = .acked <;> simp [hacked]
  | none =>
      dsimp only
      refine ⟨?_, ?_, hreports⟩
      · intro j
        exact (hentry j).pass (RateSet.ne_get_of_index?_eq_none hi j)
      · rw [htotal, List.countP_cons_of_neg (isAck_of_stranger hi)]

theorem Accounts.refresh (h : s.Accounts live) (now : Instant) :
    (s.refresh now).Accounts live := by
  apply refresh_keeps h
  · -- ending runs of losses touches no count
    intro s h
    obtain ⟨hentry, htotal, hreports⟩ := h
    refine ⟨?_, htotal, hreports⟩
    intro i
    obtain ⟨hsent, hacked, hnaked, htimedOut⟩ := hentry i
    unfold resetLosses
    rw [Table.get_map]
    exact ⟨hsent, hacked, hnaked, htimedOut⟩
  · intro s h
    obtain ⟨hentry, htotal, hreports⟩ := h
    refine ⟨?_, htotal, hreports⟩
    intro i
    rw [Table.get_map]
    exact (hentry i).refresh

theorem Accounts.select (h : s.Accounts live) {now : Instant} {rate : Rate}
    (hselect : s.select now = .ok (s', rate)) : s'.Accounts live := by
  have hrefreshed := h.refresh now
  obtain ⟨decisions, -, hselect⟩ := bind_eq_ok.1 hselect
  cases hselect
  split
  · exact ⟨hrefreshed.entry, hrefreshed.totalAcked, hrefreshed.reports⟩
  · split
    · exact ⟨hrefreshed.entry, hrefreshed.totalAcked, hrefreshed.reports⟩
    · exact ⟨hrefreshed.entry, hrefreshed.totalAcked, hrefreshed.reports⟩

/-- A selector that recorded at most `n` outcomes and made at most `m`
decisions. -/
structure Bounded (n m : Nat) (s : SampleRate rates) : Prop where
  entry : ∀ i, (s.table.get i).Within n
  totalAcked : s.totalAcked ≤ n
  decisions : s.decisions ≤ m

theorem bounded_of_empty (htable : s.table = .fill rates {})
    (htotal : s.totalAcked = 0) (hdecisions : s.decisions = 0) :
    s.Bounded n m := by
  refine ⟨?_, by rw [htotal]; exact Nat.zero_le n,
    by rw [hdecisions]; exact Nat.zero_le m⟩
  intro i
  rw [htable, Table.get_fill]
  exact Entry.within_empty n

theorem Bounded.mono (h : s.Bounded n m) {n' : Nat} (hle : n ≤ n') :
    s.Bounded n' m :=
  ⟨fun i => (h.entry i).mono hle, h.totalAcked.trans hle, h.decisions⟩

theorem Bounded.record (h : s.Bounded n m) (hroom : n + 1 < counterLimit)
    (o : Outcome) :
    Upholds (s.record o) (Bounded (n + 1) m) fun _ => False := by
  have hsame := h.mono (Nat.le_succ n)
  obtain ⟨hentry, htotal, hdecisions⟩ := h
  unfold SampleRate.record
  split
  · next i _ =>
      split
      · apply ((hentry i).count hroom o).bind
        intro e he
        have htable : ∀ j, ((s.table.set i e).get j).Within (n + 1) :=
          Table.forall_get_set (fun j _ => hsame.entry j) he
        split
        · apply (increment_succeeds htotal hroom).bind
          rintro _ rfl
          exact ⟨htable, Nat.succ_le_succ htotal, hdecisions⟩
        · exact ⟨htable, hsame.totalAcked, hdecisions⟩
      · exact hsame
  · exact hsame

theorem Bounded.forget (h : s.Bounded n m) (o : Outcome) :
    (s.forget o).Bounded n m := by
  obtain ⟨hentry, htotal, hdecisions⟩ := h
  unfold SampleRate.forget
  split
  · next i _ =>
      split
      · refine ⟨Table.forall_get_set (fun j _ => hentry j)
          ((hentry i).uncount o), ?_, hdecisions⟩
        show (if o.status = .acked then s.totalAcked - 1 else s.totalAcked) ≤ n
        split
        · exact (Nat.sub_le _ 1).trans htotal
        · exact htotal
      · exact ⟨hentry, htotal, hdecisions⟩
  · exact ⟨hentry, htotal, hdecisions⟩

theorem Bounded.refresh (h : s.Bounded n m) (now : Instant) :
    (s.refresh now).Bounded n m := by
  apply refresh_keeps h
  · intro s h
    refine ⟨?_, h.totalAcked, h.decisions⟩
    intro i
    obtain ⟨hsent, hacked, hnaked, htimedOut, -⟩ := h.entry i
    unfold resetLosses
    rw [Table.get_map]
    exact ⟨hsent, hacked, hnaked, htimedOut, Nat.zero_le n⟩
  · intro s h
    refine ⟨?_, h.totalAcked, h.decisions⟩
    intro i
    obtain ⟨hsent, hacked, hnaked, htimedOut, hrun⟩ := h.entry i
    rw [Table.get_map]
    exact ⟨hsent, hacked, hnaked, htimedOut, hrun⟩

/-- A decision that is made is one more. -/
theorem Bounded.of_select (h : s.Bounded n m) {now : Instant} {rate : Rate}
    (hselect : s.select now = .ok (s', rate)) : s'.Bounded n (m + 1) := by
  obtain ⟨hentry, htotal, hdecisions⟩ := h.refresh now
  obtain ⟨decisions, hincrement, hselect⟩ := bind_eq_ok.1 hselect
  obtain ⟨rfl, -⟩ := increment_eq_ok_iff.1 hincrement
  cases hselect
  have hdecisions' := Nat.succ_le_succ hdecisions
  split
  · exact ⟨hentry, htotal, hdecisions'⟩
  · split
    · exact ⟨hentry, htotal, Nat.zero_le _⟩
    · exact ⟨hentry, htotal, hdecisions'⟩

theorem Bounded.select (h : s.Bounded n m) (hroom : m + 1 < counterLimit)
    (now : Instant) :
    Upholds (s.select now) (fun p => p.1.Bounded n (m + 1))
      fun _ => False := by
  have hdecided : Upholds (s.select now) (fun _ => True) fun _ => False :=
    (increment_succeeds (h.refresh now).decisions hroom).bind
      fun _ _ => trivial
  exact hdecided.of_result fun _ hselect => h.of_select hselect

end SampleRate

-- =========================================================== baselines

namespace Baseline

variable {b b' : Baseline rates} {n m : Nat} {selector : Selector rates}

/-- What holds of a selector by average airtime and of a history. -/
def ByAirtime (P : SampleRate rates → List Outcome → Prop)
    (selector : Selector rates) (live : List Outcome) : Prop :=
  ∃ s, selector = .sampleRate s ∧ P s live

/-- The selector accounts for the history. -/
def Accounted (selector : Selector rates) (live : List Outcome) : Prop :=
  ByAirtime (fun s live => s.Accounts live) selector live

/-- The selector is bounded, whatever the history. -/
def Bounded (n m : Nat) (selector : Selector rates) (live : List Outcome) :
    Prop :=
  ByAirtime (fun s _ => s.Bounded n m) selector live

theorem ByAirtime.forget {P : SampleRate rates → List Outcome → Prop}
    (hforget : ∀ s o live, P s (o :: live) → P (s.forget o) live)
    (h : ByAirtime P selector (o :: live)) :
    ByAirtime P (selector.forget o) live := by
  obtain ⟨s, rfl, hs⟩ := h
  exact ⟨s.forget o, rfl, hforget s o live hs⟩

/-- Every operation keeps the counts at what the history holds. -/
theorem kept_accounted :
    Kept fun (selector : Selector rates) live => Accounted selector live := by
  constructor
  · intro selector selector' live o h ho hrecord
    obtain ⟨s, rfl, haccounts⟩ := h
    obtain ⟨s', hcounted, rfl⟩ := map_eq_ok.1 hrecord
    exact ⟨s', rfl, haccounts.record ho hcounted⟩
  · intro selector o live h
    exact h.forget fun _ _ _ => SampleRate.Accounts.forget
  · intro selector selector' live now rate h hselect
    obtain ⟨s, rfl, haccounts⟩ := h
    obtain ⟨⟨s', drawn⟩, hdrawn, hselected⟩ := bind_eq_ok.1 hselect
    cases hselected
    exact ⟨s', rfl, haccounts.select hdrawn⟩
  · intro selector live h
    obtain ⟨s, rfl, -⟩ := h
    exact ⟨s.reset, rfl, SampleRate.accounts_of_empty rfl rfl⟩

-- ============================================================ answering

theorem Bounded.expire (h : Bounded n m b.selector b.history)
    (now : Instant) :
    Bounded n m (b.expire now).selector (b.expire now).history :=
  expire_keeps (fun _ _ _ h => h.forget fun _ o _ h => h.forget o) h now

theorem Bounded.record (h : Bounded n m selector live)
    (hroom : n + 1 < counterLimit) (o : Outcome) (live' : List Outcome) :
    Upholds (selector.record o) (Bounded (n + 1) m · live')
      fun _ => False := by
  obtain ⟨s, rfl, hbounded⟩ := h
  apply (hbounded.record hroom o).map
  intro s' h'
  exact ⟨s', rfl, h'⟩

theorem Bounded.select (h : Bounded n m selector live)
    (hroom : m + 1 < counterLimit) (now : Instant) :
    Upholds (selector.select now) (fun p => Bounded n (m + 1) p.1 live)
      fun _ => False := by
  obtain ⟨s, rfl, hbounded⟩ := h
  apply (hbounded.select hroom now).bind
  intro p hp
  exact ⟨p.1, rfl, hp⟩

/-- With room in its counters, a baseline answers every request. -/
theorem Bounded.handle (h : Bounded n m b.selector b.history)
    (request : Request)
    (hreports : n + (if request.isReport then 1 else 0) < counterLimit)
    (hselects : m + (if request.isSelect then 1 else 0) < counterLimit) :
    Upholds (b.handle request)
      (fun p => Bounded (n + if request.isReport then 1 else 0)
        (m + if request.isSelect then 1 else 0) p.1.selector p.1.history)
      fun _ => False := by
  cases request with
  | insert o =>
      by_cases ho : o.status.isFeedback = true
      · have hreport : (Request.insert o).isReport = true := ho
        rw [if_pos hreport] at hreports ⊢
        have hinsert : Upholds (b.insert o)
            (fun b' => Bounded (n + 1) m b'.selector b'.history)
            fun _ => False := by
          unfold Baseline.insert
          rw [if_pos ho]
          apply (h.record hreports o (b.history ++ [o])).bind
          intro selector hrecorded
          exact hrecorded.expire (b := ⟨selector, b.history ++ [o],
            b.retention⟩) o.time
        apply hinsert.bind
        intro b' h'
        exact h'
      · have hreport : ¬ (Request.insert o).isReport = true := ho
        rw [if_neg hreport]
        show Upholds (do return (← b.insert o, none)) _ _
        rw [insert_of_not_feedback ho]
        exact h
  | expire now => exact h.expire now
  | setRetention retention => exact h
  | select now =>
      have hselect : Upholds (b.select now)
          (fun p => Bounded n (m + 1) p.1.selector p.1.history)
          fun _ => False := by
        apply (h.select hselects now).bind
        intro p hp
        exact hp
      apply hselect.bind
      intro p hp
      exact hp
  | reset =>
      obtain ⟨s, hs, -⟩ := h
      refine ⟨s.reset, ?_, SampleRate.bounded_of_empty rfl rfl rfl⟩
      show b.selector.reset = _
      rw [hs]
      rfl

theorem Bounded.run (h : Bounded n m b.selector b.history)
    (requests : List Request)
    (hreports : n + requests.countP Request.isReport < counterLimit)
    (hselects : m + requests.countP Request.isSelect < counterLimit) :
    Upholds (b.run requests) (fun _ => True) fun _ => False := by
  induction requests generalizing b n m with
  | nil => exact trivial
  | cons request rest ih =>
      rw [List.countP_cons] at hreports hselects
      apply (h.handle request (by omega) (by omega)).bind
      intro p hp
      apply (ih hp (by omega) (by omega)).bind
      intro q _
      exact trivial

-- ============================================================= results

/-- Selection by average airtime, asked anything by way of a baseline that
keeps outcomes for some time: with room in its counters it answers, and its
counts and byte sums are those of the outcomes in the history. While the
retention stays and outcomes arrive in the order of time, the history after
an arrival is all that has arrived since the last reset and is young then,
unless an expiry since looked further ahead. -/
theorem sampleRate_accounts_history (order : BootstrapOrder)
    (generator : Generator) (now : Instant) (retention : Duration)
    (requests : List Request)
    (hrecorded : requests.countP Request.isReport < counterLimit) :
    let fresh := (start .sampleRate rates order generator now).setRetention
      retention
    (requests.countP Request.isSelect < counterLimit →
      ∃ b answers, fresh.run requests = .ok (b, answers))
    ∧ ∀ b answers, fresh.run requests = .ok (b, answers) →
      ∃ s, b.selector = .sampleRate s ∧ s.Accounts b.history
        ∧ (∀ i, (s.table.get i).sent = (s.table.get i).acked
          + (s.table.get i).naked + (s.table.get i).timedOut)
        ∧ ∀ o b', o.status.isFeedback = true → b.insert o = .ok b' →
          (∀ other, .setRetention other ∈ requests → other = retention) →
          InOrder ((past requests).arrivals ++ [o]) →
          (∀ t ∈ (past requests).expiries, t ≤ o.time) →
          b'.history = ((past requests).arrivals ++ [o]).filter
              (isYoung retention o.time)
            ∧ (0 < retention.nanos → o ∈ b'.history) := by
  intro fresh
  have hbounded : Bounded 0 0 fresh.selector fresh.history :=
    ⟨_, rfl, SampleRate.bounded_of_empty rfl rfl rfl⟩
  have haccounted : Accounted fresh.selector fresh.history :=
    ⟨_, rfl, SampleRate.accounts_of_empty rfl rfl⟩
  have hremembers : Remembers retention .empty fresh :=
    remembers_of_history_nil rfl rfl
  constructor
  · intro hselects
    obtain ⟨⟨b, answers⟩, hrun, -⟩ := (hbounded.run requests (by omega)
      (by omega)).exists_ok
    exact ⟨b, answers, hrun⟩
  · intro b answers hrun
    obtain ⟨s, hs, haccounts⟩ := kept_accounted.run haccounted hrun
    refine ⟨s, hs, haccounts, ?_, ?_⟩
    · intro i
      exact (haccounts.entry i).sent_eq haccounts.reports
    · intro o b' ho hinsert hsame hordered hexpiries
      have hhistory := (hremembers.run hrun hsame).history_of_insert ho
        hordered hexpiries hinsert
      refine ⟨hhistory, ?_⟩
      intro hpos
      rw [hhistory, List.mem_filter]
      refine ⟨by simp, ?_⟩
      unfold isYoung
      simpa using hpos

/-- An acknowledgement, a loss, an outcome at no candidate and one that
reports nothing, then one that arrives when the first has aged. -/
theorem sampleRate_accounts_history_aging :
    let rates : RateSet := ⟨#[10, 20], by decide, by decide⟩
    let sent (n : Int) (rate : Rate) (status : Status) : Outcome :=
      ⟨⟨n * 1000000000⟩, 0, rate, 1000, status⟩
    let fresh : Baseline rates := (start .sampleRate rates .lowestFirst
      (.ofSeed 0) ⟨0⟩).setRetention defaultRetention
    let requests : List Request :=
      [ .insert (sent 0 10 .acked), .insert (sent 1 20 .naked)
      , .insert (sent 2 55 .acked), .insert (sent 3 10 .sent)
      , .select ⟨4000000000⟩, .expire ⟨4000000000⟩ ]
    let o := sent 11 20 .timedOut
    requests.countP Request.isReport < counterLimit
      ∧ ∃ b answers b' s, fresh.run requests = .ok (b, answers)
        ∧ b.insert o = .ok b' ∧ b.selector = .sampleRate s
        ∧ s.Accounts b.history
        ∧ InOrder ((past requests).arrivals ++ [o])
        ∧ (∀ t ∈ (past requests).expiries, t ≤ o.time)
        ∧ b'.history = ((past requests).arrivals ++ [o]).filter
          (isYoung defaultRetention o.time)
        ∧ b'.history = [sent 1 20 .naked, sent 2 55 .acked, o]
        ∧ o ∈ b'.history := by
  intro rates sent fresh requests o
  have hrecorded : requests.countP Request.isReport < counterLimit := by
    decide
  have hordered : InOrder ((past requests).arrivals ++ [o]) := by decide
  have hexpiries : ∀ t ∈ (past requests).expiries, t ≤ o.time := by decide
  have hran : ((fresh.run requests).toOption.bind fun p =>
      (p.1.insert o).toOption).isSome = true := by decide +kernel
  obtain ⟨b', hran⟩ := Option.isSome_iff_exists.1 hran
  obtain ⟨⟨b, answers⟩, hrun, hinsert⟩ := Option.bind_eq_some_iff.1 hran
  rw [toOption_eq_some_iff] at hrun hinsert
  obtain ⟨-, hresults⟩ := sampleRate_accounts_history .lowestFirst
    (.ofSeed 0) ⟨0⟩ defaultRetention requests hrecorded
  obtain ⟨s, hs, haccounts, -, hinserted⟩ := hresults b answers hrun
  have hsame : ∀ other, .setRetention other ∈ requests →
      other = defaultRetention := by
    intro other hother
    simp [requests] at hother
  obtain ⟨hhistory, hself⟩ := hinserted o b' rfl hinsert hsame hordered
    hexpiries
  refine ⟨hrecorded, b, answers, b', s, hrun, hinsert, hs, haccounts,
    hordered, hexpiries, hhistory, ?_, hself (by decide)⟩
  rw [hhistory]
  decide

/-- What is young at an arrival need not be in the history, if an expiry
looked further ahead; and what has aged may be, after an outcome that
reports nothing. -/
theorem history_not_all_young :
    let rates : RateSet := ⟨#[10, 20], by decide, by decide⟩
    let sent (n : Int) (status : Status) : Outcome :=
      ⟨⟨n * 1000000000⟩, 0, 10, 1000, status⟩
    let fresh : Baseline rates :=
      start .sampleRate rates .lowestFirst (.ofSeed 1) ⟨0⟩
    let requests : List Request :=
      [.insert (sent 0 .acked), .expire ⟨20000000000⟩]
    let arrived : List Outcome := [sent 0 .acked, sent 5 .acked]
    (∃ b answers b', fresh.run requests = .ok (b, answers)
        ∧ b.insert (sent 5 .acked) = .ok b' ∧ InOrder arrived
        ∧ b'.history ≠ arrived.filter
          (isYoung defaultRetention (sent 5 .acked).time))
      ∧ ∃ b answers b',
        fresh.run [.insert (sent 0 .acked)] = .ok (b, answers)
        ∧ b.insert (sent 20 .sent) = .ok b'
        ∧ b'.history ≠ [sent 0 .acked].filter
          (isYoung defaultRetention (sent 20 .sent).time) := by
  intro rates sent fresh requests arrived
  have hahead : ((fresh.run requests).toOption.bind fun p =>
      (p.1.insert (sent 5 .acked)).toOption).map (·.history)
      = some [sent 5 .acked] := by decide +kernel
  have hsilent : ((fresh.run [.insert (sent 0 .acked)]).toOption.bind fun p =>
      (p.1.insert (sent 20 .sent)).toOption).map (·.history)
      = some [sent 0 .acked] := by decide +kernel
  constructor
  · obtain ⟨b', hahead, hhistory⟩ := Option.map_eq_some_iff.1 hahead
    obtain ⟨⟨b, answers⟩, hrun, hinsert⟩ := Option.bind_eq_some_iff.1 hahead
    rw [toOption_eq_some_iff] at hrun hinsert
    refine ⟨b, answers, b', hrun, hinsert, by decide, ?_⟩
    rw [hhistory]
    decide
  · obtain ⟨b', hsilent, hhistory⟩ := Option.map_eq_some_iff.1 hsilent
    obtain ⟨⟨b, answers⟩, hrun, hinsert⟩ := Option.bind_eq_some_iff.1 hsilent
    rw [toOption_eq_some_iff] at hrun hinsert
    refine ⟨b, answers, b', hrun, hinsert, ?_⟩
    rw [hhistory]
    decide

end Baseline

end LinkAdaptation
