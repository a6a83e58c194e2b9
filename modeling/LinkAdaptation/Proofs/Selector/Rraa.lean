/-
Robust rate adaptation without its bookkeeping. The selector keeps counts
and byte sums for every candidate, goes back on them as outcomes are
forgotten, and computes loss shares only when something has changed since.
Here stands the plain algorithm beside it: it keeps the outcomes alone, and
when a window ends it counts those of the current candidate afresh. Asked
the same, both answer the same, as long as fewer outcomes are live at once
than a counter can count.

What carries this is an invariant: the counts of every candidate are those
of the live outcomes, and a loss share that is not marked as outdated is
the share of the live outcomes. It follows that no counter is ever taken
below zero, and that no decision is made from an old share.
-/
import LinkAdaptation.Proofs.Selector.History

namespace LinkAdaptation

open LinkAdaptation.Random (Generator)

variable {rates : RateSet}

-- ================================================= the plain algorithm

/-- The share of bytes lost at a rate: everything, while nothing was
sent. -/
def lossShare (live : List Outcome) (rate : Rate) : Float :=
  let sent := bytesOf (atRate rate) live
  let acked := bytesOf (atRateWith rate .acked) live
  if sent = 0 then 1.0 else (sent - acked).toFloat / sent.toFloat

/-- Robust rate adaptation that keeps the live outcomes and nothing that is
computed from them. -/
structure PlainRraa (rates : RateSet) where
  live : List Outcome
  retention : Duration
  remaining : Nat
  current : rates.Index

namespace PlainRraa

/-- Packets in the window of a candidate: at least one. -/
def windowOf (window : Rate → Nat) (i : rates.Index) : Nat :=
  max (window (rates.get i)) 1

/-- A fresh one, on the slowest candidate. -/
def start (rates : RateSet) (window : Rate → Nat) : PlainRraa rates :=
  { live := []
    retention := Baseline.defaultRetention
    remaining := windowOf window rates.bottom
    current := rates.bottom }

/-- Where the end of a window leads. -/
def next (p : PlainRraa rates) : rates.Index :=
  let share := lossShare p.live (rates.get p.current)
  let used := 0 < p.live.countP (atRate (rates.get p.current))
  if Rraa.tolerableLoss rates p.current < share ∧ used then
    Rraa.down p.current
  else if share < Rraa.promisingLoss rates p.current ∧ used then
    Rraa.up p.current
  else
    p.current

/-- One packet more in the window, or a new window when it was the last. -/
def select (window : Rate → Nat) (p : PlainRraa rates) : PlainRraa rates :=
  if p.remaining ≤ 1 then
    { p with current := p.next, remaining := windowOf window p.next }
  else
    { p with remaining := p.remaining - 1 }

/-- Drops outcomes from the front up to the first young one. -/
def expire (p : PlainRraa rates) (now : Instant) : PlainRraa rates :=
  { p with live := p.live.dropWhile fun o =>
      !Baseline.isYoung p.retention now o }

/-- The plain algorithm after a request, and the rate if one was decided. -/
def handle (window : Rate → Nat) (p : PlainRraa rates) :
    Baseline.Request → PlainRraa rates × Option Rate
  | .insert o =>
      if o.status.isFeedback then
        (expire { p with live := p.live ++ [o] } o.time, none)
      else
        (p, none)
  | .expire now => (p.expire now, none)
  | .setRetention retention => ({ p with retention }, none)
  | .select _ => (p.select window, some (rates.get (p.select window).current))
  | .reset => ({ start rates window with retention := p.retention }, none)

/-- The plain algorithm after a list of requests, and the answers. -/
def run (window : Rate → Nat) (p : PlainRraa rates) :
    List Baseline.Request → PlainRraa rates × List (Option Rate)
  | [] => (p, [])
  | request :: rest =>
      let (p, answer) := p.handle window request
      let (p, answers) := p.run window rest
      (p, answer :: answers)

/-- The most outcomes that are live at once in a run. One that arrives is
live before others make room. -/
def peak (window : Rate → Nat) (p : PlainRraa rates) :
    List Baseline.Request → Nat
  | [] => p.live.length
  | request :: rest =>
      max (p.live.length + if request.isReport then 1 else 0)
        ((p.handle window request).1.peak window rest)

end PlainRraa

-- ============================================================= entries

namespace Rraa.Entry

open PlainRraa (windowOf)

variable {window : Rate → Nat} {live : List Outcome} {o : Outcome}
  {i : rates.Index} {e : Entry}

/-- What never changes about an entry: its window and its thresholds. -/
def Fixed (window : Rate → Nat) (i : rates.Index) (e : Entry) : Prop :=
  e.window = windowOf window i ∧ e.tolerable = tolerableLoss rates i
    ∧ e.promising = promisingLoss rates i

/-- An entry that has counted the live outcomes of its candidate. -/
structure Tracks (window : Rate → Nat) (live : List Outcome)
    (i : rates.Index) (e : Entry) : Prop where
  sent : Counted (atRate (rates.get i)) live e.sent e.bytesSent
  acked : Counted (atRateWith (rates.get i) .acked) live e.acked e.bytesAcked
  fixed : e.Fixed window i

theorem Tracks.skip (h : e.Tracks window live i) (hi : o.rate ≠ rates.get i) :
    e.Tracks window (live ++ [o]) i := by
  obtain ⟨hsent, hacked, hfixed⟩ := h
  exact ⟨hsent.skip (by simpa [atRate] using hi),
    hacked.skip (by simp [atRateWith, hi]), hfixed⟩

theorem Tracks.pass (h : e.Tracks window (o :: live) i)
    (hi : o.rate ≠ rates.get i) : e.Tracks window live i := by
  obtain ⟨hsent, hacked, hfixed⟩ := h
  exact ⟨hsent.pass (by simpa [atRate] using hi),
    hacked.pass (by simp [atRateWith, hi]), hfixed⟩

/-- It is counted, unless as many outcomes are live as a counter can count. -/
theorem Tracks.count (h : e.Tracks window live i) (hi : o.rate = rates.get i) :
    Upholds (e.count o) (fun e' => e'.Tracks window (live ++ [o]) i)
      fun _ => counterLimit ≤ live.length + 1 := by
  obtain ⟨hsent, hacked, hfixed⟩ := h
  have hsent_le : e.sent ≤ live.length := by
    rw [hsent.count_eq]
    exact List.countP_le_length
  have hacked_le : e.acked ≤ live.length := by
    rw [hacked.count_eq]
    exact List.countP_le_length
  apply ((increment_or_full e.sent).weaken fun _ hfull =>
    hfull.trans (Nat.succ_le_succ hsent_le)).bind
  rintro _ ⟨rfl, hroom⟩
  have hsent' := hsent.add (o := o) (by simp [atRate, hi]) hroom
  dsimp only
  split
  · next hstatus =>
      apply ((increment_or_full e.acked).weaken fun _ hfull =>
        hfull.trans (Nat.succ_le_succ hacked_le)).bind
      rintro _ ⟨rfl, hroom'⟩
      exact ⟨hsent', hacked.add (by simp [atRateWith, hi, hstatus]) hroom',
        hfixed⟩
  · next hstatus =>
      exact ⟨hsent', hacked.skip (by simp [atRateWith, hstatus]), hfixed⟩

theorem Tracks.uncount (h : e.Tracks window (o :: live) i)
    (hi : o.rate = rates.get i) : (e.uncount o).Tracks window live i := by
  obtain ⟨hsent, hacked, hfixed⟩ := h
  have hsent' := hsent.remove (by simp [atRate, hi])
  unfold Entry.uncount
  dsimp only
  split
  · next hstatus =>
      exact ⟨hsent', hacked.remove (by simp [atRateWith, hi, hstatus]),
        hfixed⟩
  · next hstatus =>
      exact ⟨hsent', hacked.pass (by simp [atRateWith, hstatus]), hfixed⟩

/-- A share that is brought up to date is the share of the live
outcomes. -/
theorem Tracks.lossRatio_refresh (h : e.Tracks window live i) :
    e.refresh.lossRatio = lossShare live (rates.get i) := by
  have hsent := Counted.bytesOf_lt h.sent.count_lt
  have hle : bytesOf (atRateWith (rates.get i) .acked) live
      ≤ bytesOf (atRate (rates.get i)) live := by
    apply bytesOf_mono
    intro o ho
    unfold atRate atRateWith at *
    simp_all
  unfold Entry.refresh lossShare
  dsimp only
  rw [h.sent.settle_eq, h.acked.settle_eq, h.sent.bytes_eq, h.acked.bytes_eq,
    toFloat_sub hle hsent]
  simp only [zero_lt_toFloat_iff hsent]
  by_cases hzero : bytesOf (atRate (rates.get i)) live = 0
  · simp [hzero]
  · simp [hzero, Nat.pos_of_ne_zero hzero]

theorem Tracks.refresh (h : e.Tracks window live i) :
    e.refresh.Tracks window live i := by
  obtain ⟨hsent, hacked, hfixed⟩ := h
  exact ⟨hsent.settle, hacked.settle, hfixed⟩

end Rraa.Entry

-- =========================================================== selectors

theorem lossShare_skip {live : List Outcome} {o : Outcome} {rate : Rate}
    (h : o.rate ≠ rate) : lossShare (live ++ [o]) rate = lossShare live rate := by
  unfold lossShare
  rw [bytesOf_concat_of_neg (by simpa [atRate] using h),
    bytesOf_concat_of_neg (by simp [atRateWith, h])]

theorem lossShare_pass {live : List Outcome} {o : Outcome} {rate : Rate}
    (h : o.rate ≠ rate) : lossShare (o :: live) rate = lossShare live rate := by
  unfold lossShare
  rw [bytesOf_cons_of_neg (by simpa [atRate] using h),
    bytesOf_cons_of_neg (by simp [atRateWith, h])]

namespace Rraa

open PlainRraa (windowOf)

variable {window : Rate → Nat} {live : List Outcome} {o : Outcome}
  {s s' : Rraa rates} {p : PlainRraa rates}

/-- A selector whose counts are those of the live outcomes, and whose
shares are theirs unless they are marked as outdated. -/
structure Tracks (window : Rate → Nat) (live : List Outcome)
    (s : Rraa rates) : Prop where
  entry : ∀ i, (s.table.get i).Tracks window live i
  share : s.outdated = false →
    ∀ i, (s.table.get i).lossRatio = lossShare live (rates.get i)
  reports : ∀ o ∈ live, o.status.isFeedback = true
  remaining_pos : 1 ≤ s.remaining

theorem tracks_start (rates : RateSet) (window : Rate → Nat) :
    (start rates window).Tracks window [] := by
  refine ⟨?_, nofun, nofun, Nat.le_max_right _ _⟩
  intro i
  unfold start
  dsimp only
  rw [Table.get_ofFn]
  exact ⟨.empty _, .empty _, rfl, rfl, rfl⟩

theorem Tracks.reset (h : s.Tracks window live) :
    s.reset.Tracks window [] := by
  have hfixed (i : rates.Index) := (h.entry i).fixed
  refine ⟨?_, nofun, nofun, ?_⟩
  · intro i
    unfold Rraa.reset
    rw [Table.get_map]
    exact ⟨.empty _, .empty _, hfixed i⟩
  · show 1 ≤ (s.table.get rates.bottom).window
    rw [(hfixed rates.bottom).1]
    exact Nat.le_max_right _ _

/-- Two selectors are in the same window of the same candidate. -/
def SameWindow (s s' : Rraa rates) : Prop :=
  s'.remaining = s.remaining ∧ s'.current = s.current

/-- An outcome is recorded, unless as many are live as a counter can
count. -/
theorem Tracks.record_or_full (h : s.Tracks window live)
    (ho : o.status.isFeedback = true) :
    Upholds (s.record o)
      (fun s' => s'.Tracks window (live ++ [o]) ∧ s.SameWindow s')
      fun _ => counterLimit ≤ live.length + 1 := by
  obtain ⟨hentry, hshare, hreports, hpos⟩ := h
  have hreports' : ∀ a ∈ live ++ [o], a.status.isFeedback = true := by
    simpa [or_imp, forall_and] using ⟨hreports, ho⟩
  unfold Rraa.record
  cases hi : rates.index? o.rate with
  | some i =>
      have hrate := RateSet.index?_eq_some_iff.1 hi
      dsimp only
      rw [if_pos ho]
      apply ((hentry i).count hrate.symm).bind
      intro e he
      refine ⟨⟨Table.forall_get_set ?_ he, nofun, hreports', hpos⟩, rfl, rfl⟩
      intro j hj
      exact (hentry j).skip (RateSet.ne_get_of_index?_eq_some hi hj)
  | none =>
      have hother := RateSet.ne_get_of_index?_eq_none hi
      refine ⟨⟨?_, ?_, hreports', hpos⟩, rfl, rfl⟩
      · intro j
        exact (hentry j).skip (hother j)
      · intro hcurrent j
        rw [hshare hcurrent j, lossShare_skip (hother j)]

/-- With room for one more live outcome, it is recorded. -/
theorem Tracks.record (h : s.Tracks window live)
    (ho : o.status.isFeedback = true)
    (hroom : live.length + 1 < counterLimit) :
    Upholds (s.record o)
      (fun s' => s'.Tracks window (live ++ [o]) ∧ s.SameWindow s')
      fun _ => False :=
  (h.record_or_full ho).weaken fun _ hfull => Nat.not_lt.2 hfull hroom

theorem Tracks.forget (h : s.Tracks window (o :: live)) :
    (s.forget o).Tracks window live ∧ s.SameWindow (s.forget o) := by
  obtain ⟨hentry, hshare, hreports, hpos⟩ := h
  obtain ⟨ho, hreports⟩ := List.forall_mem_cons.1 hreports
  unfold Rraa.forget
  cases hi : rates.index? o.rate with
  | some i =>
      have hrate := RateSet.index?_eq_some_iff.1 hi
      dsimp only
      rw [if_pos ho]
      refine ⟨⟨Table.forall_get_set ?_ ((hentry i).uncount hrate.symm), nofun,
        hreports, hpos⟩, rfl, rfl⟩
      intro j hj
      exact (hentry j).pass (RateSet.ne_get_of_index?_eq_some hi hj)
  | none =>
      have hother := RateSet.ne_get_of_index?_eq_none hi
      refine ⟨⟨?_, ?_, hreports, hpos⟩, rfl, rfl⟩
      · intro j
        exact (hentry j).pass (hother j)
      · intro hcurrent j
        rw [hshare hcurrent j, lossShare_pass (hother j)]

/-- After a refresh every share is the share of the live outcomes. -/
theorem Tracks.refresh (h : s.Tracks window live) :
    s.refresh.Tracks window live ∧ s.SameWindow s.refresh
      ∧ ∀ i, (s.refresh.table.get i).lossRatio
        = lossShare live (rates.get i) := by
  obtain ⟨hentry, hshare, hreports, hpos⟩ := h
  unfold Rraa.refresh
  cases hold : s.outdated with
  | true =>
      rw [if_pos rfl]
      have hshares : ∀ i, (Table.get (s.table.map Entry.refresh) i).lossRatio
          = lossShare live (rates.get i) := by
        intro i
        rw [Table.get_map]
        exact (hentry i).lossRatio_refresh
      refine ⟨⟨?_, fun _ => hshares, hreports, hpos⟩, ⟨rfl, rfl⟩, hshares⟩
      intro i
      rw [Table.get_map]
      exact (hentry i).refresh
  | false =>
      rw [if_neg (by simp)]
      exact ⟨⟨hentry, hshare, hreports, hpos⟩, ⟨rfl, rfl⟩, hshare hold⟩

-- =========================================================== decisions

/-- A selector that has tracked what the plain algorithm keeps, in the same
window of the same candidate. -/
structure Agrees (window : Rate → Nat) (p : PlainRraa rates)
    (s : Rraa rates) : Prop where
  tracks : s.Tracks window p.live
  remaining_eq : s.remaining = p.remaining
  current_eq : s.current = p.current

/-- With shares that are up to date, both go to the same candidate. -/
theorem Agrees.next (h : s.Agrees window p)
    (hshare : ∀ i, (s.table.get i).lossRatio
      = lossShare p.live (rates.get i)) : s.next = p.next := by
  obtain ⟨-, htolerable, hpromising⟩ := (h.tracks.entry s.current).fixed
  unfold Rraa.next PlainRraa.next
  dsimp only
  rw [htolerable, hpromising, hshare, (h.tracks.entry s.current).sent.count_eq,
    h.current_eq]
  simp

/-- Both decide for the same candidate, and go on in the same window. -/
theorem Agrees.select (h : s.Agrees window p) :
    s.select.1.Agrees window (p.select window)
      ∧ s.select.2 = rates.get (p.select window).current := by
  obtain ⟨htracks, ⟨hremaining, hcurrent⟩, hshares⟩ := h.tracks.refresh
  have hagrees : s.refresh.Agrees window p :=
    ⟨htracks, hremaining.trans h.remaining_eq, hcurrent.trans h.current_eq⟩
  have hnext := hagrees.next hshares
  obtain ⟨⟨hentry, hshare, hreports, hpos⟩, hremaining, hcurrent⟩ := hagrees
  unfold Rraa.select PlainRraa.select
  dsimp only
  by_cases hlast : p.remaining ≤ 1
  · have hzero : s.refresh.remaining - 1 = 0 := by omega
    have hwindow : (s.refresh.table.get s.refresh.next).window
        = windowOf window p.next := by
      rw [(hentry _).fixed.1, hnext]
    rw [if_pos hzero, if_pos hlast]
    refine ⟨⟨⟨hentry, hshare, hreports, ?_⟩, hwindow, hnext⟩,
      congrArg rates.get hnext⟩
    show 1 ≤ (s.refresh.table.get s.refresh.next).window
    rw [hwindow]
    exact Nat.le_max_right _ _
  · have hmore : ¬ s.refresh.remaining - 1 = 0 := by omega
    rw [if_neg hmore, if_neg hlast]
    refine ⟨⟨⟨hentry, hshare, hreports, Nat.pos_of_ne_zero hmore⟩, ?_,
      hcurrent⟩, congrArg rates.get hcurrent⟩
    show s.refresh.remaining - 1 = p.remaining - 1
    rw [hremaining]

-- ========================================================== forgetting

/-- Forgetting an outcome takes away what was counted, and no more. -/
def Retracts (s : Rraa rates) (o : Outcome) : Prop :=
  ∀ i, rates.index? o.rate = some i → 1 ≤ (s.table.get i).sent
    ∧ (o.status = .acked → 1 ≤ (s.table.get i).acked)

/-- However many outcomes are forgotten from the front of a history, each
takes away what was counted. -/
def RetractsAll (s : Rraa rates) (live : List Outcome) : Prop :=
  ∀ gone o rest, live = gone ++ o :: rest → (gone.foldl forget s).Retracts o

theorem Tracks.retracts (h : s.Tracks window (o :: live)) : s.Retracts o := by
  intro i hi
  have hrate := RateSet.index?_eq_some_iff.1 hi
  refine ⟨(h.entry i).sent.pos (by simp [atRate, hrate]), ?_⟩
  intro hacked
  exact (h.entry i).acked.pos (by simp [atRateWith, hrate, hacked])

theorem Tracks.foldl_forget {gone : List Outcome}
    (h : s.Tracks window (gone ++ live)) :
    (gone.foldl Rraa.forget s).Tracks window live
      ∧ s.SameWindow (gone.foldl Rraa.forget s) := by
  induction gone generalizing s with
  | nil => exact ⟨h, rfl, rfl⟩
  | cons o rest ih =>
      obtain ⟨hforget, hremaining, hcurrent⟩ := Tracks.forget h
      obtain ⟨htracks, hremaining', hcurrent'⟩ := ih hforget
      exact ⟨htracks, hremaining'.trans hremaining,
        hcurrent'.trans hcurrent⟩

theorem Tracks.retractsAll (h : s.Tracks window live) :
    s.RetractsAll live := by
  intro gone o rest hsplit
  rw [hsplit] at h
  exact h.foldl_forget.1.retracts

end Rraa

-- =========================================================== baselines

namespace Baseline

open Rraa (Agrees)

variable {window : Rate → Nat} {b b' : Baseline rates} {p : PlainRraa rates}

/-- A fresh baseline with robust rate adaptation, given every rate's
window. -/
def ofRraa (rates : RateSet) (window : Rate → Nat) : Baseline rates :=
  { selector := .rraa (.start rates window)
    history := []
    retention := defaultRetention }

/-- The windows are those of the schedule that goes by the rate, unless
others are given. -/
theorem start_rraa (rates : RateSet) (order : BootstrapOrder)
    (generator : Generator) (now : Instant) :
    start .rraa rates order generator now
      = ofRraa rates Rraa.defaultWindow := rfl

/-- A baseline with a selector that agrees with the plain algorithm. -/
def Refines (window : Rate → Nat) (p : PlainRraa rates) (b : Baseline rates) :
    Prop :=
  ∃ s, b = ⟨.rraa s, p.live, p.retention⟩ ∧ s.Agrees window p

theorem refines_start (rates : RateSet) (window : Rate → Nat) :
    (ofRraa rates window).Refines window (.start rates window) :=
  ⟨_, rfl, Rraa.tracks_start rates window, rfl, rfl⟩

theorem foldl_forget_rraa (gone : List Outcome) (s : Rraa rates) :
    gone.foldl Selector.forget (.rraa s) = .rraa (gone.foldl Rraa.forget s) := by
  induction gone generalizing s with
  | nil => rfl
  | cons o rest ih => exact ih (s.forget o)

theorem Refines.expire (h : b.Refines window p) (now : Instant) :
    (b.expire now).Refines window (p.expire now) := by
  obtain ⟨s, rfl, htracks, hremaining, hcurrent⟩ := h
  have haged : isAged (⟨.rraa s, p.live, p.retention⟩ : Baseline rates) now
      = fun o => !isYoung p.retention now o := by
    funext o
    exact isAged_eq _ now o
  unfold Baseline.expire PlainRraa.expire
  dsimp only
  rw [haged, foldl_forget_rraa]
  rw [← List.takeWhile_append_dropWhile (l := p.live)
    (p := fun o => !isYoung p.retention now o)] at htracks
  obtain ⟨htracks', hremaining', hcurrent'⟩ := htracks.foldl_forget
  exact ⟨_, rfl, htracks', hremaining'.trans hremaining,
    hcurrent'.trans hcurrent⟩

theorem Refines.insert (h : b.Refines window p) {o : Outcome}
    (ho : o.status.isFeedback = true)
    (hroom : p.live.length + 1 < counterLimit) :
    Upholds (b.insert o)
      (Refines window (PlainRraa.expire { p with live := p.live ++ [o] } o.time))
      fun _ => False := by
  obtain ⟨s, rfl, htracks, hremaining, hcurrent⟩ := h
  unfold Baseline.insert
  rw [if_pos ho]
  apply ((htracks.record ho hroom).map (R := fun selector =>
    Refines window { p with live := p.live ++ [o] }
      ⟨selector, p.live ++ [o], p.retention⟩) ?_).bind
  · intro selector hrecorded
    exact hrecorded.expire o.time
  · intro s' hs'
    obtain ⟨htracks', hremaining', hcurrent'⟩ := hs'
    exact ⟨s', rfl, htracks', hremaining'.trans hremaining,
      hcurrent'.trans hcurrent⟩

/-- With room for the outcome that a request may bring, both answer it the
same. -/
theorem Refines.handle (h : b.Refines window p) (request : Request)
    (hroom : p.live.length + (if request.isReport then 1 else 0)
      < counterLimit) :
    Upholds (b.handle request)
      (fun q => q.1.Refines window (p.handle window request).1
        ∧ q.2 = (p.handle window request).2) fun _ => False := by
  cases request with
  | insert o =>
      unfold PlainRraa.handle
      dsimp only
      by_cases ho : o.status.isFeedback = true
      · have hreport : (Request.insert o).isReport = true := ho
        rw [if_pos hreport] at hroom
        rw [if_pos ho]
        apply (h.insert ho hroom).bind
        intro b' h'
        exact ⟨h', rfl⟩
      · rw [if_neg ho]
        show Upholds (do return (← b.insert o, none)) _ _
        rw [insert_of_not_feedback ho]
        exact ⟨h, rfl⟩
  | expire now => exact ⟨h.expire now, rfl⟩
  | setRetention retention =>
      obtain ⟨s, rfl, hs⟩ := h
      exact ⟨⟨s, rfl, hs.tracks, hs.remaining_eq, hs.current_eq⟩, rfl⟩
  | select now =>
      obtain ⟨s, rfl, hs⟩ := h
      obtain ⟨hagrees, hrate⟩ := hs.select
      have hsame : (p.select window).live = p.live
          ∧ (p.select window).retention = p.retention := by
        unfold PlainRraa.select
        split <;> exact ⟨rfl, rfl⟩
      refine ⟨⟨s.select.1, ?_, hagrees⟩, congrArg some hrate⟩
      show _ = Baseline.mk _ (p.select window).live (p.select window).retention
      rw [hsame.1, hsame.2]
      rfl
  | reset =>
      obtain ⟨s, rfl, hs⟩ := h
      exact ⟨⟨s.reset, rfl, hs.tracks.reset,
        (hs.tracks.entry rates.bottom).fixed.1, rfl⟩, rfl⟩

/-- Both answer a run the same, and end in step. -/
theorem Refines.run (h : b.Refines window p) (requests : List Request)
    (hroom : p.peak window requests < counterLimit) :
    Upholds (b.run requests)
      (fun q => q.1.Refines window (p.run window requests).1
        ∧ q.2 = (p.run window requests).2) fun _ => False := by
  induction requests generalizing b p with
  | nil => exact ⟨h, rfl⟩
  | cons request rest ih =>
      obtain ⟨hfirst, hrest⟩ := Nat.max_lt.1 hroom
      apply (h.handle request hfirst).bind
      intro q hq
      obtain ⟨hrefines, hanswer⟩ := hq
      apply (ih hrefines hrest).bind
      intro r hr
      exact ⟨hr.1, List.cons_eq_cons.2 ⟨hanswer, hr.2⟩⟩

/-- Robust rate adaptation, asked anything by way of a baseline, answers as
the plain algorithm does, as long as fewer outcomes are live at once than a
counter can count, and it ends with the same outcomes live, in the same
window of the same candidate. A share that a decision would go by is the
share of the live outcomes; and neither the window's counter nor any count,
be it for the outcomes that are live or for one more that arrives, is ever
taken below zero. -/
theorem rraa_refines_plain (window : Rate → Nat) (requests : List Request)
    (hroom : (PlainRraa.start rates window).peak window requests
      < counterLimit) :
    let p := ((PlainRraa.start rates window).run window requests).1
    ∃ s, (ofRraa rates window).run requests
        = .ok (⟨.rraa s, p.live, p.retention⟩,
          ((PlainRraa.start rates window).run window requests).2)
      ∧ s.remaining = p.remaining ∧ s.current = p.current
      ∧ (∀ i, (s.refresh.table.get i).lossRatio
        = lossShare p.live (rates.get i))
      ∧ 1 ≤ s.remaining
      ∧ s.RetractsAll p.live
      ∧ ∀ o s', o.status.isFeedback = true →
        p.live.length + 1 < counterLimit → s.record o = .ok s' →
        s'.RetractsAll (p.live ++ [o]) := by
  intro p
  obtain ⟨⟨b, answers⟩, hrun, ⟨s, hb, hs⟩, hanswers⟩ :=
    ((refines_start rates window).run requests hroom).exists_ok
  have hb : b = ⟨.rraa s, p.live, p.retention⟩ := hb
  have hanswers : answers = _ := hanswers
  subst hb hanswers
  refine ⟨s, hrun, hs.remaining_eq, hs.current_eq, hs.tracks.refresh.2.2,
    hs.tracks.remaining_pos, hs.tracks.retractsAll, ?_⟩
  intro o s' ho hone hrecord
  exact ((hs.tracks.record ho hone).of_eq_ok hrecord).1.retractsAll

/-- With half of its bytes lost the slowest candidate is kept; once the loss
has aged, the next window leads up. -/
theorem rraa_refines_plain_aging :
    let rates : RateSet := ⟨#[10, 20, 55], by decide, by decide⟩
    let sent (n : Int) (rate : Rate) (status : Status) : Outcome :=
      ⟨⟨n * 1000000000⟩, 0, rate, 1000, status⟩
    let selects (n : Int) : List Request :=
      List.replicate 6 (.select ⟨n * 1000000000⟩)
    let requests : List Request :=
      [ .insert (sent 0 10 .naked), .insert (sent 1 10 .acked)
      , .insert (sent 2 90 .acked), .insert (sent 3 20 .sent) ]
        ++ selects 3 ++ [.expire ⟨11000000000⟩] ++ selects 12
    let plain := (PlainRraa.start rates Rraa.defaultWindow).run
      Rraa.defaultWindow requests
    (PlainRraa.start rates Rraa.defaultWindow).peak Rraa.defaultWindow requests
        < counterLimit
      ∧ (∃ s, (start .rraa rates .lowestFirst (.ofSeed 0) ⟨0⟩).run requests
          = .ok (⟨.rraa s, plain.1.live, plain.1.retention⟩, plain.2)
        ∧ s.remaining = plain.1.remaining ∧ s.current = plain.1.current
        ∧ (∀ i, (s.refresh.table.get i).lossRatio
          = lossShare plain.1.live (rates.get i))
        ∧ 1 ≤ s.remaining
        ∧ s.RetractsAll plain.1.live
        ∧ ∀ o s', o.status.isFeedback = true →
          plain.1.live.length + 1 < counterLimit → s.record o = .ok s' →
          s'.RetractsAll (plain.1.live ++ [o]))
      ∧ plain.2 = List.replicate 4 none ++ List.replicate 6 (some 10)
        ++ [none] ++ List.replicate 5 (some 10) ++ [some 20] := by
  intro rates sent selects requests plain
  have hroom : (PlainRraa.start rates Rraa.defaultWindow).peak
      Rraa.defaultWindow requests < counterLimit := by decide +kernel
  have hanswers : plain.2 = List.replicate 4 none ++ List.replicate 6 (some 10)
      ++ [none] ++ List.replicate 5 (some 10) ++ [some 20] := by
    decide +kernel
  rw [start_rraa]
  exact ⟨hroom, rraa_refines_plain Rraa.defaultWindow requests hroom, hanswers⟩

end Baseline

end LinkAdaptation
