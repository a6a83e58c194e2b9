/-
What one candidate goes through in a run of selection by average airtime:
outcomes at its rate are counted and uncounted, decisions bring its averages
up to date, and nothing else touches it. A decision that finds nothing
changed since the one before does not compute, but it would compute what is
there already; so every decision can be taken for one that does.

Counts and byte sums follow the live outcomes, so they end where they began
once all outcomes at the rate are forgotten. The best case does not: it is
computed whenever a decision finds bytes, and kept when one finds none.
-/
import LinkAdaptation.Proofs.RateSet
import LinkAdaptation.Proofs.Selector.Decisions
import LinkAdaptation.Proofs.Selector.Live

namespace LinkAdaptation

open LinkAdaptation.Random (Generator)
open Selector (Request liveAfter forgetsLive)

variable {rates : RateSet} {rate : Rate} {live : List Outcome} {o : Outcome}
  {request : Request} {requests : List Request} {now : Instant}

-- ============================================================ requests

namespace Selector

/-- Whether a request counts or uncounts an outcome at a rate. -/
def Request.isAbout (rate : Rate) : Request → Bool
  | .record o => o.status.isFeedback && atRate rate o
  | .forget o => o.status.isFeedback && atRate rate o
  | _ => false

/-- Whether some decision is made while outcomes at a rate with a payload
are live. -/
def decidesOn (rate : Rate) (live : List Outcome) : List Request → Bool
  | [] => false
  | request :: rest =>
      request.isSelect && 0 < bytesOf (atRate rate) live
        || decidesOn rate (request.note live) rest

/-- The requests since the last reset. -/
def sinceReset (requests : List Request) : List Request :=
  requests.foldl (fun recent request =>
    if request = .reset then [] else recent ++ [request]) []

theorem liveAfter_concat :
    liveAfter (requests ++ [request]) = request.note (liveAfter requests) := by
  unfold liveAfter
  rw [List.foldl_append]
  rfl

theorem forgetsLive_append {after : List Request} :
    forgetsLive live (requests ++ after)
      = (forgetsLive live requests
        && forgetsLive (requests.foldl Request.note live) after) := by
  induction requests generalizing live with
  | nil => rfl
  | cons request rest ih =>
      show (_ && forgetsLive (request.note live) (rest ++ after))
        = (_ && forgetsLive (request.note live) rest && _)
      rw [ih, Bool.and_assoc]
      rfl

theorem decidesOn_append {after : List Request} :
    decidesOn rate live (requests ++ after)
      = (decidesOn rate live requests
        || decidesOn rate (requests.foldl Request.note live) after) := by
  induction requests generalizing live with
  | nil => rfl
  | cons request rest ih =>
      rw [List.cons_append, decidesOn, decidesOn, ih, Bool.or_assoc]
      rfl

theorem decidesOn_concat :
    decidesOn rate [] (requests ++ [request])
      = (decidesOn rate [] requests || request.isSelect
        && 0 < bytesOf (atRate rate) (liveAfter requests)) := by
  rw [decidesOn_append, decidesOn, decidesOn, Bool.or_false]
  rfl

theorem decidesOn_concat_of_not_select (h : request.isSelect = false) :
    decidesOn rate [] (requests ++ [request]) = decidesOn rate [] requests := by
  rw [decidesOn_concat, h, Bool.false_and, Bool.or_false]

theorem sinceReset_concat :
    sinceReset (requests ++ [request])
      = if request = .reset then [] else sinceReset requests ++ [request] := by
  unfold sinceReset
  rw [List.foldl_append]
  rfl

theorem sinceReset_of_not_mem (hresets : .reset ∉ requests) :
    sinceReset requests = requests := by
  induction requests using List.reverseRecOn with
  | nil => rfl
  | append_singleton requests request ih =>
      simp only [List.mem_append, List.mem_singleton, not_or] at hresets
      rw [sinceReset_concat, if_neg (Ne.symm hresets.2), ih hresets.1]

/-- A reset leaves nothing live, so what came before it does not matter. -/
theorem liveAfter_sinceReset (requests : List Request) :
    liveAfter (sinceReset requests) = liveAfter requests := by
  induction requests using List.reverseRecOn with
  | nil => rfl
  | append_singleton requests request ih =>
      rw [sinceReset_concat, liveAfter_concat]
      split
      · next hreset =>
          rw [hreset]
          rfl
      · rw [liveAfter_concat, ih]

theorem forgetsLive_sinceReset (h : forgetsLive [] requests = true) :
    forgetsLive [] (sinceReset requests) = true := by
  induction requests using List.reverseRecOn with
  | nil => rfl
  | append_singleton requests request ih =>
      rw [forgetsLive_append, Bool.and_eq_true_iff] at h
      rw [sinceReset_concat]
      split
      · rfl
      · rw [forgetsLive_append, ih h.1, Bool.true_and]
        show forgetsLive (liveAfter (sinceReset requests)) [request] = true
        rw [liveAfter_sinceReset]
        exact h.2

/-- Only what reports is live. -/
theorem isFeedback_of_live (requests : List Request) :
    ∀ o ∈ liveAfter requests, o.status.isFeedback = true := by
  induction requests using List.reverseRecOn with
  | nil => nofun
  | append_singleton requests request ih =>
      rw [liveAfter_concat]
      unfold Request.note
      split
      · split
        · next hreports =>
            intro a ha
            rcases List.mem_append.1 ha with ha | ha
            · exact ih a ha
            · rw [List.mem_singleton.1 ha]
              exact hreports
        · exact ih
      · exact fun a ha => ih a (List.mem_of_mem_erase ha)
      · exact ih
      · nofun

/-- A request to forget something that reports names something live. -/
theorem mem_live_of_forgets (ho : o.status.isFeedback = true)
    (hforgets : forgetsLive [] (requests ++ [.forget o]) = true) :
    o ∈ liveAfter requests := by
  show o ∈ requests.foldl Request.note []
  rw [forgetsLive_append] at hforgets
  obtain ⟨-, hlast⟩ := Bool.and_eq_true_iff.1 hforgets
  simpa [forgetsLive, ho] using hlast

/-- A request that is about another rate, or about nothing, leaves the
outcomes at a rate as they are. -/
theorem filter_note_of_not_isAbout (habout : request.isAbout rate = false)
    (hreset : request ≠ .reset)
    (hlive : ∀ o ∈ live, o.status.isFeedback = true) :
    (request.note live).filter (atRate rate) = live.filter (atRate rate) := by
  cases request with
  | select now => rfl
  | reset => exact absurd rfl hreset
  | record o =>
      unfold Request.note
      dsimp only
      split
      · next ho =>
          have hother : ¬ atRate rate o = true := by
            simpa [Request.isAbout, ho] using habout
          rw [List.filter_append, List.filter_cons_of_neg hother,
            List.filter_nil, List.append_nil]
      · rfl
  | forget o =>
      show (live.erase o).filter _ = _
      by_cases hmem : o ∈ live
      · have hother : ¬ atRate rate o = true := by
          simpa [Request.isAbout, hlive o hmem] using habout
        rw [← List.erase_filter, List.erase_of_not_mem]
        intro hkept
        exact hother (List.mem_filter.1 hkept).2
      · rw [List.erase_of_not_mem hmem]

end Selector

open Selector (decidesOn sinceReset liveAfter_concat decidesOn_concat
  decidesOn_concat_of_not_select sinceReset_concat sinceReset_of_not_mem forgetsLive_append
  mem_live_of_forgets filter_note_of_not_isAbout isFeedback_of_live)

namespace SampleRate

-- ============================================================= entries

namespace Entry

variable {e e' : Entry}

/-- All that a request does to the entry of a candidate, resets apart. -/
inductive Step (rate : Rate) : Request → Entry → Entry → Prop where
  | count {o : Outcome} {e e' : Entry} (hrate : o.rate = rate)
      (ho : o.status.isFeedback = true) (h : e.count o = .ok e') :
      Step rate (.record o) e e'
  | uncount {o : Outcome} {e : Entry} (hrate : o.rate = rate)
      (ho : o.status.isFeedback = true) :
      Step rate (.forget o) e (e.uncount o)
  | refresh {now : Instant} {e : Entry} (lossRun : Nat) :
      Step rate (.select now) e { e with lossRun }.refresh
  | pass {request : Request} {e : Entry} (hselect : request.isSelect = false)
      (hreset : request ≠ .reset) (habout : request.isAbout rate = false) :
      Step rate request e e

theorem isNoise_zero : isNoise 0.0 = true := by decide +kernel

/-- Noise stays noise when it is settled, and nothing else becomes it. -/
theorem isNoise_settle (x : Float) : isNoise (settle x) = isNoise x := by
  unfold settle
  split
  · next hnoise => rw [hnoise, isNoise_zero]
  · rfl

theorem settle_settle (x : Float) : settle (settle x) = settle x := by
  show (if isNoise (settle x) = true then 0.0 else settle x) = settle x
  rw [isNoise_settle]
  unfold settle
  split
  · rfl
  · rfl

/-- Averages that are up to date stay. -/
theorem refresh_refresh (e : Entry) : e.refresh.refresh = e.refresh := by
  unfold refresh
  simp only [settle_settle, isNoise_settle]
  -- what is computed again comes out the same, and the rest is kept twice
  split
  · split <;> rfl
  · split_ifs <;> rfl

-- ============================================================== counts

/-- Outcomes at other rates do not matter. -/
theorem Accounts.of_filter_eq (h : e.Accounts rate live)
    {other : List Outcome}
    (heq : other.filter (atRate rate) = live.filter (atRate rate)) :
    e.Accounts rate other := by
  have hwide : ∀ status o, atRateWith rate status o = true →
      atRate rate o = true := by
    intro status o ho
    exact decide_eq_true (of_decide_eq_true ho).1
  exact ⟨h.sent.of_filter_eq (fun _ ho => ho) heq,
    h.acked.of_filter_eq (hwide _) heq, h.naked.of_filter_eq (hwide _) heq,
    h.timedOut.of_filter_eq (hwide _) heq⟩

theorem Accounts.perm (h : e.Accounts rate live) {reordered : List Outcome}
    (hperm : live.Perm reordered) : e.Accounts rate reordered :=
  ⟨h.sent.perm hperm, h.acked.perm hperm, h.naked.perm hperm,
    h.timedOut.perm hperm⟩

/-- Counts and byte sums follow the live outcomes. -/
theorem Accounts.step (h : e.Accounts rate (liveAfter requests))
    (hstep : Step rate request e e')
    (hforgets : forgetsLive [] (requests ++ [request]) = true) :
    e'.Accounts rate (liveAfter (requests ++ [request])) := by
  rw [liveAfter_concat]
  cases hstep with
  | count hrate ho hcount =>
      unfold Request.note
      dsimp only
      rw [if_pos ho]
      exact h.count hrate ho hcount
  | uncount hrate ho =>
      have hperm := List.perm_cons_erase (mem_live_of_forgets ho hforgets)
      exact (h.perm hperm).uncount hrate ho
  | refresh lossRun =>
      obtain ⟨hsent, hacked, hnaked, htimedOut⟩ := h
      exact Accounts.refresh ⟨hsent, hacked, hnaked, htimedOut⟩
  | pass _ hreset habout =>
      exact h.of_filter_eq (filter_note_of_not_isAbout habout hreset
        (isFeedback_of_live requests))

-- =========================================================== averages

theorem bestCase_refresh_eq (e : Entry) :
    e.refresh.bestCase
      = if !isNoise e.totalAirtime && 0.0 < settle e.bytesSent then
          settle e.totalAirtime / settle e.bytesSent
        else e.bestCase := rfl

theorem average_refresh_eq (e : Entry) :
    e.refresh.average
      = if settle e.bytesAcked == 0.0 then noAirtime
        else if e.refresh.bestCase ≤ settle e.totalAirtime then
          settle e.totalAirtime / settle e.bytesAcked
        else e.average := rfl

/-- Without bytes, a decision leaves the best case. -/
theorem bestCase_refresh (hsent : Counted (atRate rate) live e.sent e.bytesSent)
    (hempty : ¬ 0 < bytesOf (atRate rate) live) :
    e.refresh.bestCase = e.bestCase := by
  have hzero : settle e.bytesSent = 0.0 := by
    rw [hsent.settle_eq, hsent.bytes_eq, Nat.eq_zero_of_not_pos hempty,
      zero_eq_toFloat]
  have hnotPos : decide ((0.0 : Float) < 0.0) = false := by decide +kernel
  rw [bestCase_refresh_eq, hzero, hnotPos, Bool.and_false, if_neg (by simp)]

/-- A candidate that no decision found with bytes has no best case. -/
theorem bestCase_step (haccounts : e.Accounts rate (liveAfter requests))
    (h : decidesOn rate [] requests = false → e.bestCase = 0.0)
    (hstep : Step rate request e e')
    (hunseen : decidesOn rate [] (requests ++ [request]) = false) :
    e'.bestCase = 0.0 := by
  rw [decidesOn_concat, Bool.or_eq_false_iff] at hunseen
  obtain ⟨hunseen, hbytes⟩ := hunseen
  have hkept := h hunseen
  cases hstep with
  | count _ _ hcount => rw [(rest_of_count hcount).2.2.2, hkept]
  | uncount _ _ => rw [(rest_uncount _ _).2.2.2, hkept]
  | pass _ _ _ => exact hkept
  | refresh lossRun =>
      have hsame := bestCase_refresh (e := { e with lossRun })
        haccounts.sent (by simpa [Request.isSelect] using hbytes)
      exact hsame.trans hkept

end Entry

-- =========================================================== selectors

variable {s s' : SampleRate rates} {i : rates.Index}

/-- Averages are up to date unless something changed. -/
def Settled (s : SampleRate rates) : Prop :=
  s.outdated = false → ∀ i, (s.table.get i).refresh = s.table.get i

/-- An outcome that is not counted is about no candidate. -/
theorem isAbout_of_not_counts (hcounts : counts rates o = false)
    (i : rates.Index) :
    (Request.record o).isAbout (rates.get i) = false
      ∧ (Request.forget o).isAbout (rates.get i) = false := by
  have habout : (o.status.isFeedback && atRate (rates.get i) o) = false := by
    rw [← Bool.not_eq_true, Bool.and_eq_true_iff]
    rintro ⟨ho, hi⟩
    rw [counts_of (of_decide_eq_true hi).symm ho] at hcounts
    cases hcounts
  exact ⟨habout, habout⟩

/-- An outcome at one candidate is not about another. -/
theorem isAbout_of_ne {j : rates.Index} (hj : rates.get j = o.rate)
    (hi : i ≠ j) :
    (Request.record o).isAbout (rates.get i) = false
      ∧ (Request.forget o).isAbout (rates.get i) = false := by
  have hother : o.rate ≠ rates.get i := fun heq =>
    hi (RateSet.get_injective (hj.trans heq)).symm
  simp [Request.isAbout, atRate, hother]

/-- A request does to each entry what it does to the entry of a
candidate. -/
theorem entry_step (hsettled : s.Settled) (hreset : request ≠ .reset)
    (hhandle : s.handle request = .ok s') (i : rates.Index) :
    Entry.Step (rates.get i) request (s.table.get i) (s'.table.get i) := by
  cases request with
  | reset => exact absurd rfl hreset
  | select now =>
      obtain ⟨-, hdecides⟩ := handle_select_eq_ok.1 hhandle
      rw [hdecides.table_eq.1, get_refresh]
      split
      · exact .refresh _
      · next hcurrent =>
          have hsame := hsettled (by simpa using hcurrent) i
          have hstep : Entry.Step (rates.get i) (.select now) (s.table.get i)
              (s.table.get i).refresh := .refresh (s.table.get i).lossRun
          rw [hsame] at hstep
          exact hstep
  | record o =>
      rcases record_cases hhandle with
        ⟨hcounts, rfl⟩ | ⟨j, e, hj, ho, hcount, rfl⟩
      · exact .pass rfl hreset (isAbout_of_not_counts hcounts i).1
      · refine Table.forall_get_set (P := fun i e' => Entry.Step (rates.get i)
          (.record o) (s.table.get i) e') ?_ (.count hj.symm ho hcount) i
        exact fun i hi => .pass rfl hreset (isAbout_of_ne hj hi).1
  | forget o =>
      cases hhandle
      rcases s.forget_cases o with ⟨hcounts, heq⟩ | ⟨j, hj, ho, heq⟩
      · rw [heq]
        exact .pass rfl hreset (isAbout_of_not_counts hcounts i).2
      · rw [heq]
        refine Table.forall_get_set (P := fun i e' => Entry.Step (rates.get i)
          (.forget o) (s.table.get i) e') ?_ (.uncount hj.symm ho) i
        exact fun i hi => .pass rfl hreset (isAbout_of_ne hj hi).2

/-- A change of an entry is always noted. -/
theorem Settled.handle (h : s.Settled) (hhandle : s.handle request = .ok s') :
    s'.Settled := by
  cases request with
  | record o =>
      rcases record_cases hhandle with ⟨-, rfl⟩ | ⟨i, e, -, -, -, rfl⟩
      · exact h
      · exact nofun
  | forget o =>
      cases hhandle
      rcases s.forget_cases o with ⟨-, heq⟩ | ⟨i, -, -, heq⟩
      · rw [heq]
        exact h
      · rw [heq]
        exact nofun
  | select now =>
      obtain ⟨-, hdecides⟩ := handle_select_eq_ok.1 hhandle
      intro _ i
      rw [hdecides.table_eq.1, get_refresh]
      split
      · exact Entry.refresh_refresh _
      · next hcurrent => exact h (by simpa using hcurrent) i
  | reset =>
      cases hhandle
      exact nofun

/-- What every change of an entry keeps in step with the requests so far, a
run keeps in step with those since the last reset. -/
theorem entry_run_sinceReset {order : BootstrapOrder} {generator : Generator}
    {made : Instant} {P : List Request → Entry → Prop} (i : rates.Index)
    (h : P [] {})
    (hrun : (start rates order generator made).run requests = .ok s)
    (hstep : ∀ done request e e', P done e →
      Entry.Step (rates.get i) request e e' → P (done ++ [request]) e') :
    s.Settled ∧ P (sinceReset requests) (s.table.get i) := by
  have hfresh : P [] ((Table.fill rates {}).get i) := by
    rw [Table.get_fill]
    exact h
  refine run_keeps (P := fun done s =>
    s.Settled ∧ P (sinceReset done) (s.table.get i)) ?_ hrun ?_
  · exact ⟨nofun, hfresh⟩
  · intro done s request s' hdone hhandle
    obtain ⟨hsettled, hholds⟩ := hdone
    refine ⟨hsettled.handle hhandle, ?_⟩
    rw [sinceReset_concat]
    split
    · next hreset =>
        subst hreset
        cases hhandle
        exact hfresh
    · next hreset =>
        exact hstep _ _ _ _ hholds (entry_step hsettled hreset hhandle i)

/-- Without a reset, those are all. -/
theorem entry_run {order : BootstrapOrder} {generator : Generator}
    {made : Instant}
    {P : List Request → Entry → Prop} (i : rates.Index) (h : P [] {})
    (hresets : .reset ∉ requests)
    (hrun : (start rates order generator made).run requests = .ok s)
    (hstep : ∀ done request e e', P done e →
      Entry.Step (rates.get i) request e e' → P (done ++ [request]) e') :
    s.Settled ∧ P requests (s.table.get i) := by
  have hkept := entry_run_sinceReset i h hrun hstep
  rwa [sinceReset_of_not_mem hresets] at hkept

theorem forgetsLive_of_concat
    (h : forgetsLive [] (requests ++ [request]) = true) :
    forgetsLive [] requests = true := by
  rw [forgetsLive_append] at h
  exact (Bool.and_eq_true_iff.1 h).1

variable {order : BootstrapOrder} {generator : Generator} {made : Instant}

/-- Counts and byte sums are those of the live outcomes at the end of a run,
and a candidate that no decision found with bytes has no best case. -/
theorem accounts_run (i : rates.Index) (hresets : .reset ∉ requests)
    (hforgets : forgetsLive [] requests = true)
    (hrun : (start rates order generator made).run requests = .ok s) :
    s.Settled ∧ (s.table.get i).Accounts (rates.get i) (liveAfter requests)
      ∧ (decidesOn (rates.get i) [] requests = false →
        (s.table.get i).bestCase = 0.0) := by
  have hkept := entry_run (P := fun done e => forgetsLive [] done = true →
    e.Accounts (rates.get i) (liveAfter done)
      ∧ (decidesOn (rates.get i) [] done = false → e.bestCase = 0.0)) i
    (fun _ => ⟨Entry.accounts_empty _, fun _ => rfl⟩) hresets hrun ?_
  · exact ⟨hkept.1, hkept.2 hforgets⟩
  · intro done request e e' h hstep hforgets
    obtain ⟨haccounts, hunseen⟩ := h (forgetsLive_of_concat hforgets)
    exact ⟨haccounts.step hstep hforgets,
      Entry.bestCase_step haccounts hunseen hstep⟩

/-- A decision that finds nothing live at a candidate leaves nothing there
but the best case and what is not noise of the airtimes. -/
theorem Entry.refresh_of_empty {e : Entry} (h : e.Accounts rate []) :
    { e.refresh with lossRun := 0, totalAirtime := 0.0, bestCase := 0.0 }
      = ({} : Entry) := by
  have hempty : ∀ {sort count bytes}, Counted sort [] count bytes →
      count = 0 ∧ bytes = 0.0 := by
    intro sort count bytes hcounted
    exact ⟨hcounted.count_eq, hcounted.bytes_eq.trans zero_eq_toFloat.symm⟩
  obtain ⟨hsent, hbytesSent⟩ := hempty h.sent
  obtain ⟨hacked, hbytesAcked⟩ := hempty h.acked
  obtain ⟨hnaked, hbytesNaked⟩ := hempty h.naked
  obtain ⟨htimedOut, hbytesTimedOut⟩ := hempty h.timedOut
  have hsettled : settle 0.0 = 0.0 := rfl
  have hequal : ((0.0 : Float) == 0.0) = true := by decide +kernel
  unfold refresh
  simp only [hsent, hbytesSent, hacked, hbytesAcked, hnaked, hbytesNaked,
    htimedOut, hbytesTimedOut, hsettled, hequal, if_true]

end SampleRate

end LinkAdaptation
