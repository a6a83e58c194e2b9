/-
The two extreme verdicts of robust rate adaptation. Where nothing got
through, the share of lost bytes is one; where everything did, it is zero,
if there were any bytes at all. An empty payload adds to the packets but not
to the bytes, and with no bytes at all the share is that of a total loss,
whatever became of the packets.

A share of one is more than a candidate tolerates unless the rate below is
five times as slow or worse: what is tolerated then is one or more, which no
share exceeds. A share of zero is less than what makes the next candidate
promising.
-/
import LinkAdaptation.Proofs.Selector.Live
import LinkAdaptation.Proofs.Selector.Threshold

namespace LinkAdaptation

open Selector (Request liveAfter forgetsLive)

variable {rates : RateSet} {live : List Outcome} {rate : Rate}

-- ============================================================== shares

/-- Where nothing got through, everything is lost. -/
theorem lossShare_of_dead (hlt : live.countP (atRate rate) < counterLimit)
    (h : ∀ o ∈ live, o.rate = rate → o.status ≠ .acked) :
    value? (lossShare live rate) = some 1 := by
  have hacked : bytesOf (atRateWith rate .acked) live = 0 := by
    rw [bytesOf_eq_zero_iff]
    intro o ho hsort
    simp only [atRateWith, decide_eq_true_eq] at hsort
    exact absurd hsort.2 (h o ho hsort.1)
  unfold lossShare
  dsimp only
  rw [hacked, Nat.sub_zero]
  split
  · exact value?_one
  · next hsent =>
      have hvalue := value?_whole (Counted.bytesOf_lt hlt)
      have hne : ((bytesOf (atRate rate) live : Nat) : Rat) ≠ 0 := by
        exact_mod_cast hsent
      have hquotient := value?_div hvalue hvalue hne
        (abs_nearest_lt (by rw [div_self hne]; norm_num))
      rw [div_self hne, nearest_of_representable representable_one] at hquotient
      exact hquotient

/-- Where no bytes were sent, everything counts as lost. -/
theorem lossShare_of_empty (h : ∀ o ∈ live, o.rate = rate → o.length = 0) :
    value? (lossShare live rate) = some 1 := by
  have hsent : bytesOf (atRate rate) live = 0 := by
    rw [bytesOf_eq_zero_iff]
    intro o ho hsort
    exact h o ho (of_decide_eq_true hsort)
  unfold lossShare
  dsimp only
  rw [if_pos hsent]
  exact value?_one

/-- Where everything got through, and it was something, nothing is lost. -/
theorem lossShare_of_clean (hlt : live.countP (atRate rate) < counterLimit)
    (h : ∀ o ∈ live, o.rate = rate → o.status = .acked)
    (hbytes : ∃ o ∈ live, o.rate = rate ∧ o.length ≠ 0) :
    value? (lossShare live rate) = some 0 := by
  have hacked : bytesOf (atRateWith rate .acked) live
      = bytesOf (atRate rate) live := by
    apply bytesOf_congr
    intro o ho
    by_cases hrate : o.rate = rate
    · simp [atRateWith, atRate, hrate, h o ho hrate]
    · simp [atRateWith, atRate, hrate]
  have hsent : bytesOf (atRate rate) live ≠ 0 := by
    rw [Ne, bytesOf_eq_zero_iff]
    intro hnone
    obtain ⟨o, ho, hrate, hlength⟩ := hbytes
    exact hlength (hnone o ho (decide_eq_true hrate))
  have hne : ((bytesOf (atRate rate) live : Nat) : Rat) ≠ 0 := by
    exact_mod_cast hsent
  unfold lossShare
  dsimp only
  rw [hacked, if_neg hsent, Nat.sub_self, ← zero_eq_toFloat]
  have hquotient := value?_div value?_zero
    (value?_whole (Counted.bytesOf_lt hlt)) hne
  rw [zero_div, nearest_zero] at hquotient
  exact hquotient (by norm_num)

-- ============================================================ verdicts

namespace Rraa

variable {window : Rate → Nat} {schedule : List (Rate × Nat)}
  {s s₀ : Rraa rates} {requests : List Request}

/-- Where outcomes of the current candidate are live, a decision that is due
goes by the thresholds alone. -/
theorem Tracks.verdict (h : s.Tracks window live) (hdue : s.IsDue)
    (hused : ∃ o ∈ live, o.rate = s.currentRate) :
    s.select.1.current
      = if tolerableLoss rates s.current < lossShare live s.currentRate then
          down s.current
        else if lossShare live s.currentRate < promisingLoss rates s.current then
          up s.current
        else s.current := by
  have hcount : 0 < live.countP (atRate (rates.get s.current)) := by
    rw [List.countP_pos_iff]
    obtain ⟨o, ho, hrate⟩ := hused
    exact ⟨o, ho, decide_eq_true hrate⟩
  rw [h.current_select hdue]
  unfold PlainRraa.next plain
  simp only [hcount, and_true]
  rfl

/-- With a share of one it leads down to a rate that is near, and nowhere
else. -/
theorem Tracks.verdict_of_total (h : s.Tracks window live) (hdue : s.IsDue)
    (hused : ∃ o ∈ live, o.rate = s.currentRate)
    (hshare : value? (lossShare live s.currentRate) = some 1) :
    s.select.1.current
      = if s.current.val ≠ 0 ∧ IsNear rates s.current then down s.current
        else s.current := by
  rw [h.verdict hdue hused]
  simp only [tolerableLoss_lt_iff hshare, if_neg (not_lt_promisingLoss hshare)]

/-- With a share of zero it leads up, as far as there is a candidate. -/
theorem Tracks.verdict_of_lossless (h : s.Tracks window live) (hdue : s.IsDue)
    (hused : ∃ o ∈ live, o.rate = s.currentRate)
    (hshare : value? (lossShare live s.currentRate) = some 0) :
    s.select.1.current = up s.current := by
  rw [h.verdict hdue hused, if_neg (not_tolerableLoss_lt hshare)]
  split
  · rfl
  · next hnone =>
      rw [lt_promisingLoss_iff hshare] at hnone
      unfold up
      rw [dif_neg hnone]

-- ============================================================= results

/-- However a selector was made and whatever it was asked, as long as it
forgot only outcomes that were live: where outcomes of the current candidate
are live and none of them got through, the decision that ends the window
leads one step down if the rate below is near. If it is five times as slow
or worse, even a total loss is tolerated, and the candidate stays. -/
theorem dead_rate_left_if_near (hbuilt : Built schedule s₀)
    (hforgets : forgetsLive [] requests = true)
    (hrun : s₀.run requests = .ok s) (hdue : s.IsDue)
    (habove : 0 < s.current.val)
    (hused : ∃ o ∈ liveAfter requests, o.rate = s.currentRate)
    (hdead : ∀ o ∈ liveAfter requests, o.rate = s.currentRate →
      o.status ≠ .acked) :
    (IsNear rates s.current → s.select.1.current.val + 1 = s.current.val)
      ∧ (¬ IsNear rates s.current → s.select.1.current = s.current) := by
  obtain ⟨window, htracks⟩ := tracks_live hbuilt hforgets hrun
  have hverdict := htracks.verdict_of_total hdue hused
    (lossShare_of_dead (htracks.entry s.current).sent.count_lt hdead)
  constructor
  · intro hnear
    rw [hverdict, if_pos ⟨habove.ne', hnear⟩]
    exact Nat.sub_add_cancel habove
  · intro hfar
    rw [hverdict, if_neg fun hnear => hfar hnear.2]

/-- At twice the rate below, with a loss and a timeout live and an ack
forgotten. -/
theorem dead_rate_left_if_near_double :
    let rates : RateSet := ⟨#[10, 20, 55], by decide, by decide⟩
    let s₀ : Rraa rates := start rates defaultWindow
    let sent (rate : Rate) (status : Status) : Outcome :=
      ⟨⟨0⟩, 0, rate, 1000, status⟩
    let selects (n : Nat) : List Request := List.replicate n (.select ⟨0⟩)
    let requests : List Request :=
      .record (sent 10 .acked) :: selects 6
        ++ [ .record (sent 20 .acked), .record (sent 20 .naked)
           , .record (sent 20 .timedOut), .forget (sent 20 .acked) ]
        ++ selects 5
    ∃ s : Rraa rates, s₀.run requests = .ok s
      ∧ forgetsLive [] requests = true ∧ s.IsDue ∧ 0 < s.current.val
      ∧ (∃ o ∈ liveAfter requests, o.rate = s.currentRate)
      ∧ (∀ o ∈ liveAfter requests, o.rate = s.currentRate →
        o.status ≠ .acked)
      ∧ IsNear rates s.current
      ∧ (IsNear rates s.current → s.select.1.current.val + 1 = s.current.val)
      ∧ (¬ IsNear rates s.current → s.select.1.current = s.current) := by
  intro rates s₀ sent selects requests
  have hforgets : forgetsLive [] requests = true := by decide +kernel
  obtain ⟨s, hrun, hdue, habove, hused, hdead, hnear⟩ :=
    exists_run s₀ requests
      (fun s => s.IsDue ∧ 0 < s.current.val
        ∧ (∃ o ∈ liveAfter requests, o.rate = s.currentRate)
        ∧ (∀ o ∈ liveAfter requests, o.rate = s.currentRate →
          o.status ≠ .acked)
        ∧ IsNear rates s.current)
      (by decide +kernel)
  exact ⟨s, hrun, hforgets, hdue, habove, hused, hdead, hnear,
    dead_rate_left_if_near .standard hforgets hrun hdue habove hused hdead⟩

/-- At 5.5 times the rate below, the only packet is lost, and the selector
stays. -/
theorem dead_rate_kept :
    let rates : RateSet := ⟨#[10, 55], by decide, by decide⟩
    let s₀ : Rraa rates := start rates defaultWindow
    let sent (rate : Rate) (status : Status) : Outcome :=
      ⟨⟨0⟩, 0, rate, 1000, status⟩
    let selects (n : Nat) : List Request := List.replicate n (.select ⟨0⟩)
    let requests : List Request :=
      .record (sent 10 .acked) :: selects 6
        ++ .record (sent 55 .naked) :: selects 5
    ∃ s : Rraa rates, s₀.run requests = .ok s
      ∧ forgetsLive [] requests = true ∧ s.IsDue ∧ 0 < s.current.val
      ∧ (∃ o ∈ liveAfter requests, o.rate = s.currentRate)
      ∧ (∀ o ∈ liveAfter requests, o.rate = s.currentRate →
        o.status ≠ .acked)
      ∧ s.select.1.current = s.current := by
  intro rates s₀ sent selects requests
  obtain ⟨s, hrun, hkept⟩ :=
    exists_run s₀ requests
      (fun s => forgetsLive [] requests = true ∧ s.IsDue ∧ 0 < s.current.val
        ∧ (∃ o ∈ liveAfter requests, o.rate = s.currentRate)
        ∧ (∀ o ∈ liveAfter requests, o.rate = s.currentRate →
          o.status ≠ .acked)
        ∧ s.select.1.current = s.current)
      (by decide +kernel)
  exact ⟨s, hrun, hkept⟩

/-- However a selector was made and whatever it was asked, as long as it
forgot only outcomes that were live: where outcomes of the current candidate
are live and all of them got through, the decision that ends the window leads
one step up, as far as there is a candidate, provided that one of the
payloads was not empty. If all of them were, the decision is that of a total
loss. -/
theorem clean_rate_kept_if_filled (hbuilt : Built schedule s₀)
    (hforgets : forgetsLive [] requests = true)
    (hrun : s₀.run requests = .ok s) (hdue : s.IsDue)
    (hused : ∃ o ∈ liveAfter requests, o.rate = s.currentRate)
    (hclean : ∀ o ∈ liveAfter requests, o.rate = s.currentRate →
      o.status = .acked) :
    ((∃ o ∈ liveAfter requests, o.rate = s.currentRate ∧ o.length ≠ 0) →
        s.current ≤ s.select.1.current
          ∧ (s.current.val + 1 < rates.size →
            s.select.1.current.val = s.current.val + 1))
      ∧ ((∀ o ∈ liveAfter requests, o.rate = s.currentRate → o.length = 0) →
        s.select.1.current
          = if s.current.val ≠ 0 ∧ IsNear rates s.current then down s.current
            else s.current) := by
  obtain ⟨window, htracks⟩ := tracks_live hbuilt hforgets hrun
  constructor
  · intro hfilled
    rw [htracks.verdict_of_lossless hdue hused
      (lossShare_of_clean (htracks.entry s.current).sent.count_lt hclean hfilled)]
    unfold up
    split
    · next hmore => exact ⟨Nat.le_succ _, fun _ => rfl⟩
    · next hnone => exact ⟨le_refl _, fun hmore => absurd hmore hnone⟩
  · intro hempty
    exact htracks.verdict_of_total hdue hused (lossShare_of_empty hempty)

/-- Two acks, one of them for an empty payload. -/
theorem clean_rate_kept_if_filled_mixed :
    let rates : RateSet := ⟨#[10, 20, 55], by decide, by decide⟩
    let s₀ : Rraa rates := start rates defaultWindow
    let sent (rate : Rate) (length : UInt16) (status : Status) : Outcome :=
      ⟨⟨0⟩, 0, rate, length, status⟩
    let selects (n : Nat) : List Request := List.replicate n (.select ⟨0⟩)
    let requests : List Request :=
      .record (sent 10 1000 .acked) :: selects 6
        ++ [ .record (sent 20 900 .naked), .record (sent 20 0 .acked)
           , .record (sent 20 700 .acked), .forget (sent 20 900 .naked) ]
        ++ selects 5
    ∃ s : Rraa rates, s₀.run requests = .ok s
      ∧ forgetsLive [] requests = true ∧ s.IsDue ∧ s.current.val = 1
      ∧ (∃ o ∈ liveAfter requests, o.rate = s.currentRate)
      ∧ (∀ o ∈ liveAfter requests, o.rate = s.currentRate → o.status = .acked)
      ∧ (∃ o ∈ liveAfter requests, o.rate = s.currentRate ∧ o.length ≠ 0)
      ∧ ((∃ o ∈ liveAfter requests, o.rate = s.currentRate ∧ o.length ≠ 0) →
        s.current ≤ s.select.1.current
          ∧ (s.current.val + 1 < rates.size →
            s.select.1.current.val = s.current.val + 1))
      ∧ ((∀ o ∈ liveAfter requests, o.rate = s.currentRate → o.length = 0) →
        s.select.1.current
          = if s.current.val ≠ 0 ∧ IsNear rates s.current then down s.current
            else s.current) := by
  intro rates s₀ sent selects requests
  have hforgets : forgetsLive [] requests = true := by decide +kernel
  obtain ⟨s, hrun, hdue, hcurrent, hused, hclean, hfilled⟩ :=
    exists_run s₀ requests
      (fun s => s.IsDue ∧ s.current.val = 1
        ∧ (∃ o ∈ liveAfter requests, o.rate = s.currentRate)
        ∧ (∀ o ∈ liveAfter requests, o.rate = s.currentRate →
          o.status = .acked)
        ∧ ∃ o ∈ liveAfter requests, o.rate = s.currentRate ∧ o.length ≠ 0)
      (by decide +kernel)
  exact ⟨s, hrun, hforgets, hdue, hcurrent, hused, hclean, hfilled,
    clean_rate_kept_if_filled .standard hforgets hrun hdue hused hclean⟩

/-- The only packet is empty, and it got through; the selector goes down. -/
theorem clean_rate_left :
    let rates : RateSet := ⟨#[10, 20], by decide, by decide⟩
    let s₀ : Rraa rates := start rates defaultWindow
    let acked (rate : Rate) (length : UInt16) : Outcome :=
      ⟨⟨0⟩, 0, rate, length, .acked⟩
    let selects (n : Nat) : List Request := List.replicate n (.select ⟨0⟩)
    let requests : List Request :=
      .record (acked 10 1000) :: selects 6
        ++ .record (acked 20 0) :: selects 5
    ∃ s : Rraa rates, s₀.run requests = .ok s
      ∧ forgetsLive [] requests = true ∧ s.IsDue
      ∧ (∃ o ∈ liveAfter requests, o.rate = s.currentRate)
      ∧ (∀ o ∈ liveAfter requests, o.rate = s.currentRate → o.status = .acked)
      ∧ s.select.1.current < s.current := by
  intro rates s₀ acked selects requests
  obtain ⟨s, hrun, hleft⟩ :=
    exists_run s₀ requests
      (fun s => forgetsLive [] requests = true ∧ s.IsDue
        ∧ (∃ o ∈ liveAfter requests, o.rate = s.currentRate)
        ∧ (∀ o ∈ liveAfter requests, o.rate = s.currentRate →
          o.status = .acked)
        ∧ s.select.1.current < s.current)
      (by decide +kernel)
  exact ⟨s, hrun, hleft⟩

end Rraa

end LinkAdaptation
