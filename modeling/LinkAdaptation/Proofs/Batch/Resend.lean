/-
More loss or more time, more packets sent again. Lost packets are spread
over their redundancy as far as the coherence time has room for it, or fill
the time where the redundancy is a whole batch; the extra packet comes on
top where it is asked for and fits. So the size is the larger of two
numbers, and each of them is followed on its own.

In the loss, what the redundancy takes only grows, but the extra packet ends
somewhere: at a loss that is too high for it, or where it no longer fits.
There the redundancy has already outgrown it. In the time, both only grow:
the loss is the same, and there is only more room for what it takes.
-/
import LinkAdaptation.Proofs.Batch.Extra

namespace LinkAdaptation.Sizer

variable {s : Sizer} {k most : Nat} {loss l₁ l₂ : Float} {size : BatchSize}
  {coherenceUs longerUs packetUs : UInt32}

-- ====================================================== the two parts

/-- The packets that the redundancy takes, as far as there is room. -/
def reach (k most : Nat) (loss : Float) : Nat :=
  if redundancy loss recoveryStart < 1.0 then
    min (spread k (redundancy loss recoveryStart)) most
  else most

/-- The packets that the loss takes with the extra one, where that one is
asked for and fits. -/
def extra (k most : Nat) (loss : Float) : Nat :=
  if asksExtra loss = true ∧ spread k loss + 1 ≤ most then spread k loss + 1
  else 0

theorem reach_le (k most : Nat) (loss : Float) : reach k most loss ≤ most := by
  unfold reach
  split
  · exact Nat.min_le_right _ _
  · exact Nat.le_refl most

theorem extra_le (k most : Nat) (loss : Float) : extra k most loss ≤ most := by
  unfold extra
  split
  · next h => exact h.2
  · exact Nat.zero_le most

/-- Raising what the redundancy takes to what is needed, and cutting it to
the room there is, comes to the larger part. -/
theorem raise_eq_max {needed : Option Nat}
    (hneeded : needed? k loss = .ok needed) :
    min (raise (if redundancy loss recoveryStart < 1.0
      then spread k (redundancy loss recoveryStart) else most) needed most) most
      = max (reach k most loss) (extra k most loss) := by
  unfold needed? at hneeded
  unfold reach extra raise
  split at hneeded
  · next asks =>
      split at hneeded <;> cases hneeded
      simp only [asks, true_and]
      split <;> split <;> split <;> omega
  · next asks =>
      have hnone : ¬ (asksExtra loss = true ∧ spread k loss + 1 ≤ most) :=
        fun h => asks h.1
      cases hneeded
      rw [if_neg hnone, Nat.max_zero]
      dsimp only
      split
      · rfl
      · exact Nat.min_self most

-- ======================================================== in the loss

theorem reach_mono (hk : k ≤ 9007199254740992) (h₁ : inUnit l₁ = true)
    (h₂ : inUnit l₂ = true) (h : l₁ ≤ l₂) :
    reach k most l₁ ≤ reach k most l₂ := by
  obtain ⟨μ, hμ, hμ0, hμ1⟩ := value?_margin
  obtain ⟨a, ha, ha0, ha1⟩ := inUnit_iff.1 h₁
  obtain ⟨b, hb, hb0, hb1⟩ := inUnit_iff.1 h₂
  have hr₁ := value?_redundancy_known h₁ ha ha0 ha1 hμ (by linarith) hμ1
    recoveryStart
  have hr₂ := value?_redundancy_known h₂ hb hb0 hb1 hμ (by linarith) hμ1
    recoveryStart
  have hab : a ≤ b := (le_iff_of_value? ha hb).1 h
  have hr : nearest (a + μ) ≤ nearest (b + μ) := nearest_mono (by linarith)
  by_cases hlt : redundancy l₂ recoveryStart < 1.0
  · have hone := (lt_iff_of_value? hr₂ value?_one).1 hlt
    have hlt₁ : redundancy l₁ recoveryStart < 1.0 :=
      (lt_iff_of_value? hr₁ value?_one).2 (hr.trans_lt hone)
    unfold reach
    rw [if_pos hlt₁, if_pos hlt]
    exact min_le_min_right most
      (spread_mono hk hr₁ hr₂ (nearest_nonneg (by linarith)) hr hone)
  · calc reach k most l₁ ≤ most := reach_le k most l₁
      _ = reach k most l₂ := (if_neg hlt).symm

/-- An extra packet goes on, or is outgrown. -/
theorem extra_mono (hk : 1 ≤ k) (hmany : 17 * k ≤ 9007199254740992)
    (h₁ : inUnit l₁ = true) (h₂ : inUnit l₂ = true) (h : l₁ ≤ l₂) :
    extra k most l₁ ≤ max (reach k most l₂) (extra k most l₂) := by
  by_cases adds₁ : asksExtra l₁ = true ∧ spread k l₁ + 1 ≤ most
  swap
  · unfold extra
    rw [if_neg adds₁]
    exact Nat.zero_le _
  by_cases adds₂ : asksExtra l₂ = true ∧ spread k l₂ + 1 ≤ most
  · obtain ⟨a, ha, ha0, -⟩ := inUnit_iff.1 h₁
    obtain ⟨b, hb, -, hb1⟩ := value?_of_asksExtra (isEstimate_of_inUnit h₂)
      adds₂.1
    have hspread := spread_mono (k := k) (by omega) ha hb ha0
      ((le_iff_of_value? ha hb).1 h) (lt_of_le_of_lt hb1 (by norm_num))
    refine le_max_of_le_right ?_
    unfold extra
    rw [if_pos adds₁, if_pos adds₂]
    omega
  · refine le_max_of_le_left ?_
    by_cases hlt : redundancy l₂ recoveryStart < 1.0
    · unfold extra reach
      rw [if_pos adds₁, if_pos hlt]
      exact le_min
        (extra_le_spread hk hmany h₁ h₂ adds₁.1 adds₁.2 adds₂ hlt) adds₁.2
    · calc extra k most l₁ ≤ most := extra_le k most l₁
        _ = reach k most l₂ := (if_neg hlt).symm

-- ======================================================== in the time

theorem fit_mono (h : coherenceUs ≤ longerUs) (packetUs : UInt32) :
    fit coherenceUs packetUs ≤ fit longerUs packetUs :=
  Nat.div_le_div_right (UInt32.le_iff_toNat_le.1 h)

theorem reach_mono_room {more : Nat} (h : most ≤ more) (k : Nat)
    (loss : Float) : reach k most loss ≤ reach k more loss := by
  unfold reach
  split
  · exact min_le_min_left _ h
  · exact h

theorem extra_mono_room {more : Nat} (h : most ≤ more) (k : Nat)
    (loss : Float) : extra k most loss ≤ extra k more loss := by
  unfold extra
  split
  · next adds => rw [if_pos ⟨adds.1, adds.2.trans h⟩]
  · exact Nat.zero_le _

-- ========================================================= the result

/-- The packets that a coded batch of lost packets is sent as. -/
theorem retransmission_coded
    (h : s.retransmission loss k coherenceUs packetUs = .ok size)
    (coding : s.useCoding = true) :
    size.n = max
      (reach k (min (fit coherenceUs packetUs) s.fieldSize) loss)
      (extra k (min (fit coherenceUs packetUs) s.fieldSize) loss) := by
  obtain ⟨-, -, -, -, ⟨plain, -⟩ | ⟨-, needed, hneeded, hn⟩⟩ :=
    retransmission_eq_ok h
  · rw [coding] at plain
    cases plain
  · rw [hn, raise_eq_max hneeded]

/-- What was sized for a coherence time is sized for a longer one. -/
theorem retransmission_longer
    (h : s.retransmission loss k coherenceUs packetUs = .ok size)
    (hlonger : coherenceUs ≤ longerUs) :
    ∃ longer, s.retransmission loss k longerUs packetUs = .ok longer
      ∧ longer.k = k ∧ size.n ≤ longer.n := by
  have hkeeps := (retransmission_keeps s loss k coherenceUs packetUs).of_eq_ok h
  have hroom : min (fit coherenceUs packetUs) s.fieldSize
      ≤ min (fit longerUs packetUs) s.fieldSize :=
    min_le_min_right _ (fit_mono hlonger packetUs)
  have hcoded := retransmission_coded h
  obtain ⟨hk, hle, hsame, hmost, hresult⟩ := retransmission_eq_ok h
  have hkn : k ≤ size.n := hsame.symm.trans_le hkeeps.2.k_le_n
  unfold retransmission
  generalize min (fit longerUs packetUs) s.fieldSize = more at hroom ⊢
  dsimp only
  rw [if_neg (by omega)]
  obtain ⟨plain, hn⟩ | ⟨coding, needed, hneeded, -⟩ := hresult
  · rw [plain, if_pos (by decide)]
    exact ⟨_, rfl, rfl, hn.le⟩
  · have hreach := reach_mono_room hroom k loss
    have hextra := extra_mono_room hroom k loss
    have hn := (hcoded coding).trans_le (max_le_max hreach hextra)
    have hcut := max_le (reach_le k more loss) (extra_le k more loss)
    have hsized := hkn.trans hn
    rw [coding, if_neg (by decide), hneeded]
    dsimp only
    rw [raise_eq_max hneeded, holding_of _ (by simp [hsized, hcut])]
    exact ⟨_, rfl, rfl, hn⟩

/-- Lost packets that can be sent again within a coherence time are sent as
at least as many where more is lost; and, at any loss that they are sized
at, as at least as many where there is more time. They are sized at every
estimate of the loss. -/
theorem resend_monotone (hk : 1 ≤ k) (hle : k ≤ s.maxK)
    (hmost : k ≤ min (fit coherenceUs packetUs) s.fieldSize) :
    (∀ l₁ l₂, inUnit l₁ = true → inUnit l₂ = true → l₁ ≤ l₂ →
      ∃ n₁ n₂, s.retransmission l₁ k coherenceUs packetUs = .ok ⟨k, n₁⟩
        ∧ s.retransmission l₂ k coherenceUs packetUs = .ok ⟨k, n₂⟩
        ∧ n₁ ≤ n₂)
      ∧ (∀ loss, isEstimate loss = true →
        ∃ n, s.retransmission loss k coherenceUs packetUs = .ok ⟨k, n⟩)
      ∧ ∀ loss n longerUs, coherenceUs ≤ longerUs →
        s.retransmission loss k coherenceUs packetUs = .ok ⟨k, n⟩ →
        ∃ n', s.retransmission loss k longerUs packetUs = .ok ⟨k, n'⟩
          ∧ n ≤ n' := by
  have hfit := fit_lt coherenceUs packetUs
  have sized (loss : Float) (hl : isEstimate loss = true) :
      ∃ n, s.retransmission loss k coherenceUs packetUs = .ok ⟨k, n⟩ := by
    obtain ⟨⟨_, n⟩, hsize⟩ := retransmission_ok hl hk hle hmost
    obtain ⟨-, -, rfl, -⟩ := retransmission_eq_ok hsize
    exact ⟨n, hsize⟩
  refine ⟨?_, sized, ?_⟩
  · intro l₁ l₂ h₁ h₂ h
    obtain ⟨n₁, hn₁⟩ := sized l₁ (isEstimate_of_inUnit h₁)
    obtain ⟨n₂, hn₂⟩ := sized l₂ (isEstimate_of_inUnit h₂)
    refine ⟨n₁, n₂, hn₁, hn₂, ?_⟩
    by_cases coding : s.useCoding = true
    · have hsize₁ : n₁ = _ := retransmission_coded hn₁ coding
      have hsize₂ : n₂ = _ := retransmission_coded hn₂ coding
      rw [hsize₁, hsize₂]
      exact max_le
        (le_max_of_le_left (reach_mono (by omega) h₁ h₂ h))
        (extra_mono hk (by omega) h₁ h₂ h)
    · have plain {l : Float} {n : Nat}
          (hn : s.retransmission l k coherenceUs packetUs = .ok ⟨k, n⟩) :
          n = k := by
        rw [Bool.not_eq_true] at coding
        exact ((retransmission_keeps s l k coherenceUs packetUs).of_eq_ok
          hn).2.plain coding
      exact ((plain hn₁).trans (plain hn₂).symm).le
  · intro loss n longerUs hlonger hn
    obtain ⟨⟨_, n'⟩, hn', rfl, hge⟩ := retransmission_longer hn hlonger
    exact ⟨n', hn', hge⟩

/-- Four lost packets, where nine fit and then ten. Half of the packets lost
ask for an extra one; at nine in ten the redundancy takes all that fits, and
more where there is more time. -/
theorem resend_monotone_full :
    let s : Sizer := ⟨255, 32, true⟩
    4 ≤ s.maxK ∧ 4 ≤ min (fit 20000 2100) s.fieldSize
      ∧ inUnit 0.5 = true ∧ inUnit 0.9 = true ∧ (0.5 : Float) ≤ 0.9
      ∧ (∃ n₁ n₂, s.retransmission 0.5 4 20000 2100 = .ok ⟨4, n₁⟩
        ∧ s.retransmission 0.9 4 20000 2100 = .ok ⟨4, n₂⟩ ∧ n₁ ≤ n₂)
      ∧ s.retransmission 0.9 4 20000 2100 = .ok ⟨4, 9⟩
      ∧ ∃ n', s.retransmission 0.9 4 21000 2100 = .ok ⟨4, n'⟩ ∧ 9 ≤ n' := by
  intro s
  have hle : 4 ≤ s.maxK := by decide
  have hmost : 4 ≤ min (fit 20000 2100) s.fieldSize := by decide
  have h₁ : inUnit 0.5 = true := by decide +kernel
  have h₂ : inUnit 0.9 = true := by decide +kernel
  have h : (0.5 : Float) ≤ 0.9 := by decide +kernel
  have hsize : s.retransmission 0.9 4 20000 2100 = .ok ⟨4, 9⟩ := by
    decide +kernel
  obtain ⟨hloss, -, htime⟩ :=
    resend_monotone (by decide : 1 ≤ 4) hle hmost
  exact ⟨hle, hmost, h₁, h₂, h, hloss 0.5 0.9 h₁ h₂ h, hsize,
    htime 0.9 9 21000 (by decide) hsize⟩

end LinkAdaptation.Sizer
