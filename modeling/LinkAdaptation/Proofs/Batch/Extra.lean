/-
One packet more than the loss asks for. While the loss is known and leaves
room for it, every occasion sends a packet beyond those that the loss alone
calls for: a batch of fresh data carries one data packet less than what is
left of its packets, and recovered packets are spread over one packet more.

The promise is about the size that is handed out, so it has to survive all
that follows the step that makes it. For fresh data this is the last step
but one: only a batch of a single data packet gives the extra packet up.
For recovered packets nothing that follows takes the extra packet away, as
long as it was allowed.
-/
import LinkAdaptation.Proofs.Batch.Size

namespace LinkAdaptation.Sizer

variable {s : Sizer} {k : Nat} {loss l₁ l₂ : Float} {size : BatchSize}
  {coherenceUs packetUs : UInt32}

-- ============================================================ asking

theorem asksExtra_of_inUnit (hl : inUnit loss = true)
    (hle : loss ≤ extraLimit) : asksExtra loss = true := by
  unfold asksExtra
  rw [isKnown_of_inUnit hl, Bool.true_and, decide_eq_true_iff]
  exact hle

/-- What is needed is one packet more than the loss spreads `k` over. -/
theorem needed?_eq_some {needed : Option Nat} (asks : asksExtra loss = true)
    (h : needed? k loss = .ok needed) : needed = some (spread k loss + 1) := by
  unfold needed? at h
  rw [if_pos asks] at h
  split at h
  · cases h
    rfl
  · cases h

-- ========================================================== outgrown

/-- An extra packet that is added at one loss, and at another is not, is
outgrown by the redundancy of the other. Where it does not fit, the loss
alone takes all that is allowed. Where it is not asked for, the margin on
top of such a loss takes more packets than any extra one does. -/
theorem extra_le_spread {most : Nat} (hk : 1 ≤ k)
    (hmany : 17 * k ≤ 9007199254740992) (h₁ : inUnit l₁ = true)
    (h₂ : inUnit l₂ = true) (asks : asksExtra l₁ = true)
    (fits : spread k l₁ + 1 ≤ most)
    (stops : ¬ (asksExtra l₂ = true ∧ spread k l₂ + 1 ≤ most))
    (hlt : redundancy l₂ recoveryStart < 1.0) :
    spread k l₁ + 1 ≤ spread k (redundancy l₂ recoveryStart) := by
  obtain ⟨μ, hμ, hμ0, hμ1⟩ := value?_margin
  obtain ⟨b, hb, hb0, hb1⟩ := inUnit_iff.1 h₂
  have hr := value?_redundancy_known h₂ hb hb0 hb1 hμ (by linarith) hμ1
    recoveryStart
  have hr0 : 0 ≤ nearest (b + μ) := nearest_nonneg (by linarith)
  have hr1 : nearest (b + μ) < 1 := (lt_iff_of_value? hr value?_one).1 hlt
  by_cases asks₂ : asksExtra l₂ = true
  · have hfull : most ≤ spread k l₂ := by
      by_contra hroom
      exact stops ⟨asks₂, by omega⟩
    have hbr : b ≤ nearest (b + μ) :=
      le_nearest (representable_of_value? hb) (by linarith)
    have hmono := spread_mono (k := k) (by omega) hb hr hb0 hbr hr1
    omega
  · obtain ⟨t, ht, htlow, -⟩ := value?_extraLimit
    have hbt : t < b := by
      by_contra hle
      refine asks₂ (asksExtra_of_inUnit h₂ ((le_iff_of_value? hb ht).2 ?_))
      exact not_lt.1 hle
    have hr2 : 121 / 128 ≤ nearest (b + μ) :=
      le_nearest ⟨121, -7, by decide, by decide, by norm_num⟩ (by linarith)
    have hleft : nearest (1 - nearest (b + μ)) ≤ 7 / 128 :=
      nearest_le ⟨7, -7, by decide, by decide, by norm_num⟩ (by linarith)
    have hspread : 17 * k ≤ spread k (redundancy l₂ recoveryStart) := by
      refine mul_le_spread (by decide) hmany hr hr0 hr1 ?_
      push_cast
      linarith
    have hfew := spread_le_of_asksExtra (k := k) (by omega)
      (isEstimate_of_inUnit h₁) asks
    omega

-- =========================================================== keeping

/-- What is needed and allowed is reached, and cutting to what is allowed
keeps it. -/
theorem needed_le_raise {needed allowed : Nat} (n : Nat)
    (h : needed ≤ allowed) :
    needed ≤ min (raise n (some needed) allowed) allowed := by
  refine le_min ?_ h
  unfold raise
  dsimp only
  split
  · exact Nat.le_refl needed
  · next hn => omega

theorem tighten_add_one_le (asks : asksExtra loss = true) (n : Nat) (k : Int) :
    tighten loss n k + 1 ≤ floorInt (n.toFloat * (1.0 - loss)) := by
  unfold tighten
  rw [if_pos asks]
  omega

/-- A coded batch of more than one data packet has one packet to spare. -/
theorem coded_spares (asks : asksExtra loss = true) (room : Nat) :
    (s.coded loss room).k = 1
      ∨ ((s.coded loss room).k : Int) + 1
        ≤ floorInt ((s.coded loss room).n.toFloat * (1.0 - loss)) := by
  have htight := tighten_add_one_le asks (min (s.draft loss room).2 s.fieldSize)
    (s.draft loss room).1
  unfold coded
  dsimp only
  omega

-- ========================================================= every size

/-- A known loss that is not above the limit leaves one packet to spare in
every batch that is handed out: in fresh data of more than one packet, and
in recovered packets wherever the extra packet is allowed. -/
theorem extra_packet (coding : s.useCoding = true) (hl : inUnit loss = true)
    (hle : loss ≤ extraLimit) (k : Nat) (coherenceUs packetUs : UInt32) :
    (∀ size, s.data loss coherenceUs packetUs = .ok size →
        size.k = 1
          ∨ (size.k : Int) + 1 ≤ floorInt (size.n.toFloat * (1.0 - loss)))
      ∧ (∀ size, s.timeout loss k = .ok size →
        spread k loss + 1 ≤ s.fieldSize → spread k loss + 1 ≤ size.n)
      ∧ ∀ size, s.retransmission loss k coherenceUs packetUs = .ok size →
        spread k loss + 1 ≤ min (fit coherenceUs packetUs) s.fieldSize →
          spread k loss + 1 ≤ size.n := by
  have asks := asksExtra_of_inUnit hl hle
  have coded_of {plain : Prop} (h : s.useCoding = false ∧ plain) : False := by
    rw [coding] at h
    cases h.1
  refine ⟨?_, ?_, ?_⟩
  · intro size h
    rcases (data_eq_ok h).2 with plain | ⟨-, rfl, -, -⟩
    · exact (coded_of plain).elim
    · exact coded_spares asks _
  · intro size h allowed
    obtain ⟨-, -, -, plain | ⟨-, needed, hneeded, hn⟩⟩ := timeout_eq_ok h
    · exact (coded_of plain).elim
    · rw [hn, needed?_eq_some asks hneeded]
      exact needed_le_raise _ allowed
  · intro size h allowed
    obtain ⟨-, -, -, -, plain | ⟨-, needed, hneeded, hn⟩⟩ :=
      retransmission_eq_ok h
    · exact (coded_of plain).elim
    · rw [hn, needed?_eq_some asks hneeded]
      exact needed_le_raise _ allowed

/-- Few packets at a small loss: the margin alone would take one data packet
more, and send one packet less. -/
theorem extra_packet_of_few :
    inUnit 0.02 = true ∧ (0.02 : Float) ≤ extraLimit
      ∧ data ⟨255, 32, true⟩ 0.02 1000 100 = .ok ⟨8, 10⟩
      ∧ (8 = 1 ∨ (8 : Int) + 1 ≤ floorInt ((10 : Nat).toFloat * (1.0 - 0.02)))
      ∧ timeout ⟨255, 32, true⟩ 0.02 5 = .ok ⟨5, 7⟩ ∧ spread 5 0.02 + 1 ≤ 7
      ∧ retransmission ⟨255, 32, true⟩ 0.02 5 1000 100 = .ok ⟨5, 7⟩ :=
  have hl : inUnit 0.02 = true := by decide +kernel
  have hle : (0.02 : Float) ≤ extraLimit := by decide +kernel
  have hdata : data ⟨255, 32, true⟩ 0.02 1000 100 = .ok ⟨8, 10⟩ := by
    decide +kernel
  have htimeout : timeout ⟨255, 32, true⟩ 0.02 5 = .ok ⟨5, 7⟩ := by
    decide +kernel
  have hretransmission :
      retransmission ⟨255, 32, true⟩ 0.02 5 1000 100 = .ok ⟨5, 7⟩ := by
    decide +kernel
  have spares := extra_packet (s := ⟨255, 32, true⟩) rfl hl hle 5 1000 100
  ⟨hl, hle, hdata, spares.1 _ hdata, htimeout,
    spares.2.1 _ htimeout (by decide +kernel), hretransmission⟩

end LinkAdaptation.Sizer
