/-
Coded batches fit the coherence time. A batch of lost packets is cut to the
packets that fit. A batch of fresh data starts from them; only where its
data packets are cut to their limit is the number of packets sent computed
anew, and then it is no larger than the one that was cut (`capped_within`).

The limit is read as a signed number on the way. One that uses the sign bit
comes out negative, and what becomes of the batch depends on the share that
redundancy leaves to the data. A share that is not negative drafts no packet
at all, and such a batch is never handed out. A negative share turns the
quotient into a large number, and the batch sent is as long as the field
allows.
-/
import LinkAdaptation.Proofs.Batch.Size

namespace LinkAdaptation.Sizer

variable {s : Sizer} {k room : Nat} {loss : Float} {size : BatchSize}
  {coherenceUs packetUs : UInt32}

/-- The packets of a batch can be sent within one coherence time. -/
structure InTime (coherenceUs packetUs : UInt32) (size : BatchSize) : Prop where
  n_le_fit : size.n ≤ fit coherenceUs packetUs
  airtime_le : size.n * packetUs.toNat ≤ coherenceUs.toNat

/-- As many packets as fit take no longer than the coherence time. -/
theorem inTime_of_le_fit (h : size.n ≤ fit coherenceUs packetUs) :
    InTime coherenceUs packetUs size := by
  refine ⟨h, ?_⟩
  calc size.n * packetUs.toNat
      ≤ fit coherenceUs packetUs * max packetUs.toNat 1 :=
        Nat.mul_le_mul h (Nat.le_max_left _ _)
    _ ≤ coherenceUs.toNat := Nat.div_mul_le_self _ _

-- ========================================================= the draft

/-- A negative number of data packets, spread over a share that is not
negative, takes no packet. -/
theorem ceilSize_negative_spread {limit : Nat} (hlimit : limit ≠ 0)
    (hword : limit ≤ 9223372036854775808)
    (hl : isEstimate loss = true) (hle : redundancy loss dataStart ≤ 1.0) :
    ceilSize (Float.ofInt (-limit) / (1.0 - redundancy loss dataStart)) = 0 := by
  obtain ⟨r, hr, low, -⟩ := value?_redundancy dataStart hl rfl
  have high : r ≤ 1 := (le_iff_of_value? hr value?_one).1 hle
  have hvalue := value?_ofInt_neg hlimit (by omega)
  have hpos : 0 < nearest limit :=
    lt_of_lt_of_le one_pos (le_nearest representable_one
      (by exact_mod_cast Nat.pos_of_ne_zero hlimit))
  rcases high.eq_or_lt with rfl | hlt
  · rw [eq_of_value? hr value?_one one_ne_zero, sub_self_of_value? value?_one]
    have hquot := unpack_div_zero hvalue (by linarith)
    rw [if_neg (by linarith)] at hquot
    exact ceilSize_of_negative hquot
  · have hkept := nearest_complement_pos hr hlt
    have hlimit' : nearest limit ≤ 2 ^ 63 :=
      nearest_le ⟨1, 63, by decide, by decide, by norm_num⟩
        (by exact_mod_cast hword)
    have hfinite : |-nearest limit| ≤ 2 ^ 63 := by
      rw [abs_neg, abs_of_pos hpos]
      exact hlimit'
    have hquot := value?_div hvalue (value?_complement hr low high) hkept.ne'
      (abs_nearest_spread_lt hfinite hr hlt)
    refine Nat.le_zero.1 ((ceilSize_le_iff hquot (by decide)).2 ?_)
    refine nearest_le (by exact_mod_cast representable_zero) ?_
    rw [neg_div, Nat.cast_zero]
    linarith [div_pos hpos hkept]

/-- A draft takes no more packets than there is room for, unless its limit
is read as negative and redundancy leaves a negative share. -/
theorem draft_le_room (hmax : s.maxK ≤ wordMax)
    (hsound : s.maxK < 9223372036854775808 ∨ redundancy loss dataStart ≤ 1.0)
    (hl : isEstimate loss = true) (hk : 1 ≤ s.maxK) (hroom : room ≠ 0)
    (hlt : room < 4294967296) : (s.draft loss room).2 ≤ room := by
  by_cases hsign : s.maxK < 9223372036854775808
  · exact (draft_drafted hk hsign hl (Nat.pos_of_ne_zero hroom) hlt).n_le
  · have hle := hsound.resolve_left hsign
    have hword : wordMax = 18446744073709551615 := rfl
    have hsize : UInt64.size = 18446744073709551616 := rfl
    unfold draft
    dsimp only
    rw [signedWord_of_le (not_lt.1 hsign) hmax]
    split
    · rw [ceilSize_negative_spread (by omega) (by omega) hl hle]
      exact Nat.zero_le room
    · exact Nat.le_refl room

-- ========================================================= every size

/-- What is handed out fits the coherence time: lost packets always, and
fresh data as long as the largest number of data packets is spelled without
a sign, or the redundancy is no more than a whole batch. -/
theorem coded_airtime (hmax : s.maxK ≤ wordMax) (hl : isEstimate loss = true)
    (k : Nat) (coherenceUs packetUs : UInt32) :
    (s.maxK < 9223372036854775808 ∨ redundancy loss dataStart ≤ 1.0 →
        ∀ size, s.data loss coherenceUs packetUs = .ok size →
          InTime coherenceUs packetUs size)
      ∧ ∀ size, s.retransmission loss k coherenceUs packetUs = .ok size →
        InTime coherenceUs packetUs size := by
  refine ⟨?_, ?_⟩
  · intro hsound size h
    obtain ⟨hroom, ⟨-, hn⟩ | ⟨-, hsize, hle, -⟩⟩ := data_eq_ok h
    · exact inTime_of_le_fit (hn.trans_le (Nat.min_le_left _ _))
    · have hk : 1 ≤ size.k := by
        rw [hsize]
        unfold coded
        dsimp only
        omega
      have hdraft := draft_le_room hmax hsound hl (hk.trans hle) hroom
        (fit_lt coherenceUs packetUs)
      refine inTime_of_le_fit ?_
      rw [hsize]
      exact (Nat.min_le_left _ _).trans hdraft
  · intro size h
    have hkeeps := (retransmission_keeps s loss k coherenceUs packetUs).of_eq_ok h
    exact inTime_of_le_fit (hkeeps.2.n_le.trans (Nat.min_le_left _ _))

/-- The limit cuts what would be 33 data packets, and 38 of the 39 packets
that fit are sent. -/
theorem coded_airtime_cut :
    isEstimate 0.1 = true ∧ fit 3900 100 = 39
      ∧ data ⟨255, 32, true⟩ 0.1 3900 100 = .ok ⟨32, 38⟩
      ∧ InTime 3900 100 ⟨32, 38⟩
      ∧ retransmission ⟨255, 32, true⟩ 0.1 32 3900 100 = .ok ⟨32, 38⟩ :=
  have hl : isEstimate 0.1 = true := by decide +kernel
  have hdata : data ⟨255, 32, true⟩ 0.1 3900 100 = .ok ⟨32, 38⟩ := by
    decide +kernel
  ⟨hl, by decide, hdata,
    (coded_airtime (s := ⟨255, 32, true⟩) (by decide) hl 32 3900 100).1
      (.inl (by decide)) _ hdata, by decide +kernel⟩

/-- A limit two below the words is read as minus two. Where every packet is
lost, the share that is left is negative too, and 40 packets are sent in the
time of 9. -/
theorem airtime_overrun :
    isEstimate 1.0 = true
      ∧ ∃ size, data ⟨18446744073709551615, 18446744073709551614, true⟩ 1.0
          20000 2100 = .ok size ∧ ¬ InTime 20000 2100 size :=
  ⟨by decide +kernel, ⟨1, 40⟩, by decide +kernel,
    fun h => absurd h.n_le_fit (by decide)⟩

end LinkAdaptation.Sizer
