/-
More loss, more protection. A flush is spread over its redundancy, as far as
the field has room for it, and raised by the extra packet. Both grow with
the loss, so the packets sent do too while both count, or while only the
redundancy does.

What is left is the loss at which the extra packet stops: it is asked for up
to a limit, and only as long as it fits the field. Where the redundancy is
not cut to the field, it has outgrown the extra packet by then. Where it is
cut, the field it leaves is one packet short of the whole, and a rounding
decides whether that packet is sent. So there is one exception, and it is
exact: the extra packet fills the field at the smaller loss, and at the
larger one a single packet of the field stays unused.
-/
import LinkAdaptation.Proofs.Batch.Extra

namespace LinkAdaptation.Sizer

variable {s : Sizer} {k : Nat} {loss l₁ l₂ : Float} {size : BatchSize}
  {a b p : Rat}

-- ============================================================ flushes

/-- The packets that the redundancy takes, as far as the field has room for
it. -/
def cover (s : Sizer) (k : Nat) (loss : Float) : Nat :=
  min (spread k (minNum (redundancy loss recoveryStart) (s.headroom k)))
    s.fieldSize

/-- The extra packet is asked for, and the field has room for it. -/
def AddsExtra (s : Sizer) (k : Nat) (loss : Float) : Prop :=
  asksExtra loss = true ∧ spread k loss + 1 ≤ s.fieldSize

theorem timeout_of_addsExtra (h : s.timeout loss k = .ok size)
    (coding : s.useCoding = true) (adds : s.AddsExtra k loss) :
    size.n = max (s.cover k loss) (spread k loss + 1) := by
  obtain ⟨-, -, -, ⟨plain, -⟩ | ⟨-, needed, hneeded, hn⟩⟩ := timeout_eq_ok h
  · rw [coding] at plain
    cases plain
  · have hle := adds.2
    rw [hn, needed?_eq_some adds.1 hneeded]
    unfold raise cover
    dsimp only
    split <;> omega

theorem timeout_of_not_addsExtra (h : s.timeout loss k = .ok size)
    (coding : s.useCoding = true) (adds : ¬ s.AddsExtra k loss) :
    size.n = s.cover k loss := by
  obtain ⟨-, -, -, ⟨plain, -⟩ | ⟨-, needed, hneeded, hn⟩⟩ := timeout_eq_ok h
  · rw [coding] at plain
    cases plain
  · rw [hn]
    by_cases asks : asksExtra loss = true
    · have hlt : ¬ spread k loss + 1 ≤ s.fieldSize := fun hle => adds ⟨asks, hle⟩
      rw [needed?_eq_some asks hneeded]
      unfold raise cover
      dsimp only
      rw [if_neg fun h => hlt h.2]
    · unfold needed? at hneeded
      rw [if_neg asks] at hneeded
      cases hneeded
      rfl

-- ================================================== room in the field

/-- What a flush leaves to the data, where it is cut to the field: nearly
the share of the field that the data fills. Three roundings lie between
them. -/
theorem value?_headroom_near (hs : s.Proper) (hk : 1 ≤ k) (hle : k ≤ s.maxK) :
    ∃ q, value? (s.headroom k) = some q ∧ 0 ≤ q ∧ q < 1
      ∧ nearest (1 - q)
        ≤ k / (s.fieldSize - 1 : Nat) + 3 / 18014398509481984 := by
  have hkf := hs.maxK_lt
  have hword := hs.fieldSize_le
  have hwhole := hs.maxK_lt_whole
  obtain ⟨q, hq, low, high, heq⟩ := value?_headroom hs.toRoomy
    hs.fieldSize_le_word hk hle (by omega)
  obtain ⟨hf0, hpos, hone⟩ := share_of_field (f := s.fieldSize - 1) hk
    (by omega) (by omega)
  have hfield : nearest (s.fieldSize - 1 : Nat) = (s.fieldSize - 1 : Nat) :=
    nearest_of_representable (representable_natCast (by omega))
  have hshare : 1 / 4294967296 ≤ (k : Rat) / nearest (s.fieldSize - 1 : Nat) := by
    have hk1 : (1 : Rat) ≤ k := by exact_mod_cast hk
    have hf1 : ((s.fieldSize - 1 : Nat) : Rat) ≤ 4294967296 := by
      exact_mod_cast (by omega : s.fieldSize - 1 ≤ 4294967296)
    rw [le_div_iff₀ hf0, hfield]
    linarith
  have hfilled : 1 / 4294967296 ≤ filled k (s.fieldSize - 1) :=
    le_nearest ⟨1, -32, by decide, by decide, by norm_num⟩ hshare
  have hfilled1 : filled k (s.fieldSize - 1) ≤ 1 :=
    nearest_le representable_one hone
  have hlt : q ≤ 1 - 1 / 4294967296 := by
    rw [heq]
    exact nearest_le ⟨4294967295, -32, by decide, by decide, by norm_num⟩
      (by linarith)
  refine ⟨q, hq, low, by linarith, ?_⟩
  have hfill : |filled k (s.fieldSize - 1) - _| ≤ _ :=
    abs_nearest_sub_le_of_inUnit hpos hone
  have hhead := abs_nearest_sub_le_of_inUnit (sub_nonneg.2 hfilled1)
    (sub_le_self 1 (by linarith : 0 ≤ filled k (s.fieldSize - 1)))
  have hleft := abs_nearest_sub_le_of_inUnit (sub_nonneg.2 high)
    (sub_le_self 1 low)
  rw [← heq] at hhead
  rw [hfield] at hfill
  linarith [(abs_le.1 hfill).2, (abs_le.1 hhead).1, (abs_le.1 hleft).2]

/-- A flush that is cut to the field fills all of it but one packet, unless
it has many packets for each one of data. -/
theorem headroom_reach (hs : s.Proper) (hk : 1 ≤ k) (hle : k ≤ s.maxK) :
    s.fieldSize ≤ spread k (s.headroom k) + 1
      ∨ 17 * k ≤ spread k (s.headroom k) := by
  have hkf := hs.maxK_lt
  have hword := hs.fieldSize_le
  obtain ⟨q, hq, low, high, hnear⟩ := value?_headroom_near hs hk hle
  obtain ⟨f, hf⟩ : ∃ f, f = s.fieldSize - 1 := ⟨_, rfl⟩
  rw [← hf] at hnear
  have hf1 : (1 : Rat) ≤ f := by exact_mod_cast (by omega : 1 ≤ f)
  have hf2 : (f : Rat) ≤ 4294967296 := by exact_mod_cast (by omega : f ≤ 4294967296)
  have hshare : (k : Rat) / f * f = k := div_mul_cancel₀ _ (by linarith)
  by_cases hmany : 18 * k ≤ f
  · right
    have hmany' : (18 : Rat) * k ≤ f := by exact_mod_cast hmany
    have hsmall : (k : Rat) / f ≤ 1 / 18 := by
      rw [div_le_iff₀ (by linarith)]
      linarith
    refine mul_le_spread (by decide) (by omega) hq low high ?_
    push_cast
    linarith
  · left
    have hfew : (f : Rat) ≤ 18 * k := by exact_mod_cast (by omega : f ≤ 18 * k)
    have hlarge : 1 / 18 ≤ (k : Rat) / f := by
      rw [le_div_iff₀ (by linarith)]
      linarith
    have hreach : f ≤ spread k (s.headroom k) := by
      refine le_spread_of_half (by omega) (by omega) hq low high ?_
      calc ((f : Rat) - 1 / 2) * nearest (1 - q)
          ≤ (f - 1 / 2) * (k / f + 3 / 18014398509481984) :=
            mul_le_mul_of_nonneg_left hnear (by linarith)
        _ = k / f * f + f * (3 / 18014398509481984) - k / f / 2
            - 3 / 18014398509481984 / 2 := by ring
        _ ≤ k := by linarith
    omega

-- ======================================================= two losses

/-- What the redundancy takes grows with the loss. -/
theorem cover_mono (hs : s.Proper) (hk : 1 ≤ k) (hle : k ≤ s.maxK)
    (h₁ : inUnit l₁ = true) (h₂ : inUnit l₂ = true) (h : l₁ ≤ l₂) :
    s.cover k l₁ ≤ s.cover k l₂ := by
  have hwhole := hs.maxK_lt_whole
  obtain ⟨μ, hμ, hμ0, hμ1⟩ := value?_margin
  obtain ⟨a, ha, ha0, ha1⟩ := inUnit_iff.1 h₁
  obtain ⟨b, hb, hb0, hb1⟩ := inUnit_iff.1 h₂
  obtain ⟨q, hq, low, high, -⟩ := value?_headroom_near hs hk hle
  have hab : a ≤ b := (le_iff_of_value? ha hb).1 h
  have hr₁ := value?_redundancy_known h₁ ha ha0 ha1 hμ (by linarith) hμ1
    recoveryStart
  have hr₂ := value?_redundancy_known h₂ hb hb0 hb1 hμ (by linarith) hμ1
    recoveryStart
  have hr : nearest (a + μ) ≤ nearest (b + μ) := nearest_mono (by linarith)
  have hmono := spread_mono (k := k) (by omega) (value?_minNum hr₁ hq)
    (value?_minNum hr₂ hq) (le_min (nearest_nonneg (by linarith)) low)
    (min_le_min_right q hr) ((min_le_right _ _).trans_lt high)
  exact min_le_min_right _ hmono

/-- Where the redundancy is not cut, it has outgrown an extra packet that is
no longer added. -/
theorem extra_le_cover (hs : s.Proper) (hk : 1 ≤ k) (hle : k ≤ s.maxK)
    (h₁ : inUnit l₁ = true) (h₂ : inUnit l₂ = true)
    (adds : s.AddsExtra k l₁) (stops : ¬ s.AddsExtra k l₂)
    (uncut : ¬ s.headroom k < redundancy l₂ recoveryStart) :
    spread k l₁ + 1 ≤ s.cover k l₂ := by
  have hkf := hs.maxK_lt
  have hword := hs.fieldSize_le
  obtain ⟨q, hq, -, high, -⟩ := value?_headroom_near hs hk hle
  obtain ⟨r, hr, -⟩ := value?_redundancy recoveryStart
    (isEstimate_of_inUnit h₂) rfl
  have hrq : r ≤ q := not_lt.1 fun hlt => uncut ((lt_iff_of_value? hq hr).2 hlt)
  have hlt : redundancy l₂ recoveryStart < 1.0 :=
    (lt_iff_of_value? hr value?_one).2 (hrq.trans_lt high)
  unfold cover
  rw [minNum_of_not_lt hr hq uncut]
  exact le_min
    (extra_le_spread hk (by omega) h₁ h₂ adds.1 adds.2 stops hlt) adds.2

/-- Where the redundancy is cut, it takes no fewer packets than an extra
packet does, unless that one is the last packet of the field. -/
theorem extra_le_cover_or_last (hs : s.Proper) (hk : 1 ≤ k)
    (hle : k ≤ s.maxK) (h₁ : inUnit l₁ = true) (h₂ : inUnit l₂ = true)
    (adds : s.AddsExtra k l₁)
    (cut : s.headroom k < redundancy l₂ recoveryStart) :
    spread k l₁ + 1 ≤ s.cover k l₂
      ∨ (spread k l₁ + 1 = s.fieldSize ∧ s.cover k l₂ + 1 = s.fieldSize) := by
  have hwhole := hs.maxK_lt_whole
  obtain ⟨q, hq, -⟩ := value?_headroom_near hs hk hle
  obtain ⟨r, hr, -⟩ := value?_redundancy recoveryStart
    (isEstimate_of_inUnit h₂) rfl
  have hfit := adds.2
  have hfew := spread_le_of_asksExtra (k := k) (by omega)
    (isEstimate_of_inUnit h₁) adds.1
  unfold cover
  rw [minNum_of_lt hr hq cut]
  rcases headroom_reach hs hk hle with hreach | hmany <;> omega

-- ========================================================= the result

/-- The one way in which more loss is answered with less: a flush that an
extra packet fills the field with, and the same flush without it, cut to one
packet less. -/
structure LeavesLast (s : Sizer) (k : Nat) (l₁ l₂ : Float) (n₁ n₂ : Nat) :
    Prop where
  coding : s.useCoding = true
  adds : s.AddsExtra k l₁
  stops : ¬ s.AddsExtra k l₂
  cut : s.headroom k < redundancy l₂ recoveryStart
  full : n₁ = s.fieldSize
  unused : n₂ + 1 = s.fieldSize

/-- Two coded flushes, by which of them have an extra packet. -/
theorem coded_flush_monotone (hs : s.Proper) (hk : 1 ≤ k) (hle : k ≤ s.maxK)
    (h₁ : inUnit l₁ = true) (h₂ : inUnit l₂ = true) (h : l₁ ≤ l₂)
    (coding : s.useCoding = true) {n₁ n₂ : Nat}
    (hn₁ : s.timeout l₁ k = .ok ⟨k, n₁⟩) (hn₂ : s.timeout l₂ k = .ok ⟨k, n₂⟩) :
    n₁ ≤ n₂ ∨ s.LeavesLast k l₁ l₂ n₁ n₂ := by
  have hwhole := hs.maxK_lt_whole
  have hcover := cover_mono hs hk hle h₁ h₂ h
  have without (hsize₁ : n₁ = s.cover k l₁) : n₁ ≤ n₂ := by
    by_cases adds₂ : s.AddsExtra k l₂
    · have hsize₂ : n₂ = _ := timeout_of_addsExtra hn₂ coding adds₂
      omega
    · have hsize₂ : n₂ = _ := timeout_of_not_addsExtra hn₂ coding adds₂
      omega
  by_cases adds₁ : s.AddsExtra k l₁
  swap
  · exact .inl (without (timeout_of_not_addsExtra hn₁ coding adds₁))
  have hsize₁ : n₁ = _ := timeout_of_addsExtra hn₁ coding adds₁
  by_cases adds₂ : s.AddsExtra k l₂
  · left
    have hsize₂ : n₂ = _ := timeout_of_addsExtra hn₂ coding adds₂
    obtain ⟨a, ha, ha0, -⟩ := inUnit_iff.1 h₁
    obtain ⟨b, hb, -, hb1⟩ := value?_of_asksExtra (isEstimate_of_inUnit h₂)
      adds₂.1
    have hspread := spread_mono (k := k) (by omega) ha hb ha0
      ((le_iff_of_value? ha hb).1 h) (lt_of_le_of_lt hb1 (by norm_num))
    omega
  have hsize₂ : n₂ = _ := timeout_of_not_addsExtra hn₂ coding adds₂
  by_cases cut : s.headroom k < redundancy l₂ recoveryStart
  · rcases extra_le_cover_or_last hs hk hle h₁ h₂ adds₁ cut with
      hextra | ⟨hfull, hunused⟩
    · left
      omega
    · right
      refine ⟨coding, adds₁, adds₂, cut, ?_, ?_⟩ <;> omega
  · left
    have hextra := extra_le_cover hs hk hle h₁ h₂ adds₁ adds₂ cut
    omega

/-- A larger loss is flushed with as many packets or more, or leaves the last
packet of the field unused. -/
theorem flush_monotone (hs : s.Proper) (hk : 1 ≤ k) (hle : k ≤ s.maxK)
    (h₁ : inUnit l₁ = true) (h₂ : inUnit l₂ = true) (h : l₁ ≤ l₂) :
    ∃ n₁ n₂, s.timeout l₁ k = .ok ⟨k, n₁⟩ ∧ s.timeout l₂ k = .ok ⟨k, n₂⟩
      ∧ (n₁ ≤ n₂ ∨ s.LeavesLast k l₁ l₂ n₁ n₂) := by
  have hwhole := hs.maxK_lt_whole
  have sized {l : Float} (hl : inUnit l = true) :
      ∃ n, s.timeout l k = .ok ⟨k, n⟩ ∧ (s.useCoding = false → n = k) := by
    obtain ⟨size, hsize⟩ := timeout_ok hs.toRoomy hs.fieldSize_le_word
      (isEstimate_of_inUnit hl) hk hle (fun _ => by omega)
    obtain ⟨-, -, rfl, hplain | ⟨coding, -⟩⟩ := timeout_eq_ok hsize
    · exact ⟨size.n, hsize, fun _ => hplain.2⟩
    · exact ⟨size.n, hsize, by rw [coding]; nofun⟩
  obtain ⟨n₁, hn₁, hplain₁⟩ := sized h₁
  obtain ⟨n₂, hn₂, hplain₂⟩ := sized h₂
  refine ⟨n₁, n₂, hn₁, hn₂, ?_⟩
  by_cases coding : s.useCoding = true
  · exact coded_flush_monotone hs hk hle h₁ h₂ h coding hn₁ hn₂
  · rw [Bool.not_eq_true] at coding
    exact .inl ((hplain₁ coding).trans (hplain₂ coding).symm).le

/-- Half of the packets lost, and nine in ten. -/
theorem flush_monotone_half :
    Proper ⟨255, 32, true⟩ ∧ inUnit 0.5 = true ∧ inUnit 0.9 = true
      ∧ (0.5 : Float) ≤ 0.9
      ∧ ∃ n₁ n₂, timeout ⟨255, 32, true⟩ 0.5 32 = .ok ⟨32, n₁⟩
        ∧ timeout ⟨255, 32, true⟩ 0.9 32 = .ok ⟨32, n₂⟩
        ∧ (n₁ ≤ n₂ ∨ LeavesLast ⟨255, 32, true⟩ 32 0.5 0.9 n₁ n₂) :=
  have hs : Proper ⟨255, 32, true⟩ := ⟨⟨by decide, by decide⟩, by decide⟩
  have h₁ : inUnit 0.5 = true := by decide +kernel
  have h₂ : inUnit 0.9 = true := by decide +kernel
  have h : (0.5 : Float) ≤ 0.9 := by decide +kernel
  ⟨hs, h₁, h₂, h, flush_monotone hs (by decide) (by decide) h₁ h₂ h⟩

/-- Full batches in the default field: the extra packet fills the field at a
loss of 0.874, and at 0.9 one packet less is sent. -/
theorem flush_shrinks :
    Proper ⟨255, 32, true⟩ ∧ inUnit 0.874 = true ∧ inUnit 0.9 = true
      ∧ (0.874 : Float) ≤ 0.9
      ∧ timeout ⟨255, 32, true⟩ 0.874 32 = .ok ⟨32, 255⟩
      ∧ timeout ⟨255, 32, true⟩ 0.9 32 = .ok ⟨32, 254⟩ :=
  ⟨⟨⟨by decide, by decide⟩, by decide⟩, by decide +kernel⟩

end LinkAdaptation.Sizer
