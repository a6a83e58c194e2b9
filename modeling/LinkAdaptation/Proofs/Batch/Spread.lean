/-
The packets that a loss takes. Redundancy is the loss with a margin on top,
and `k` packets are spread over a share by a quotient of two doubles, rounded
up to a size. The share is complemented and divided by in doubles, so each
bound on the packets is a bound on a quotient of rounded numbers: a number of
packets is reached if the part of it that is left to the data holds no more
than `k`.

Where the share is one, there is nothing left to divide by. The quotient is
an infinity then, and the packets are as many as a size can count.
-/
import LinkAdaptation.Batch.Size
import LinkAdaptation.Proofs.LossMap.Estimate
import LinkAdaptation.Proofs.Number.Whole

namespace LinkAdaptation.Sizer

variable {k n : Nat} {loss share l₁ l₂ : Float} {a b p q : Rat}

-- ========================================================= redundancy

theorem value?_margin :
    ∃ μ, value? margin = some μ ∧ 3 / 64 ≤ μ ∧ μ ≤ 1 := by
  have hbound : value? 0.046875 = some (3 / 64) := by decide +kernel
  exact value?_of_between hbound value?_one rfl rfl

/-- A share with the margin on top. -/
theorem value?_add_margin {x : Float} {μ : Rat} (hx : value? x = some a)
    (hμ : value? margin = some μ) (low : 0 ≤ a + μ) (high : a + μ ≤ 2) :
    value? (x + margin) = some (nearest (a + μ)) := by
  refine value?_add hx hμ (abs_nearest_lt ?_)
  rw [abs_of_nonneg low]
  exact high.trans (by norm_num)

/-- The redundancy of an estimate is a number between zero and two. -/
theorem value?_redundancy (start : Float) (hl : isEstimate loss = true)
    (hstart : inUnit start = true) :
    ∃ r, value? (redundancy loss start) = some r ∧ 0 ≤ r ∧ r ≤ 2 := by
  obtain ⟨μ, hμ, low, high⟩ := value?_margin
  have hsum {x : Float} (hx : inUnit x = true) :
      ∃ r, value? (x + margin) = some r ∧ 0 ≤ r ∧ r ≤ 2 := by
    obtain ⟨a, hx, ha, ha'⟩ := inUnit_iff.1 hx
    have hrep : Representable 2 := by
      exact_mod_cast representable_natCast (n := 2) (by decide)
    have hpos : 0 ≤ a + μ := by linarith
    have htwo : a + μ ≤ 2 := by linarith
    exact ⟨_, value?_add_margin hx hμ hpos htwo, nearest_nonneg hpos,
      nearest_le hrep htwo⟩
  unfold redundancy
  split
  · next known => exact hsum (inUnit_of_isKnown hl known)
  · exact hsum hstart

/-- The redundancy of a known loss. -/
theorem value?_redundancy_known {μ : Rat} (hl : inUnit loss = true)
    (ha : value? loss = some a) (low : 0 ≤ a) (high : a ≤ 1)
    (hμ : value? margin = some μ) (hμ0 : 0 ≤ μ) (hμ1 : μ ≤ 1) (start : Float) :
    value? (redundancy loss start) = some (nearest (a + μ)) := by
  unfold redundancy
  rw [isKnown_of_inUnit hl, if_pos rfl]
  exact value?_add_margin ha hμ (by linarith) (by linarith)

-- ============================================================= spread

/-- Division by what a share leaves stays far from the infinities. -/
theorem abs_nearest_spread_lt (hq : |q| ≤ 2 ^ 63) (hp : value? share = some p)
    (high : p < 1) : |nearest (q / nearest (1 - p))| < 2 ^ (1024 : Int) := by
  have hge := nearest_complement_ge hp high
  have hpos := nearest_complement_pos hp high
  refine abs_nearest_lt_of_le (t := 116) ?_ (by decide)
  rw [abs_div, abs_of_pos hpos, div_le_iff₀ hpos]
  calc |q| ≤ 2 ^ 63 := hq
    _ ≤ 2 ^ 116 * (1 / 9007199254740992) := by norm_num
    _ ≤ 2 ^ 116 * nearest (1 - p) := mul_le_mul_of_nonneg_left hge (by positivity)

/-- The quotient that spreads packets over a share. -/
theorem value?_spread (hk : k ≤ 9007199254740992) (hp : value? share = some p)
    (low : 0 ≤ p) (high : p < 1) :
    value? (k.toFloat / (1.0 - share))
      = some (nearest (k / nearest (1 - p))) := by
  have hpos := nearest_complement_pos hp high
  refine value?_div (value?_natCast_of_le hk)
    (value?_complement hp low high.le) hpos.ne'
    (abs_nearest_spread_lt ?_ hp high)
  rw [abs_of_nonneg (Nat.cast_nonneg k)]
  exact_mod_cast hk.trans (by decide)

/-- A number of packets whose part beside the share holds no more than `k`
is not more than `k` is spread over. -/
theorem le_spread_of_mul_le (hk : k ≤ 9007199254740992)
    (hn : n ≤ 9007199254740992) (hp : value? share = some p) (low : 0 ≤ p)
    (high : p < 1) (h : n * nearest (1 - p) ≤ k) : n ≤ spread k share := by
  have hpos := nearest_complement_pos hp high
  exact le_ceilSize (value?_spread hk hp low high) hn
    (le_nearest (representable_natCast_of_le hn) ((le_div_iff₀ hpos).2 h))

/-- Spreading packets over a share takes no fewer packets. Where the share
is all there is, the quotient has no bound. -/
theorem le_spread (hpos : 1 ≤ k) (hk : k ≤ 9007199254740992)
    (hp : value? share = some p) (low : 0 ≤ p) (high : p ≤ 1) :
    k ≤ spread k share := by
  rcases high.eq_or_lt with rfl | hlt
  · have hone := eq_of_value? hp value?_one one_ne_zero
    have hword : wordMax = 18446744073709551615 := rfl
    have hpos : (0 : Rat) < k := by exact_mod_cast hpos
    have hquot := unpack_div_zero (value?_natCast_of_le hk) hpos.ne'
    rw [if_pos hpos] at hquot
    unfold spread
    rw [hone, sub_self_of_value? value?_one, ceilSize_of_positive hquot]
    omega
  · have hle : nearest (1 - p) ≤ 1 :=
      (nearest_inUnit (sub_nonneg.2 high) (sub_le_self 1 low)).2
    exact le_spread_of_mul_le hk hk hp low hlt
      (mul_le_of_le_one_right (Nat.cast_nonneg k) hle)

/-- A larger share takes more packets. -/
theorem spread_mono (hk : k ≤ 9007199254740992) (h₁ : value? l₁ = some a)
    (h₂ : value? l₂ = some b) (low : 0 ≤ a) (h : a ≤ b) (high : b < 1) :
    spread k l₁ ≤ spread k l₂ := by
  have hpos := nearest_complement_pos h₂ high
  have hkept : nearest (1 - b) ≤ nearest (1 - a) := nearest_mono (by linarith)
  exact ceilSize_mono (value?_spread hk h₁ low (h.trans_lt high))
    (value?_spread hk h₂ (low.trans h) high)
    (nearest_mono (div_le_div_of_nonneg_left (Nat.cast_nonneg k) hpos hkept))

/-- Where no more than one packet in `m` is left to the data, each packet of
data takes `m`. -/
theorem mul_le_spread {m : Nat} (hm : 0 < m)
    (hmk : m * k ≤ 9007199254740992) (hp : value? share = some p)
    (low : 0 ≤ p) (high : p < 1) (h : nearest (1 - p) ≤ 1 / m) :
    m * k ≤ spread k share := by
  have hk : k ≤ m * k := Nat.le_mul_of_pos_left k hm
  refine le_spread_of_mul_le (hk.trans hmk) hmk hp low high ?_
  calc ((m * k : Nat) : Rat) * nearest (1 - p) ≤ (m * k : Nat) * (1 / m) :=
        mul_le_mul_of_nonneg_left h (Nat.cast_nonneg _)
    _ = k := by
        push_cast
        field_simp

/-- A number of packets is reached as soon as the quotient passes the half
below it. -/
theorem le_spread_of_half (hk : k ≤ 9007199254740992)
    (hn : n ≤ 4294967296) (hp : value? share = some p) (low : 0 ≤ p)
    (high : p < 1) (h : (n - 1 / 2) * nearest (1 - p) ≤ k) :
    n ≤ spread k share := by
  cases n with
  | zero => exact Nat.zero_le _
  | succ n =>
      have hword : wordMax = 18446744073709551615 := rfl
      have hpos := nearest_complement_pos hp high
      have hrep : Representable (n + 1 / 2) := by
        refine ⟨2 * n + 1, -1, ?_, by decide, ?_⟩
        · rw [abs_of_nonneg (by omega)]
          omega
        · push_cast
          ring
      have hquot : (n : Rat) + 1 / 2 ≤ nearest (k / nearest (1 - p)) := by
        refine le_nearest hrep ((le_div_iff₀ hpos).2 ?_)
        push_cast at h
        linarith
      refine (lt_ceilSize_iff (value?_spread hk hp low high) (by omega)).2 ?_
      linarith

-- ======================================================= extra packet

theorem value?_extraLimit :
    ∃ q, value? extraLimit = some q ∧ 115 / 128 ≤ q ∧ q ≤ 15 / 16 := by
  have hlow : value? 0.8984375 = some (115 / 128) := by decide +kernel
  have hhigh : value? 0.9375 = some (15 / 16) := by decide +kernel
  exact value?_of_between hlow hhigh rfl rfl

/-- Where an extra packet is asked for, the loss leaves a sixteenth. -/
theorem value?_of_asksExtra (hl : isEstimate loss = true)
    (h : asksExtra loss = true) :
    ∃ q, value? loss = some q ∧ 0 ≤ q ∧ q ≤ 15 / 16 := by
  unfold asksExtra at h
  rw [Bool.and_eq_true, decide_eq_true_iff] at h
  obtain ⟨known, hle⟩ := h
  obtain ⟨q, hq, low, -⟩ := inUnit_iff.1 (inUnit_of_isKnown hl known)
  obtain ⟨t, ht, -, high⟩ := value?_extraLimit
  exact ⟨q, hq, low, ((le_iff_of_value? hq ht).1 hle).trans high⟩

/-- Such a loss takes sixteen packets for one at the most. -/
theorem spread_le_of_asksExtra (hk : k ≤ 9007199254740992)
    (hl : isEstimate loss = true) (h : asksExtra loss = true) :
    spread k loss ≤ 16 * k := by
  have hword : wordMax = 18446744073709551615 := rfl
  obtain ⟨q, hq, low, high⟩ := value?_of_asksExtra hl h
  have hone : q < 1 := lt_of_le_of_lt high (by norm_num)
  have hge : 1 / 16 ≤ nearest (1 - q) :=
    le_nearest ⟨1, -4, by decide, by decide, by norm_num⟩ (by linarith)
  have hpos : 0 < nearest (1 - q) := lt_of_lt_of_le (by norm_num) hge
  have hrep : Representable ((16 * k : Nat) : Rat) := by
    obtain ⟨m, e, hm, he, hk⟩ := representable_natCast_of_le hk
    refine ⟨m, e + 4, hm, by omega, ?_⟩
    push_cast
    rw [hk, zpow_add₀ (by decide)]
    ring
  have hquot : (k : Rat) / nearest (1 - q) ≤ (16 * k : Nat) := by
    rw [div_le_iff₀ hpos]
    have := mul_le_mul_of_nonneg_left hge (Nat.cast_nonneg (α := Rat) (16 * k))
    push_cast at this ⊢
    linarith
  exact (ceilSize_le_iff (value?_spread hk hq low hone) (by omega)).2
    (nearest_le hrep hquot)

/-- Asking for an extra packet does not fail. -/
theorem needed?_ok (hk : k ≤ 9007199254740992) (hl : isEstimate loss = true) :
    ∃ needed, needed? k loss = .ok needed := by
  have hword : wordMax = 18446744073709551615 := rfl
  unfold needed?
  split
  · next h =>
      have hspread := spread_le_of_asksExtra hk hl h
      rw [if_pos (by omega)]
      exact ⟨_, rfl⟩
  · exact ⟨_, rfl⟩

/-- Raising a number of packets lowers it never. -/
theorem le_raise (n : Nat) (needed : Option Nat) (allowed : Nat) :
    n ≤ raise n needed allowed := by
  unfold raise
  cases needed with
  | none => exact Nat.le_refl n
  | some m =>
      dsimp only
      split
      · next h => exact h.1.le
      · exact Nat.le_refl n

end LinkAdaptation.Sizer
