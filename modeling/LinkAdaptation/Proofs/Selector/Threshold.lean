/-
The thresholds of robust rate adaptation. What a rate tolerates follows from
two airtimes, its own and that of the rate below, through a quotient, a
complement and a factor, each of them rounded. Two questions about it decide
what a selector does: is it above zero, and is it below one, so that a total
loss exceeds it?

Without rounding it would be `1250 (r - p) / (r (1000 + p))` for a rate `r`
over a rate `p`. A fraction with such a denominator is one, or it is further
from one than all rounding together takes it. It is one for seven pairs of
rates only, and these are computed.
-/
import LinkAdaptation.Proofs.LossMap.Estimate
import LinkAdaptation.Proofs.Number.Whole
import LinkAdaptation.Proofs.RateSet
import LinkAdaptation.Selector.Rraa

namespace LinkAdaptation

variable {x : Float} {rate below : Rate}

-- ============================================================ airtimes

/-- The airtime that thresholds go by, without rounding. -/
def exactAirtime (rate : Rate) : Rat := 80000 / rate.toNat + 80

theorem le_exactAirtime (rate : Rate) : 80 ≤ exactAirtime rate := by
  have hnonneg : (0 : Rat) ≤ 80000 / rate.toNat := by positivity
  unfold exactAirtime
  linarith

theorem value?_referenceAirtime (h : 0 < rate.toNat) :
    ∃ t, value? (referenceAirtime rate) = some t
      ∧ |t - exactAirtime rate| ≤ 1 / 2 ^ 36 := by
  have hword : rate.toNat < 65536 := rate.toNat_lt
  have hone : (1 : Rat) ≤ rate.toNat := by exact_mod_cast h
  have hpos : (0 : Rat) < rate.toNat := by linarith
  have hnumerator : value? 80000.0 = some 80000 := by decide +kernel
  have hspace : value? 80.0 = some 80 := by decide +kernel
  have hrate : value? rate.toFloat = some (rate.toNat : Rat) := by
    rw [toFloat_length]
    exact value?_natCast (by omega)
  have hle : (80000 : Rat) / rate.toNat ≤ 80000 :=
    div_le_self (by norm_num) hone
  have hnonneg : (0 : Rat) ≤ 80000 / rate.toNat := by positivity
  obtain ⟨u, hu, hpayload⟩ := exists_rounded 17
    (value?_div hnumerator hrate hpos.ne')
    (by rw [abs_of_nonneg hnonneg]; exact hle.trans_lt (by norm_num))
    (by decide)
  rw [abs_le] at hpayload
  obtain ⟨t, ht, hsum⟩ := exists_rounded 17 (value?_add hu hspace)
    (by rw [abs_lt]; constructor <;> linarith) (by decide)
  refine ⟨t, ht, ?_⟩
  rw [abs_le] at hsum ⊢
  unfold exactAirtime
  constructor <;> linarith

/-- At rate zero nothing ever arrives. -/
theorem unpack_referenceAirtime_zero :
    unpack (referenceAirtime 0) = .infinity .positive := rfl

-- ========================================================== thresholds

namespace Rraa

theorem value?_tolerance : value? tolerance = some (5 / 4) := by
  decide +kernel

/-- The loss that a rate over another one tolerates. -/
def lossAgainst (rate below : Rate) : Float :=
  tolerance * (1.0 - referenceAirtime rate / referenceAirtime below)

/-- The same without rounding. -/
def exactLossAgainst (rate below : Rate) : Rat :=
  5 / 4 * (1 - exactAirtime rate / exactAirtime below)

/-- What an error in both terms does to a quotient. -/
theorem abs_quotient_sub_le {a b A B ε : Rat} (ha : |a - A| ≤ ε)
    (hb : |b - B| ≤ ε) (hA : 0 ≤ A) (hAB : A ≤ B) (hB : 0 < B) (hpos : 64 ≤ b) :
    |a / b - A / B| ≤ ε / 32 := by
  have hb0 : 0 < b := by linarith
  have hε : 0 ≤ ε := (abs_nonneg _).trans ha
  have hratio : |A / B| ≤ 1 := by
    rw [abs_of_nonneg (by positivity)]
    exact (div_le_one hB).2 hAB
  have hsplit : a / b - A / B = ((a - A) - A / B * (b - B)) / b := by
    field_simp
    ring
  rw [hsplit, abs_div, abs_of_pos hb0, div_le_iff₀ hb0]
  calc |a - A - A / B * (b - B)|
      ≤ |a - A| + |A / B| * |b - B| := by
        rw [← abs_mul]
        exact abs_sub _ _
    _ ≤ ε + 1 * ε := add_le_add ha
        (mul_le_mul hratio hb (abs_nonneg _) (by norm_num))
    _ ≤ ε / 32 * b := by nlinarith

theorem value?_lossAgainst (hbelow : 0 < below.toNat) (h : below < rate) :
    ∃ v, value? (lossAgainst rate below) = some v
      ∧ |v - exactLossAgainst rate below| ≤ 1 / 2 ^ 40 := by
  have hlt : below.toNat < rate.toNat := UInt16.lt_iff_toNat_lt.1 h
  have hone : value? 1.0 = some 1 := value?_one
  have hlow := le_exactAirtime rate
  have hlow' := le_exactAirtime below
  have hslower : exactAirtime rate ≤ exactAirtime below := by
    have hcast : (below.toNat : Rat) ≤ rate.toNat := by exact_mod_cast hlt.le
    have hpos : (0 : Rat) < below.toNat := by exact_mod_cast hbelow
    unfold exactAirtime
    gcongr
  obtain ⟨a, ha, haclose⟩ := value?_referenceAirtime (hbelow.trans hlt)
  obtain ⟨b, hb, hbclose⟩ := value?_referenceAirtime hbelow
  have hb64 : 64 ≤ b := by
    rw [abs_le] at hbclose
    linarith
  have hquotient := abs_quotient_sub_le haclose hbclose (by linarith) hslower
    (by linarith) hb64
  have hunit : 0 ≤ exactAirtime rate / exactAirtime below
      ∧ exactAirtime rate / exactAirtime below ≤ 1 :=
    ⟨div_nonneg (by linarith) (by linarith),
      (div_le_one (by linarith)).2 hslower⟩
  -- the quotient, its complement and the product, each rounded once
  rw [abs_le] at hquotient
  obtain ⟨u, hu, huclose⟩ := exists_rounded 1
    (value?_div ha hb (by linarith))
    (by rw [abs_lt]; constructor <;> linarith) (by decide)
  rw [abs_le] at huclose
  obtain ⟨w, hw, hwclose⟩ := exists_rounded 1 (value?_sub hone hu)
    (by rw [abs_lt]; constructor <;> linarith) (by decide)
  rw [abs_le] at hwclose
  obtain ⟨v, hv, hvclose⟩ := exists_rounded 2 (value?_mul value?_tolerance hw)
    (by rw [abs_lt]; constructor <;> linarith) (by decide)
  refine ⟨v, hv, ?_⟩
  rw [abs_le] at hvclose ⊢
  unfold exactLossAgainst
  constructor <;> linarith

/-- Without rounding a threshold is a fraction of whole numbers. -/
theorem exactLossAgainst_eq (hbelow : 0 < below.toNat)
    (hrate : 0 < rate.toNat) :
    exactLossAgainst rate below
      = 1250 * ((rate.toNat : Rat) - below.toNat)
        / (rate.toNat * (1000 + below.toNat)) := by
  have hp : (0 : Rat) < below.toNat := by exact_mod_cast hbelow
  have hr : (0 : Rat) < rate.toNat := by exact_mod_cast hrate
  unfold exactLossAgainst exactAirtime
  field_simp
  ring

/-- The denominator of a threshold has 33 bits. -/
theorem denominator_le (rate below : Rate) :
    (rate.toNat : Rat) * (1000 + below.toNat) ≤ 2 ^ 33 := by
  have hr : (rate.toNat : Rat) ≤ 65535 := by
    exact_mod_cast Nat.le_of_lt_succ rate.toNat_lt
  have hp : (below.toNat : Rat) ≤ 65535 := by
    exact_mod_cast Nat.le_of_lt_succ below.toNat_lt
  calc (rate.toNat : Rat) * (1000 + below.toNat)
      ≤ 65535 * (1000 + 65535) := by gcongr
    _ ≤ 2 ^ 33 := by norm_num

/-- What a rate over another one tolerates without rounding, is larger than
all that rounding adds, and is one or further from it than that. -/
theorem exactLossAgainst_gaps (hbelow : 0 < below.toNat) (h : below < rate) :
    1 / 2 ^ 33 ≤ exactLossAgainst rate below
      ∧ exactLossAgainst rate below ≤ 5 / 4
      ∧ (250 * rate.toNat < 1250 * below.toNat + below.toNat * rate.toNat →
        exactLossAgainst rate below ≤ 1 - 1 / 2 ^ 33)
      ∧ (1250 * below.toNat + below.toNat * rate.toNat < 250 * rate.toNat →
        1 + 1 / 2 ^ 33 ≤ exactLossAgainst rate below) := by
  have hlt : below.toNat < rate.toNat := UInt16.lt_iff_toNat_lt.1 h
  have hrate : 0 < rate.toNat := hbelow.trans hlt
  have hp : (0 : Rat) < below.toNat := by exact_mod_cast hbelow
  have hr : (0 : Rat) < rate.toNat := by exact_mod_cast hrate
  have hstep : (below.toNat : Rat) + 1 ≤ rate.toNat := by exact_mod_cast hlt
  have hle := denominator_le rate below
  have hpos : (0 : Rat) < rate.toNat * (1000 + below.toNat) := by positivity
  rw [exactLossAgainst_eq hbelow hrate]
  refine ⟨?_, ?_, ?_, ?_⟩
  · rw [div_le_div_iff₀ (by norm_num) hpos]
    linarith
  · rw [div_le_iff₀ hpos]
    nlinarith
  · intro hnear
    have hnear : (250 : Rat) * rate.toNat + 1
        ≤ 1250 * below.toNat + below.toNat * rate.toNat := by
      exact_mod_cast hnear
    rw [div_le_iff₀ hpos]
    linarith
  · intro hfar
    have hfar : (1250 : Rat) * below.toNat + below.toNat * rate.toNat + 1
        ≤ 250 * rate.toNat := by
      exact_mod_cast hfar
    rw [le_div_iff₀ hpos]
    linarith

/-- The threshold of the seven pairs for which it would be one without
rounding is one. -/
theorem lossAgainst_of_tie (hbelow : 0 < below.toNat)
    (h : 250 * rate.toNat = 1250 * below.toNat + below.toNat * rate.toNat) :
    lossAgainst rate below = 1.0 := by
  have htable : ∀ p : Fin 250, p.val ≠ 0 →
      1250 * p.val % (250 - p.val) = 0 → 1250 * p.val / (250 - p.val) < 65536 →
        lossAgainst (.ofNat (1250 * p.val / (250 - p.val))) (.ofNat p.val)
          = 1.0 := by decide +kernel
  -- from 250 on, the right side of the tie outweighs the left
  have hsmall : below.toNat < 250 := by
    by_contra hlarge
    have hover : 250 * rate.toNat ≤ below.toNat * rate.toNat :=
      Nat.mul_le_mul_right _ (Nat.not_lt.1 hlarge)
    omega
  have hproduct : 1250 * below.toNat = rate.toNat * (250 - below.toNat) := by
    rw [Nat.mul_sub, Nat.mul_comm rate.toNat below.toNat]
    omega
  have hpos : 0 < 250 - below.toNat := Nat.sub_pos_of_lt hsmall
  have hquotient : 1250 * below.toNat / (250 - below.toNat) = rate.toNat := by
    rw [hproduct, Nat.mul_div_cancel _ hpos]
  have hentry := htable ⟨below.toNat, hsmall⟩ hbelow.ne'
    (by rw [hproduct, Nat.mul_mod_left])
    (by rw [hquotient]; exact rate.toNat_lt)
  dsimp only at hentry
  rw [hquotient, UInt16.ofNat_toNat, UInt16.ofNat_toNat] at hentry
  exact hentry

theorem lossAgainst_lt_one_iff (hbelow : 0 < below.toNat)
    (h : below < rate) :
    lossAgainst rate below < 1.0
      ↔ 250 * rate.toNat
        < 1250 * below.toNat + below.toNat * rate.toNat := by
  obtain ⟨v, hv, hclose⟩ := value?_lossAgainst hbelow h
  obtain ⟨-, -, hnear, hfar⟩ := exactLossAgainst_gaps hbelow h
  rw [abs_le] at hclose
  rw [lt_iff_of_value? hv value?_one]
  constructor
  · intro hlt
    by_contra hge
    rcases (Nat.not_lt.1 hge).lt_or_eq with hover | htie
    · have hlarge := hfar hover
      linarith
    · rw [lossAgainst_of_tie hbelow htie.symm, value?_one] at hv
      rw [← Option.some_inj.1 hv] at hlt
      exact lt_irrefl _ hlt
  · intro hunder
    have hsmall := hnear hunder
    linarith

/-- Over rate zero, everything is tolerated and more. -/
theorem value?_lossAgainst_zero (h : 0 < rate.toNat) :
    value? (lossAgainst rate 0) = some (5 / 4) := by
  have hexact : Representable (5 / 4) := representable_of_value? value?_tolerance
  obtain ⟨a, ha, -⟩ := value?_referenceAirtime h
  have hshare := value?_complement
    (value?_div_infinity ha unpack_referenceAirtime_zero) (le_refl 0) zero_le_one
  rw [sub_zero, nearest_of_representable representable_one] at hshare
  have hproduct := value?_mul value?_tolerance hshare
    (abs_nearest_lt (by rw [abs_of_nonneg (by norm_num)]; norm_num))
  rw [mul_one, nearest_of_representable hexact] at hproduct
  exact hproduct

/-- A threshold is above zero, and not far above one at the most. -/
theorem lossAgainst_range (h : below < rate) :
    ∃ v, value? (lossAgainst rate below) = some v
      ∧ 1 / 2 ^ 34 ≤ v ∧ v ≤ 3 / 2 := by
  have hlt : below.toNat < rate.toNat := UInt16.lt_iff_toNat_lt.1 h
  rcases Nat.eq_zero_or_pos below.toNat with hzero | hpos
  · obtain rfl : below = 0 := UInt16.toNat_inj.1 hzero
    exact ⟨_, value?_lossAgainst_zero hlt, by norm_num, by norm_num⟩
  · obtain ⟨v, hv, hclose⟩ := value?_lossAgainst hpos h
    obtain ⟨hlow, hhigh, -, -⟩ := exactLossAgainst_gaps hpos h
    rw [abs_le] at hclose
    refine ⟨v, hv, ?_, ?_⟩
    · linarith
    · linarith

-- ========================================================= candidates

/-- At the rate below a packet takes less than five times as long. At rate
zero it would take forever. -/
def IsNear (rates : RateSet) (i : rates.Index) : Prop :=
  0 < rates.get (down i)
    ∧ exactAirtime (rates.get (down i)) < 5 * exactAirtime (rates.get i)

instance (rates : RateSet) (i : rates.Index) : Decidable (IsNear rates i) :=
  inferInstanceAs (Decidable (_ ∧ _))

theorem exactAirtime_lt_iff (hbelow : 0 < below.toNat)
    (hrate : 0 < rate.toNat) :
    exactAirtime below < 5 * exactAirtime rate
      ↔ 250 * rate.toNat
        < 1250 * below.toNat + below.toNat * rate.toNat := by
  have hp : (0 : Rat) < below.toNat := by exact_mod_cast hbelow
  have hr : (0 : Rat) < rate.toNat := by exact_mod_cast hrate
  have hgap : (5 * exactAirtime rate - exactAirtime below)
        * (below.toNat * rate.toNat)
      = 320 * (1250 * below.toNat + below.toNat * rate.toNat
        - 250 * rate.toNat) := by
    unfold exactAirtime
    field_simp
    ring
  have hproduct : (0 : Rat) < below.toNat * rate.toNat := mul_pos hp hr
  rw [← sub_pos, ← mul_pos_iff_of_pos_right hproduct, hgap,
    mul_pos_iff_of_pos_left (by norm_num), sub_pos]
  exact_mod_cast Iff.rfl

variable {rates : RateSet} {i : rates.Index}

theorem get_down_lt (h : i.val ≠ 0) : rates.get (down i) < rates.get i :=
  RateSet.get_lt_get (show i.val - 1 < i.val by omega)

theorem tolerableLoss_of_ne (h : i.val ≠ 0) :
    tolerableLoss rates i = lossAgainst (rates.get i) (rates.get (down i)) :=
  if_neg h

/-- A total loss exceeds what a candidate tolerates exactly if there is a
rate below, and it is near. -/
theorem tolerableLoss_lt_iff (hx : value? x = some 1) :
    tolerableLoss rates i < x ↔ i.val ≠ 0 ∧ IsNear rates i := by
  by_cases hbottom : i.val = 0
  · have hone : tolerableLoss rates i = 1.0 := if_pos hbottom
    rw [hone, lt_iff_of_value? value?_one hx]
    exact ⟨fun h => absurd h (lt_irrefl 1), fun h => absurd hbottom h.1⟩
  · have hlt := get_down_lt hbottom
    have hlt' := UInt16.lt_iff_toNat_lt.1 hlt
    obtain ⟨v, hv, -⟩ := lossAgainst_range hlt
    rw [tolerableLoss_of_ne hbottom, and_iff_right hbottom,
      lt_iff_of_value? hv hx, ← lt_iff_of_value? hv value?_one]
    unfold IsNear
    rw [UInt16.lt_iff_toNat_lt]
    rcases Nat.eq_zero_or_pos (rates.get (down i)).toNat with hzero | hpos
    · have hnone : rates.get (down i) = 0 := UInt16.toNat_inj.1 hzero
      rw [hnone] at hlt' ⊢
      rw [lt_iff_of_value? (value?_lossAgainst_zero hlt') value?_one]
      norm_num
    · rw [lossAgainst_lt_one_iff hpos hlt,
        exactAirtime_lt_iff hpos (hpos.trans hlt')]
      exact (and_iff_right hpos).symm

/-- No candidate tolerates nothing. -/
theorem not_tolerableLoss_lt (hx : value? x = some 0) :
    ¬ tolerableLoss rates i < x := by
  by_cases hbottom : i.val = 0
  · have hone : tolerableLoss rates i = 1.0 := if_pos hbottom
    rw [hone, lt_iff_of_value? value?_one hx]
    norm_num
  · obtain ⟨v, hv, hpos, -⟩ := lossAgainst_range (get_down_lt hbottom)
    rw [tolerableLoss_of_ne hbottom, lt_iff_of_value? hv hx, not_lt]
    exact le_trans (by norm_num) hpos

theorem promisingLoss_range (h : i.val + 1 < rates.size) :
    ∃ v, value? (promisingLoss rates i) = some v ∧ 0 < v ∧ v ≤ 3 / 4 := by
  have hdivisor : value? caution = some 2 := by decide +kernel
  have hne : (⟨i.val + 1, h⟩ : rates.Index).val ≠ 0 := Nat.succ_ne_zero _
  obtain ⟨v, hv, hlow, hhigh⟩ := lossAgainst_range (get_down_lt hne)
  rw [← tolerableLoss_of_ne hne] at hv
  have hsmall : Representable (1 / 2 ^ 35) :=
    ⟨1, -35, by decide, by decide, by norm_num⟩
  have hlarge : Representable (3 / 4) :=
    ⟨3, -2, by decide, by decide, by norm_num⟩
  unfold promisingLoss
  rw [dif_pos h]
  refine ⟨_, value?_div hv hdivisor (by norm_num) (abs_nearest_lt ?_), ?_, ?_⟩
  · rw [abs_of_nonneg (by linarith)]
    linarith
  · exact lt_of_lt_of_le (by norm_num) (le_nearest hsmall (by linarith))
  · exact nearest_le hlarge (by linarith)

/-- Without loss the next candidate is tried, if there is one. -/
theorem lt_promisingLoss_iff (hx : value? x = some 0) :
    x < promisingLoss rates i ↔ i.val + 1 < rates.size := by
  by_cases h : i.val + 1 < rates.size
  · obtain ⟨v, hv, hpos, -⟩ := promisingLoss_range h
    rw [lt_iff_of_value? hx hv]
    exact iff_of_true hpos h
  · have hnone : promisingLoss rates i = 0.0 := dif_neg h
    rw [hnone, lt_iff_of_value? hx value?_zero]
    exact iff_of_false (lt_irrefl 0) h

/-- With a total loss it is not. -/
theorem not_lt_promisingLoss (hx : value? x = some 1) :
    ¬ x < promisingLoss rates i := by
  by_cases h : i.val + 1 < rates.size
  · obtain ⟨v, hv, -, hle⟩ := promisingLoss_range h
    rw [lt_iff_of_value? hx hv]
    linarith
  · have hnone : promisingLoss rates i = 0.0 := dif_neg h
    rw [hnone, lt_iff_of_value? hx value?_zero]
    norm_num

end Rraa

end LinkAdaptation
