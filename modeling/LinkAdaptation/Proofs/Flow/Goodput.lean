/-
What a candidate promises, as a number. The goodput that candidates are
compared by is computed in doubles: a rate in Mbps, times what a loss
leaves of one. None of these figures is an infinity or NaN, and none is
negative; and rounding does not make one vanish, since a rate is at least a
tenth and a loss below one leaves at least the last place of one. So a
goodput is zero for a reason that can be read off the candidate: it is
excluded, its rate is zero, it loses everything, or nothing is known of it
and it lies above the current candidate.
-/
import LinkAdaptation.Proofs.Flow.Decision
import LinkAdaptation.Proofs.Number.Whole

namespace LinkAdaptation

variable {rates : RateSet} {rate : Rate} {loss : Float}

-- =============================================================== rates

theorem representable_sixteenth : Representable (1 / 16) :=
  ⟨1, -4, by decide, by decide, by norm_num⟩

/-- A rate in Mbps is a number of moderate size; only the rate zero makes
it small. -/
theorem value?_mbps (rate : Rate) :
    ∃ q, value? (mbps rate) = some q ∧ 0 ≤ q ∧ q ≤ 65536
      ∧ (rate = 0 → q = 0) ∧ (rate ≠ 0 → 1 / 16 ≤ q) := by
  have hlt : rate.toNat < 65536 := rate.toNat_lt
  have hten : value? (10.0 : Float) = some 10 :=
    value?_natCast (n := 10) (by decide)
  have hrate : value? rate.toFloat = some (rate.toNat : Rat) := by
    rw [toFloat_length]
    exact value?_natCast (by omega)
  have low : (0 : Rat) ≤ rate.toNat / 10 := by positivity
  have high : (rate.toNat : Rat) / 10 ≤ 65536 := by
    have hcast : (rate.toNat : Rat) < 65536 := by exact_mod_cast hlt
    linarith
  refine ⟨nearest (rate.toNat / 10), ?_, nearest_nonneg low, ?_, ?_, ?_⟩
  · refine value?_div hrate hten (by decide) (abs_nearest_lt ?_)
    rw [abs_of_nonneg low]
    exact high.trans (by norm_num)
  · have hrep := representable_natCast (n := 65536) (by decide)
    exact nearest_le (by exact_mod_cast hrep) high
  · intro hzero
    rw [hzero]
    simp [nearest_zero]
  · intro hpos
    have hone : (1 : Rat) ≤ rate.toNat := by
      exact_mod_cast Nat.pos_of_ne_zero fun h => hpos (UInt16.toNat_inj.1 h)
    exact le_nearest representable_sixteenth (by linarith)

-- ============================================================ delivery

/-- What arrives at a rate with a loss: nothing exactly when the rate is
zero or everything is lost. -/
theorem value?_delivered (rate : Rate) (hloss : inUnit loss = true) :
    ∃ q, value? (mbps rate * (1.0 - loss)) = some q ∧ 0 ≤ q
      ∧ (0 < q ↔ rate ≠ 0 ∧ loss < 1.0) := by
  obtain ⟨a, ha, hlow, hhigh⟩ := inUnit_iff.1 hloss
  obtain ⟨r, hr, hr_nonneg, hr_le, hr_zero, hr_ge⟩ := value?_mbps rate
  have hrest := value?_complement ha hlow hhigh
  obtain ⟨hc, hc'⟩ := nearest_inUnit (sub_nonneg.2 hhigh) (sub_le_self 1 hlow)
  have low : 0 ≤ r * nearest (1 - a) := mul_nonneg hr_nonneg hc
  have high : r * nearest (1 - a) ≤ 65536 :=
    (mul_le_of_le_one_right hr_nonneg hc').trans hr_le
  refine ⟨nearest (r * nearest (1 - a)), ?_, nearest_nonneg low, ?_⟩
  · refine value?_mul hr hrest (abs_nearest_lt ?_)
    rw [abs_of_nonneg low]
    exact high.trans (by norm_num)
  · rw [lt_iff_of_value? ha value?_one]
    constructor
    · intro hpos
      constructor
      · intro hzero
        rw [hr_zero hzero, zero_mul, nearest_zero] at hpos
        exact lt_irrefl 0 hpos
      · refine lt_of_le_of_ne hhigh ?_
        intro hall
        rw [hall, sub_self, nearest_zero, mul_zero, nearest_zero] at hpos
        exact lt_irrefl 0 hpos
    · intro h
      obtain ⟨hrate, hbelow⟩ := h
      have hstep : (1 : Rat) / 144115188075855872
          = 1 / 16 * (1 / 9007199254740992) := by norm_num
      have hrep : Representable (1 / 144115188075855872) :=
        ⟨1, -57, by decide, by decide, by norm_num⟩
      have hprod : (1 : Rat) / 144115188075855872 ≤ r * nearest (1 - a) := by
        rw [hstep]
        exact mul_le_mul (hr_ge hrate) (nearest_complement_ge ha hbelow)
          (by norm_num) hr_nonneg
      exact lt_of_lt_of_le (by norm_num) (le_nearest hrep hprod)

-- ============================================================ promises

namespace Flow

variable {f : Flow rates} {i : rates.Index}

/-- Whether a candidate promises anything beside the current one: packets
get through at its rate, or nothing is known and it is no faster. -/
def Promises (f : Flow rates) (current i : rates.Index) : Prop :=
  rates.get i ≠ 0 ∧ if isKnown (f.combinedLoss.lossAt i)
    then f.combinedLoss.lossAt i < 1.0 else i ≤ current

instance (f : Flow rates) (current i : rates.Index) :
    Decidable (f.Promises current i) :=
  inferInstanceAs (Decidable (_ ∧ ite _ _ _))

/-- The goodput of a candidate is a number, not negative, and zero exactly
when the candidate is excluded or promises nothing. -/
theorem value?_goodput (h : f.combinedLoss.Meaningful)
    (bound? : Option Float) (i : rates.Index) :
    ∃ q, value? (f.goodput bound? i) = some q ∧ 0 ≤ q
      ∧ (0 < q ↔ f.isExcluded bound? i = false ∧ f.Promises f.current i) := by
  have hnothing {P : Prop} (hP : ¬ P) :
      ∃ q, value? (0.0 : Float) = some q ∧ 0 ≤ q ∧ (0 < q ↔ P) :=
    ⟨0, value?_zero, le_refl 0, iff_of_false (lt_irrefl 0) hP⟩
  unfold goodput Promises
  dsimp only
  cases hexcluded : f.isExcluded bound? i with
  | true => exact hnothing (by simp)
  | false =>
      rw [if_neg Bool.false_ne_true]
      cases hknown : isKnown (f.combinedLoss.lossAt i) with
      | true =>
          have hloss := inUnit_of_isKnown (h i) hknown
          simpa using value?_delivered (rates.get i) hloss
      | false =>
          rw [if_neg Bool.false_ne_true]
          by_cases habove : f.current < i
          · rw [if_pos habove]
            exact hnothing (by simp [habove])
          · rw [if_neg habove]
            obtain ⟨r, hr, hr_nonneg, -, hr_zero, hr_ge⟩ :=
              value?_mbps (rates.get i)
            refine ⟨r, hr, hr_nonneg, ?_⟩
            constructor
            · intro hpos
              refine ⟨rfl, ?_, by simpa using habove⟩
              intro hzero
              rw [hr_zero hzero] at hpos
              exact lt_irrefl 0 hpos
            · intro hpromises
              exact lt_of_lt_of_le (by norm_num) (hr_ge hpromises.2.1)

end Flow

end LinkAdaptation
