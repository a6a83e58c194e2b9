/-
How the model of doubles rounds. A result is computed as a mantissa, an
exponent, and two bits that tell where the exact result lies between the
mantissa and the next one. The mantissa is shifted to the right until it
has its 53 bits, the two bits taking note of what is shifted out, and is
then rounded. The outcome is `nearest` of the exact result.
-/
import LinkAdaptation.Proofs.Number.Double

namespace LinkAdaptation

open Float.Model (Format UnpackedFloat)
open Float.Model.UnpackedFloat
  (Sign Accuracy ExtendedMantissa shiftToTargetExponent roundWithAccuracy)

-- ================================================= mantissas with a rest

/-- A mantissa with its two bits describes a number: the number lies from
the mantissa up to the next one, and the bits tell how the rest compares
with zero and a half. -/
structure Describes (em : ExtendedMantissa) (y : Rat) : Prop where
  low : em.mantissa ≤ y
  high : y < em.mantissa + 1
  round : em.roundBit = true ↔ 1 / 2 ≤ y - em.mantissa
  sticky : em.stickyBit = true
    ↔ y - em.mantissa ≠ 0 ∧ y - em.mantissa ≠ 1 / 2

/-- A mantissa without a rest describes itself. -/
theorem describes_exact (m : Nat) :
    Describes (ExtendedMantissa.ofMantissaAndAccuracy m .exact) m := by
  refine ⟨le_refl _, lt_add_one _, ?_, ?_⟩ <;>
    simp [ExtendedMantissa.ofMantissaAndAccuracy]

/-- Halving a number shifts its mantissa by one. -/
theorem Describes.shiftRightOne {em : ExtendedMantissa} {y : Rat}
    (h : Describes em y) : Describes em.shiftRightOne (y / 2) := by
  obtain ⟨low, high, hround, hsticky⟩ := h
  have hrest : (em.roundBit || em.stickyBit) = true
      ↔ y - em.mantissa ≠ 0 := by
    rw [Bool.or_eq_true, hround, hsticky]
    constructor
    · intro hbits
      rcases hbits with hge | ⟨hne, -⟩
      · linarith
      · exact hne
    · intro hne
      by_cases hhalf : 1 / 2 ≤ y - em.mantissa
      · exact .inl hhalf
      · exact .inr ⟨hne, by linarith⟩
  rcases Nat.mod_two_eq_zero_or_one em.mantissa with even | odd
  · have hcast : (em.mantissa : Rat) = 2 * (em.mantissa / 2 : Nat) := by
      exact_mod_cast (by omega : em.mantissa = 2 * (em.mantissa / 2))
    have hbit : (em.mantissa % 2 != 0) = false := by rw [even]; rfl
    refine ⟨?_, ?_, ?_, hrest.trans ?_⟩ <;>
      simp only [ExtendedMantissa.shiftRightOne]
    · linarith
    · linarith
    · rw [hbit]
      exact ⟨(absurd · (by simp)), fun h => by linarith⟩
    · refine ⟨fun hne => ⟨fun h => hne ?_, fun h => ?_⟩,
        fun ⟨hne, _⟩ h => hne ?_⟩ <;> linarith
  · have hcast : (em.mantissa : Rat) = 2 * (em.mantissa / 2 : Nat) + 1 := by
      exact_mod_cast (by omega : em.mantissa = 2 * (em.mantissa / 2) + 1)
    have hbit : (em.mantissa % 2 != 0) = true := by rw [odd]; rfl
    refine ⟨?_, ?_, ?_, hrest.trans ?_⟩ <;>
      simp only [ExtendedMantissa.shiftRightOne]
    · linarith
    · linarith
    · rw [hbit]
      exact ⟨fun _ => by linarith, fun _ => rfl⟩
    · refine ⟨fun hne => ⟨fun h => ?_, fun h => hne ?_⟩,
        fun ⟨_, hne⟩ h => hne ?_⟩ <;> linarith

/-- Shifting a mantissa divides by a power of two. -/
theorem Describes.shiftRight {em : ExtendedMantissa} {y : Rat}
    (h : Describes em y) (k : Nat) : Describes (em >>> k) (y / 2 ^ k) := by
  induction k with
  | zero =>
      rw [pow_zero, div_one]
      exact h
  | succ k ih =>
      rw [pow_succ, ← div_div]
      exact ih.shiftRightOne

/-- The rounded mantissa is the described number, rounded. -/
theorem Describes.roundedMantissa {em : ExtendedMantissa} {y : Rat}
    (h : Describes em y) : (em.roundedMantissa : Int) = roundHalfEven y := by
  obtain ⟨low, high, hround, hsticky⟩ := h
  have hfloor : y.floor = em.mantissa := Int.floor_eq_iff.2 ⟨low, high⟩
  have hcast : y - y.floor = y - em.mantissa := by rw [hfloor]; norm_cast
  rw [← hcast] at hround hsticky
  obtain ⟨m, round, sticky⟩ := em
  cases round with
  | false =>
      have below : y - y.floor < 1 / 2 :=
        not_le.1 fun h => absurd (hround.2 h) (by simp)
      rw [roundHalfEven_of_lt below, hfloor]
      cases sticky <;> rfl
  | true =>
      have above := hround.1 rfl
      cases sticky with
      | false =>
          have half : y - y.floor = 1 / 2 := by
            by_contra hne
            have := hsticky.2 ⟨by linarith, hne⟩
            cases this
          rw [roundHalfEven_of_eq half, hfloor]
          rfl
      | true =>
          have apart := (hsticky.1 rfl).2
          rw [roundHalfEven_of_gt (lt_of_le_of_ne above apart.symm), hfloor]
          rfl

-- ======================================================== one rounding

theorem targetExponent_eq (m : Nat) (e : Int) :
    Format.binary64.targetExponent (Float.Model.totalExponent m e)
      = max (m.log2 + e - 52) (-1074) := by
  unfold Format.targetExponent Float.Model.totalExponent
  have width : (Format.binary64.mantissaBits : Int) = 53 := by decide
  have least : Format.binary64.minExponent = -1074 := by decide
  rw [width, least]
  omega

/-- A number is rounded to the grid that its mantissa is shifted to. -/
theorem gridExponent_of_mantissa {m : Nat} {e : Int} {y : Rat} (hy : 0 < y)
    (low : m ≤ y) (high : y < m + 1) (hc : 4503599627370496 ≤ m ∨ e ≤ -1074) :
    gridExponent (y * 2 ^ e) = max (m.log2 + e - 52) (-1074) := by
  have hpos : 0 < y * 2 ^ e := mul_pos hy (two_zpow_pos e)
  have above : Int.log 2 (y * 2 ^ e) < m.log2 + 1 + e := by
    rw [← lt_two_zpow_iff hpos, zpow_add₀ (by decide)]
    refine mul_lt_mul_of_pos_right (lt_of_lt_of_le high ?_) (two_zpow_pos e)
    exact_mod_cast Nat.lt_log2_self (n := m)
  unfold gridExponent
  rw [abs_of_pos hpos]
  rcases Nat.eq_zero_or_pos m with rfl | hm
  · rw [Nat.log2_zero] at above ⊢
    omega
  · have below : ¬ Int.log 2 (y * 2 ^ e) < m.log2 + e := by
      rw [← lt_two_zpow_iff hpos, zpow_add₀ (by decide), not_lt]
      refine mul_le_mul_of_nonneg_right (le_trans ?_ low) (two_zpow_pos e).le
      exact_mod_cast Nat.log2_self_le hm.ne'
    omega

/-- Rounding a mantissa once more, when it has 53 bits, changes nothing;
one bit too many is shifted out, and it is zero. -/
theorem shiftToTargetExponent_rounded {r : Nat} {t : Int}
    (hr : r ≤ 9007199254740992) (ht : -1074 ≤ t) :
    ∃ m e, shiftToTargetExponent Format.binary64 r t .exact
        = (ExtendedMantissa.ofMantissaAndAccuracy m .exact, e)
      ∧ (r : Rat) * 2 ^ t = m * 2 ^ e ∧ m < 9007199254740992 ∧ -1074 ≤ e
      ∧ (r = 0 ↔ m = 0)
      ∧ (4503599627370496 ≤ r ∨ t = -1074 →
          4503599627370496 ≤ m ∨ e = -1074) := by
  unfold shiftToTargetExponent UnpackedFloat.shiftToExponent
  rw [targetExponent_eq]
  dsimp only
  rcases hr.lt_or_eq with hlt | rfl
  · have hlog : r.log2 ≤ 52 := by
      rcases Nat.eq_zero_or_pos r with rfl | hpos
      · rw [Nat.log2_zero]; omega
      · have := (Nat.log2_lt (k := 53) hpos.ne').2 hlt
        omega
    have none : (max ((r.log2 : Int) + t - 52) (-1074) - t).toNat = 0 := by
      omega
    rw [none]
    exact ⟨r, t, by simp; rfl, rfl, hlt, ht, Iff.rfl, id⟩
  · have hlog : Nat.log2 9007199254740992 = 53 := by decide
    have one : (max ((Nat.log2 9007199254740992 : Int) + t - 52) (-1074)
        - t).toNat = 1 := by
      rw [hlog]
      omega
    rw [one]
    refine ⟨4503599627370496, t + 1, rfl, ?_, by decide, by omega, by decide,
      fun _ => .inl (by decide)⟩
    rw [zpow_add_one₀ (by decide)]
    push_cast
    ring

theorem ofMantissaAndAccuracy_mantissa (m : Nat) (acc : Accuracy) :
    (ExtendedMantissa.ofMantissaAndAccuracy m acc).mantissa = m := by
  rcases acc with _ | _ | _ | _ <;> rfl

/-- The first shift takes the mantissa to the grid of the number that it
describes, so that the rounded mantissa is the rounded number's. -/
theorem shiftToTargetExponent_describes {m : Nat} {e : Int} {acc : Accuracy}
    {y : Rat} (h : Describes (.ofMantissaAndAccuracy m acc) y)
    (hc : 4503599627370496 ≤ m ∨ e ≤ -1074) :
    ∃ em t, shiftToTargetExponent Format.binary64 m e acc = (em, t)
      ∧ nearest (y * 2 ^ e) = em.roundedMantissa * 2 ^ t
      ∧ em.roundedMantissa ≤ 9007199254740992 ∧ -1074 ≤ t
      ∧ (4503599627370496 ≤ em.roundedMantissa ∨ t = -1074) := by
  have low := h.low
  have high := h.high
  rw [ofMantissaAndAccuracy_mantissa] at low high
  have hlog : 52 ≤ m.log2 ∨ e ≤ -1074 := hc.imp_left fun hm =>
    (Nat.le_log2 (k := 52) (by omega)).2 hm
  obtain ⟨t, ht⟩ : ∃ t, t = max (m.log2 + e - 52) (-1074) := ⟨_, rfl⟩
  obtain ⟨k, hk⟩ : ∃ k : Nat, k = (t - e).toNat := ⟨_, rfl⟩
  have hte : e + k = t := by omega
  refine ⟨ExtendedMantissa.ofMantissaAndAccuracy m acc >>> k, t, ?_, ?_, ?_,
    by omega, ?_⟩
  · unfold shiftToTargetExponent UnpackedFloat.shiftToExponent
    rw [targetExponent_eq, ← ht]
    dsimp only
    rw [← hk, hte]
  all_goals
    have hround := (h.shiftRight k).roundedMantissa
    have hk0 : (0 : Rat) < 2 ^ k := pow_pos (by decide) k
  · have hsplit : y * 2 ^ e / 2 ^ t = y / 2 ^ k := by
      rw [← hte, zpow_add₀ (by decide), zpow_natCast, mul_comm y,
        mul_div_mul_left _ _ (two_zpow_pos e).ne']
    have hround' : ((ExtendedMantissa.ofMantissaAndAccuracy m acc
        >>> k).roundedMantissa : Rat) = roundHalfEven (y * 2 ^ e / 2 ^ t) := by
      rw [hsplit, ← hround, Int.cast_natCast]
    rw [hround']
    rcases (Nat.cast_nonneg m |>.trans low).eq_or_lt with rfl | hy
    · rw [zero_mul, nearest_zero, zero_div]
      have : roundHalfEven 0 = 0 := by exact_mod_cast roundHalfEven_intCast 0
      rw [this, Int.cast_zero, zero_mul]
    · unfold nearest
      rw [gridExponent_of_mantissa hy low high hc, ← ht]
  · have hle : y / 2 ^ k ≤ (9007199254740992 : Int) := by
      rw [div_le_iff₀ hk0]
      refine high.le.trans ?_
      have hm : m + 1 ≤ 2 ^ (53 + k) := by
        have := Nat.lt_log2_self (n := m)
        have := Nat.pow_le_pow_right (n := 2) (by decide)
          (by omega : m.log2 + 1 ≤ 53 + k)
        omega
      rw [pow_add] at hm
      exact_mod_cast hm
    have := roundHalfEven_mono hle
    rw [roundHalfEven_intCast, ← hround] at this
    exact_mod_cast this
  · by_cases hmin : t = -1074
    · exact .inr hmin
    · refine .inl ?_
      have hm : 2 ^ (52 + k) ≤ m := by
        have hkm : 52 + k = m.log2 := by omega
        rw [hkm]
        exact Nat.log2_self_le fun zero => by
          subst zero
          rw [Nat.log2_zero] at hkm
          omega
      have hle : (4503599627370496 : Int) ≤ y / 2 ^ k := by
        rw [le_div_iff₀ hk0]
        refine le_trans ?_ low
        rw [pow_add] at hm
        exact_mod_cast hm
      have := roundHalfEven_mono hle
      rw [roundHalfEven_intCast, ← hround] at this
      exact_mod_cast this

/-- A number with a sign. -/
def signed (s : Sign) (q : Rat) : Rat :=
  match s with
  | .negative => -q
  | .positive => q

theorem dyadic_eq_signed (s : Sign) (m : Nat) (e : Int) :
    dyadic s m e = signed s (m * 2 ^ e) := by
  cases s with
  | positive => rfl
  | negative => exact dyadic_negative m e

theorem value?_pack_zero (s : Sign) :
    value? ⟨Float.Model.pack (.zero s)⟩ = some 0 := by
  cases s <;> rfl

/-- Rounding a mantissa that describes a number gives the double nearest to
the number, unless that exceeds all finite doubles. -/
theorem value?_roundWithAccuracy {m : Nat} {e : Int} {acc : Accuracy}
    {y : Rat} (s : Sign) (h : Describes (.ofMantissaAndAccuracy m acc) y)
    (hc : 4503599627370496 ≤ m ∨ e ≤ -1074)
    (hfin : nearest (y * 2 ^ e) < 2 ^ (1024 : Int)) :
    value? ⟨Float.Model.pack (roundWithAccuracy Format.binary64 s m e acc)⟩
      = some (signed s (nearest (y * 2 ^ e))) := by
  obtain ⟨em, t, hshift, hnearest, hr, ht, hnormal⟩ :=
    shiftToTargetExponent_describes h hc
  obtain ⟨m', e', hshift', hvalue, hm', he', hzero, hnormal'⟩ :=
    shiftToTargetExponent_rounded hr ht
  have hmantissa := ofMantissaAndAccuracy_mantissa m' .exact
  rw [hnearest, hvalue] at hfin ⊢
  unfold roundWithAccuracy
  rw [hshift]
  dsimp only
  rw [hshift']
  dsimp only
  by_cases zero : m' = 0
  · rw [dif_pos (hmantissa.trans zero)]
    subst zero
    rw [value?_pack_zero, Nat.cast_zero, zero_mul]
    cases s <;> rfl
  · have normal := hnormal' hnormal
    have high : e' ≤ 971 := by
      by_contra hgt
      have hlarge : (4503599627370496 : Rat) ≤ m' := by
        exact_mod_cast normal.resolve_right (by omega)
      have : (2 : Rat) ^ (1024 : Int) ≤ m' * 2 ^ e' := by
        have hpow : (2 : Rat) ^ (52 : Int) = 4503599627370496 := by norm_num
        calc (2 : Rat) ^ (1024 : Int) = 4503599627370496 * 2 ^ (972 : Int) := by
              rw [← hpow, ← zpow_add₀ (by decide)]
              rfl
          _ ≤ m' * 2 ^ e' := mul_le_mul hlarge (two_zpow_le (by omega))
              (two_zpow_pos _).le (Nat.cast_nonneg _)
      linarith
    have hpos := Nat.pos_of_ne_zero zero
    have hunpack : unpack ⟨Float.Model.pack (.finite s m' e' hpos)⟩
        = .finite s m' e' hpos :=
      unpack_pack_finite hpos ⟨hm', he', high, normal⟩
    rw [dif_neg (by rw [hmantissa]; exact zero), ← dyadic_eq_signed,
      ← value?_of_finite hunpack]
    rfl

-- ==================================================== exact numerators

/-- A mantissa without a rest, rounded. -/
theorem value?_round {m : Nat} {e : Int} (s : Sign) (hm : 0 < m)
    (hfin : nearest (m * 2 ^ e) < 2 ^ (1024 : Int)) :
    value? ⟨Float.Model.pack (UnpackedFloat.round Format.binary64 s m e)⟩
      = some (signed s (nearest (m * 2 ^ e))) := by
  obtain ⟨k, hk⟩ : ∃ k : Nat,
      k = (e - max ((m.log2 : Int) + e - 52) (-1074)).toNat := ⟨_, rfl⟩
  have hshift : ((m <<< k : Nat) : Rat) * 2 ^ (e - k) = m * 2 ^ e := by
    rw [Nat.shiftLeft_eq, zpow_sub₀ (by decide), zpow_natCast]
    push_cast
    have hpos : (0 : Rat) < 2 ^ k := pow_pos (by decide) k
    field_simp
  have hc : 4503599627370496 ≤ m <<< k ∨ e - k ≤ -1074 := by
    by_cases hmin : e - k ≤ -1074
    · exact .inr hmin
    · refine .inl ?_
      have hpow : 2 ^ 52 ≤ 2 ^ (m.log2 + k) :=
        Nat.pow_le_pow_right (by decide) (by omega)
      rw [Nat.shiftLeft_eq]
      rw [pow_add] at hpow
      have := Nat.mul_le_mul_right (2 ^ k) (Nat.log2_self_le hm.ne')
      omega
  unfold UnpackedFloat.round UnpackedFloat.decreaseExponent
  rw [targetExponent_eq]
  dsimp only
  rw [← hk, ← hshift]
  rw [← hshift] at hfin
  exact value?_roundWithAccuracy s (describes_exact _) hc hfin

/-- A signed mantissa, rounded. -/
theorem value?_normalize {m : Int} {e : Int} (s : Sign)
    (hfin : |nearest (m * 2 ^ e)| < 2 ^ (1024 : Int)) :
    value? ⟨Float.Model.pack (UnpackedFloat.normalize Format.binary64 m e s)⟩
      = some (nearest (m * 2 ^ e)) := by
  unfold UnpackedFloat.normalize
  rcases lt_trichotomy m 0 with hneg | rfl | hpos
  · rw [Int.compare_eq_lt.2 hneg]
    have hcast : ((-m).toNat : Rat) * 2 ^ e = -(m * 2 ^ e) := by
      have : ((-m).toNat : Int) = -m := by omega
      rw [← Int.cast_natCast, this, Int.cast_neg, neg_mul]
    have := value?_round (e := e) .negative (m := (-m).toNat) (by omega)
    rw [hcast, nearest_neg] at this
    refine (this (lt_of_abs_lt (by rwa [abs_neg]))).trans ?_
    unfold signed
    rw [neg_neg]
  · rw [Int.compare_eq_eq.2 rfl, Int.cast_zero, zero_mul, nearest_zero]
    exact value?_pack_zero s
  · rw [Int.compare_eq_gt.2 hpos]
    have hcast : (m.toNat : Rat) * 2 ^ e = m * 2 ^ e := by
      have : (m.toNat : Int) = m := by omega
      rw [← Int.cast_natCast, this]
    have := value?_round (e := e) .positive (m := m.toNat) (by omega)
    rw [hcast] at this
    exact this (lt_of_abs_lt hfin)

end LinkAdaptation
