/-
Arithmetic on doubles as arithmetic on the numbers they stand for. Sum,
difference, product and quotient are the exact results, rounded once; the
smaller and the larger of two doubles, and whole numbers read from and
written to doubles, are exact.
-/
import LinkAdaptation.Proofs.Number.Rounding

namespace LinkAdaptation

open Float.Model (Format UnpackedFloat)
open Float.Model.UnpackedFloat (Sign Accuracy ExtendedMantissa)

variable {x y : Float} {a b : Rat}

-- ================================================ sums and differences

/-- A finite double that is packed stands for its number. -/
theorem value?_pack_finite {s : Sign} {m : Nat} {e : Int} (hm : 0 < m)
    (h : Canonical m e) :
    value? ⟨Float.Model.pack (.finite s m e hm)⟩ = some (dyadic s m e) :=
  value?_of_finite (unpack_pack_finite hm h)

theorem Canonical.nearest_eq {m : Nat} {e : Int} (h : Canonical m e)
    (s : Sign) : nearest (dyadic s m e) = dyadic s m e :=
  nearest_of_representable (h.representable s)

theorem apply_mul (s : Sign) (m n : Int) : s.apply (m * n) = s.apply m * n := by
  cases s with
  | positive => rfl
  | negative => exact (Int.neg_mul m n).symm

/-- A number on a finer grid. -/
theorem dyadic_eq_shift (s : Sign) (m : Nat) {e t : Int} (h : t ≤ e) :
    dyadic s m e = s.apply (m <<< (e - t).toNat : Nat) * 2 ^ t := by
  unfold dyadic
  rw [Nat.shiftLeft_eq, Nat.cast_mul, apply_mul, two_zpow_eq_mul h]
  push_cast
  ring

theorem signed_neg (s : Sign) (q : Rat) : signed (-s) q = -signed s q := by
  cases s with
  | positive => rfl
  | negative => exact (neg_neg q).symm

theorem dyadic_neg (s : Sign) (m : Nat) (e : Int) :
    dyadic (-s) m e = -dyadic s m e := by
  rw [dyadic_eq_signed, dyadic_eq_signed, signed_neg]

theorem value?_add (hx : value? x = some a) (hy : value? y = some b)
    (hfin : |nearest (a + b)| < 2 ^ (1024 : Int)) :
    value? (x + y) = some (nearest (a + b)) := by
  show value? ⟨Float.Model.pack
    (UnpackedFloat.add Format.binary64 (unpack x) (unpack y))⟩ = _
  rcases unpack_of_value? hx with ⟨s, hux, rfl⟩ | ⟨s, m, e, hm, hux, rfl⟩ <;>
  rcases unpack_of_value? hy with ⟨t, huy, rfl⟩ | ⟨t, n, f, hn, huy, rfl⟩ <;>
  rw [hux, huy]
  · rw [add_zero, nearest_zero]
    cases s <;> cases t <;> rfl
  · rw [zero_add, (canonical_of_unpack huy).nearest_eq]
    exact value?_pack_finite hn (canonical_of_unpack huy)
  · rw [add_zero, (canonical_of_unpack hux).nearest_eq]
    exact value?_pack_finite hm (canonical_of_unpack hux)
  · have hsum : dyadic s m e + dyadic t n f
        = ((s.apply (m <<< (e - min e f).toNat : Nat)
          + t.apply (n <<< (f - min e f).toNat : Nat) : Int) : Rat)
          * 2 ^ min e f := by
      rw [dyadic_eq_shift s m (Int.min_le_left e f),
        dyadic_eq_shift t n (Int.min_le_right e f)]
      push_cast
      ring
    rw [hsum] at hfin ⊢
    exact value?_normalize .positive hfin

theorem value?_sub (hx : value? x = some a) (hy : value? y = some b)
    (hfin : |nearest (a - b)| < 2 ^ (1024 : Int)) :
    value? (x - y) = some (nearest (a - b)) := by
  show value? ⟨Float.Model.pack
    (UnpackedFloat.sub Format.binary64 (unpack x) (unpack y))⟩ = _
  rcases unpack_of_value? hx with ⟨s, hux, rfl⟩ | ⟨s, m, e, hm, hux, rfl⟩ <;>
  rcases unpack_of_value? hy with ⟨t, huy, rfl⟩ | ⟨t, n, f, hn, huy, rfl⟩ <;>
  rw [hux, huy]
  · rw [sub_zero, nearest_zero]
    cases s <;> cases t <;> rfl
  · rw [zero_sub, nearest_neg, (canonical_of_unpack huy).nearest_eq,
      ← dyadic_neg]
    exact value?_pack_finite hn (canonical_of_unpack huy)
  · rw [sub_zero, (canonical_of_unpack hux).nearest_eq]
    exact value?_pack_finite hm (canonical_of_unpack hux)
  · have hdiff : dyadic s m e - dyadic t n f
        = ((s.apply (m <<< (e - min e f).toNat : Nat)
          - t.apply (n <<< (f - min e f).toNat : Nat) : Int) : Rat)
          * 2 ^ min e f := by
      rw [dyadic_eq_shift s m (Int.min_le_left e f),
        dyadic_eq_shift t n (Int.min_le_right e f)]
      push_cast
      ring
    rw [hdiff] at hfin ⊢
    exact value?_normalize .positive hfin

-- ============================================== products and quotients

theorem signed_mul (s t : Sign) (p q : Rat) :
    signed (s * t) (p * q) = signed s p * signed t q := by
  cases s <;> cases t
  · exact (neg_mul_neg p q).symm
  · exact (neg_mul p q).symm
  · exact (mul_neg p q).symm
  · rfl

theorem signed_div (s t : Sign) (p q : Rat) :
    signed (s / t) (p / q) = signed s p / signed t q := by
  cases s <;> cases t
  · exact (neg_div_neg_eq p q).symm
  · exact (neg_div q p).symm
  · exact (div_neg p).symm
  · rfl

theorem nearest_signed (s : Sign) (q : Rat) :
    nearest (signed s q) = signed s (nearest q) := by
  cases s with
  | positive => rfl
  | negative => exact nearest_neg q

theorem abs_signed (s : Sign) (q : Rat) : |signed s q| = |q| := by
  cases s with
  | positive => rfl
  | negative => exact abs_neg q

theorem value?_mul (hx : value? x = some a) (hy : value? y = some b)
    (hfin : |nearest (a * b)| < 2 ^ (1024 : Int)) :
    value? (x * y) = some (nearest (a * b)) := by
  show value? ⟨Float.Model.pack
    (UnpackedFloat.mul Format.binary64 (unpack x) (unpack y))⟩ = _
  rcases unpack_of_value? hx with ⟨s, hux, rfl⟩ | ⟨s, m, e, hm, hux, rfl⟩ <;>
  rcases unpack_of_value? hy with ⟨t, huy, rfl⟩ | ⟨t, n, f, hn, huy, rfl⟩ <;>
  rw [hux, huy]
  · rw [zero_mul, nearest_zero]
    exact value?_pack_zero _
  · rw [zero_mul, nearest_zero]
    exact value?_pack_zero _
  · rw [mul_zero, nearest_zero]
    exact value?_pack_zero _
  · have hprod : dyadic s m e * dyadic t n f
        = signed (s * t) ((m * n : Nat) * 2 ^ (e + f)) := by
      rw [dyadic_eq_signed, dyadic_eq_signed, ← signed_mul,
        zpow_add₀ (by decide)]
      congr 1
      push_cast
      ring
    have hc : 4503599627370496 ≤ m * n ∨ e + f ≤ -1074 := by
      have hm' := (canonical_of_unpack hux).normal
      have hn' := (canonical_of_unpack huy).normal
      unfold leastMantissa at hm' hn'
      rcases hm' with hm' | rfl
      · exact .inl (hm'.trans (Nat.le_mul_of_pos_right m hn))
      · rcases hn' with hn' | rfl
        · exact .inl (hn'.trans (Nat.le_mul_of_pos_left n hm))
        · exact .inr (by decide)
    rw [hprod, nearest_signed] at hfin ⊢
    rw [abs_signed] at hfin
    exact value?_roundWithAccuracy (s * t) (describes_exact _) hc
      (lt_of_abs_lt hfin)

/-- A quotient of mantissas, and the accuracy it is given with. -/
theorem describes_quotient (m : Nat) {n : Nat} (hn : 0 < n) :
    Describes (.ofMantissaAndAccuracy (m / n)
      (UnpackedFloat.accuracyOfFraction (m % n) n)) (m / n) := by
  have hn0 : (0 : Rat) < n := by exact_mod_cast hn
  have hrest : (m : Rat) / n - (m / n : Nat) = (m % n : Nat) / n := by
    have hdiv : (n * (m / n : Nat) + (m % n : Nat) : Rat) = m := by
      exact_mod_cast Nat.div_add_mod m n
    rw [← hdiv]
    field_simp
    ring
  have hnonneg : (0 : Rat) ≤ (m % n : Nat) / n := by positivity
  have hlt : ((m % n : Nat) : Rat) / n < 1 := by
    rw [div_lt_one hn0]
    exact_mod_cast Nat.mod_lt m hn
  have hhalf : (1 : Rat) / 2 ≤ (m % n : Nat) / n ↔ n ≤ 2 * (m % n) := by
    rw [div_le_div_iff₀ (by decide) hn0, one_mul, mul_comm]
    norm_cast
  have heq : ((m % n : Nat) : Rat) / n = 1 / 2 ↔ 2 * (m % n) = n := by
    rw [div_eq_div_iff hn0.ne' (by decide), one_mul, mul_comm]
    norm_cast
  have hzero : ((m % n : Nat) : Rat) / n = 0 ↔ m % n = 0 := by
    rw [div_eq_zero_iff, or_iff_left hn0.ne']
    norm_cast
  have hmantissa := ofMantissaAndAccuracy_mantissa (m / n)
    (UnpackedFloat.accuracyOfFraction (m % n) n)
  refine ⟨?_, ?_, ?_, ?_⟩ <;> rw [hmantissa]
  · linarith
  · linarith
  all_goals
    rw [hrest]
    unfold UnpackedFloat.accuracyOfFraction
    simp only [ne_eq, hhalf, heq, hzero]
    split
    case isTrue zero =>
      simp only [ExtendedMantissa.ofMantissaAndAccuracy, Bool.false_eq_true,
        false_iff]
      omega
    case isFalse nonzero =>
      rcases lt_trichotomy (2 * (m % n)) n with h | h | h
      · rw [Nat.compare_eq_lt.2 h]
        simp only [ExtendedMantissa.ofMantissaAndAccuracy,
          Bool.false_eq_true, false_iff, true_iff]
        omega
      · rw [Nat.compare_eq_eq.2 h]
        simp only [ExtendedMantissa.ofMantissaAndAccuracy,
          Bool.false_eq_true, false_iff, true_iff]
        omega
      · rw [Nat.compare_eq_gt.2 h]
        simp only [ExtendedMantissa.ofMantissaAndAccuracy, true_iff]
        omega

theorem value?_div (hx : value? x = some a) (hy : value? y = some b)
    (hb : b ≠ 0) (hfin : |nearest (a / b)| < 2 ^ (1024 : Int)) :
    value? (x / y) = some (nearest (a / b)) := by
  show value? ⟨Float.Model.pack
    (UnpackedFloat.div Format.binary64 (unpack x) (unpack y))⟩ = _
  rcases unpack_of_value? hy with ⟨t, huy, rfl⟩ | ⟨t, n, f, hn, huy, rfl⟩
  · exact absurd rfl hb
  rcases unpack_of_value? hx with ⟨s, hux, rfl⟩ | ⟨s, m, e, hm, hux, rfl⟩ <;>
  rw [hux, huy]
  · rw [zero_div, nearest_zero]
    exact value?_pack_zero _
  · obtain ⟨u, hu⟩ : ∃ u, u = min (e - f)
        (max ((m.log2 : Int) + e - (n.log2 + f) - 53) (-1074)) := ⟨_, rfl⟩
    obtain ⟨k, hk⟩ : ∃ k : Nat, k = (e - f - u).toNat := ⟨_, rfl⟩
    have huk : e - f = k + u := by omega
    have hcore : UnpackedFloat.divCore Format.binary64 m e n f
        = (m <<< k / n, u,
          UnpackedFloat.accuracyOfFraction (m <<< k % n) n) := by
      have htarget : min (e - f) (Format.binary64.targetExponent
          (Float.Model.totalExponent m e - Float.Model.totalExponent n f))
          = u := by
        have width : (Format.binary64.mantissaBits : Int) = 53 := by decide
        have least : Format.binary64.minExponent = -1074 := by decide
        unfold Format.targetExponent Float.Model.totalExponent
        rw [width, least]
        omega
      unfold UnpackedFloat.divCore
      dsimp only
      rw [htarget, ← hk]
    have hquot : dyadic s m e / dyadic t n f
        = signed (s / t) ((m <<< k : Nat) / n * 2 ^ u) := by
      rw [dyadic_eq_signed, dyadic_eq_signed, ← signed_div]
      congr 1
      rw [mul_div_mul_comm, ← zpow_sub₀ (by decide), huk,
        zpow_add₀ (by decide), zpow_natCast, Nat.shiftLeft_eq]
      push_cast
      ring
    have hc : 4503599627370496 ≤ m <<< k / n ∨ u ≤ -1074 := by
      by_cases hmin : u ≤ -1074
      · exact .inr hmin
      · refine .inl ((Nat.le_div_iff_mul_le hn).2 ?_)
        have hpow : 2 ^ (53 + n.log2) ≤ 2 ^ (m.log2 + k) :=
          Nat.pow_le_pow_right (by decide) (by omega)
        have hm2 := Nat.mul_le_mul_right (2 ^ k) (Nat.log2_self_le hm.ne')
        have hn2 := Nat.lt_log2_self (n := n)
        rw [pow_add, pow_add] at hpow
        rw [pow_succ] at hn2
        rw [Nat.shiftLeft_eq]
        omega
    show value? ⟨Float.Model.pack
      (match UnpackedFloat.divCore Format.binary64 m e n f with
        | (q, g, acc) =>
          UnpackedFloat.roundWithAccuracy Format.binary64 (s / t) q g acc)⟩ = _
    rw [hquot, nearest_signed] at hfin ⊢
    rw [abs_signed] at hfin
    rw [hcore]
    exact value?_roundWithAccuracy (s / t) (describes_quotient _ hn) hc
      (lt_of_abs_lt hfin)

theorem value?_div_notANumber (hy : unpack y = .notANumber) :
    value? (x / y) = none := by
  have hdiv : UnpackedFloat.div Format.binary64 (unpack x) .notANumber
      = .notANumber := by
    cases unpack x <;> rfl
  show value? ⟨Float.Model.pack
    (UnpackedFloat.div Format.binary64 (unpack x) (unpack y))⟩ = none
  rw [hy, hdiv]
  rfl

/-- A number divided by an infinity is nothing. -/
theorem value?_div_infinity {s : Sign}
    (hx : value? x = some a) (hy : unpack y = .infinity s) :
    value? (x / y) = some 0 := by
  obtain ⟨t, hdiv⟩ : ∃ t, UnpackedFloat.div Format.binary64 (unpack x)
      (unpack y) = .zero t := by
    rcases unpack_of_value? hx with ⟨t, hu, -⟩ | ⟨t, m, e, hm, hu, -⟩ <;>
      rw [hu, hy]
    · exact ⟨_, rfl⟩
    · exact ⟨_, rfl⟩
  show value? ⟨Float.Model.pack
    (UnpackedFloat.div Format.binary64 (unpack x) (unpack y))⟩ = _
  rw [hdiv, value?_pack_zero]

-- ================================================== infinities and NaN

/-- Whether an unpacked double is a number. -/
def isNumber : UnpackedFloat → Bool
  | .zero _ => true
  | .finite _ _ _ _ => true
  | .infinity _ => false
  | .notANumber => false

theorem value?_eq_none_iff : value? x = none ↔ isNumber (unpack x) = false := by
  unfold value?
  cases unpack x <;> simp [isNumber]

theorem value?_pack_none {u : UnpackedFloat} (h : isNumber u = false) :
    value? ⟨Float.Model.pack u⟩ = none := by
  cases u with
  | zero s => cases h
  | finite s m e hm => cases h
  | infinity s => cases s <;> rfl
  | notANumber => rfl

/-- What is no number takes a sum with it. Two infinities may meet in one,
but they do not cancel. -/
theorem isNumber_add {u v : UnpackedFloat}
    (h : isNumber u = false ∨ isNumber v = false) :
    isNumber (UnpackedFloat.add Format.binary64 u v) = false := by
  cases u with
  | notANumber => rfl
  | infinity s =>
      cases v with
      | infinity t =>
          show isNumber (if s == t then _ else _) = false
          split <;> rfl
      | zero t => rfl
      | finite t n f hn => rfl
      | notANumber => rfl
  | zero s =>
      cases v with
      | infinity t => rfl
      | notANumber => rfl
      | zero t => simp [isNumber] at h
      | finite t n f hn => simp [isNumber] at h
  | finite s m e hm =>
      cases v with
      | infinity t => rfl
      | notANumber => rfl
      | zero t => simp [isNumber] at h
      | finite t n f hn => simp [isNumber] at h

theorem value?_add_none (h : value? x = none ∨ value? y = none) :
    value? (x + y) = none := by
  rw [value?_eq_none_iff, value?_eq_none_iff] at h
  exact value?_pack_none (isNumber_add h)

theorem isNumber_neg (u : UnpackedFloat) : isNumber u.neg = isNumber u := by
  cases u <;> rfl

theorem apply_neg (s : Sign) (n : Int) : (-s).apply n = -s.apply n := by
  cases s with
  | positive => rfl
  | negative => exact (Int.neg_neg n).symm

/-- A difference is a sum. -/
theorem sub_eq_add_neg_unpacked (u v : UnpackedFloat) :
    UnpackedFloat.sub Format.binary64 u v
      = UnpackedFloat.add Format.binary64 u v.neg := by
  cases u <;> cases v <;> simp [UnpackedFloat.sub, UnpackedFloat.add,
    UnpackedFloat.neg, apply_neg, sub_eq_add_neg]

theorem value?_sub_none (h : value? x = none ∨ value? y = none) :
    value? (x - y) = none := by
  rw [value?_eq_none_iff, value?_eq_none_iff, ← isNumber_neg (unpack y)] at h
  refine value?_pack_none (u := UnpackedFloat.sub Format.binary64 (unpack x)
    (unpack y)) ?_
  rw [sub_eq_add_neg_unpacked]
  exact isNumber_add h

/-- A number divides what stands for none into nothing better. -/
theorem value?_div_none (h : value? x = none) (hy : value? y = some b) :
    value? (x / y) = none := by
  rw [value?_eq_none_iff] at h
  refine value?_pack_none (u := UnpackedFloat.div Format.binary64 (unpack x)
    (unpack y)) ?_
  generalize unpack x = u at h
  rcases unpack_of_value? hy with ⟨t, hu, -⟩ | ⟨t, n, f, hn, hu, -⟩ <;>
    rw [hu] <;> cases u <;> first | cases h; done | rfl

/-- Nothing is divided by zero. -/
theorem value?_div_zero (x : Float) : value? (x / 0.0) = none := by
  refine value?_pack_none (u := UnpackedFloat.div Format.binary64 (unpack x)
    (.zero .positive)) ?_
  cases unpack x <;> rfl

/-- What stands for no number is not noise. -/
theorem not_isNoise_of_none (h : value? x = none) : isNoise x = false := by
  rw [value?_eq_none_iff] at h
  obtain ⟨q, hnoise⟩ : ∃ q, value? noise = some q := ⟨_, rfl⟩
  have habs : unpack x.abs = (unpack x).abs := by
    show (Float.Model.pack (unpack x).abs).unpack = _
    generalize unpack x = u at h
    cases u with
    | zero s => cases h
    | finite s m e hm => cases h
    | infinity s => cases s <;> rfl
    | notANumber => rfl
  unfold isNoise
  rw [decide_eq_false_iff_not, lt_iff_compare, habs]
  generalize unpack x = u at h
  cases u with
  | zero s => cases h
  | finite s m e hm => cases h
  | infinity s => 
      show ¬ (UnpackedFloat.infinity .positive).compare (unpack noise) = _
      rw [infinity_compare hnoise]
      simp
  | notANumber => exact nofun

-- ======================================================= whole numbers

theorem value?_zero : value? 0.0 = some 0 := rfl

/-- A power of two that keeps a figure away from the infinities. -/
theorem abs_nearest_lt_of_le {q : Rat} {t : Nat} (h : |q| ≤ 2 ^ t)
    (ht : t < 1024) : |nearest q| < 2 ^ (1024 : Int) := by
  have hrep : Representable (2 ^ t) := ⟨1, t, by decide, by omega, by simp⟩
  obtain ⟨low, high⟩ := abs_le.1 h
  have hle : |nearest q| ≤ 2 ^ t :=
    abs_le.2 ⟨le_nearest hrep.neg low, nearest_le hrep high⟩
  calc |nearest q| ≤ 2 ^ (t : Int) := by exact_mod_cast hle
    _ < 2 ^ (1024 : Int) := zpow_lt_zpow_right₀ (by decide) (by omega)

/-- An operation that rounds leaves a number near the exact one. -/
theorem exists_rounded {q : Rat} (t : Nat)
    (hx : |nearest q| < 2 ^ (1024 : Int) → value? x = some (nearest q))
    (h : |q| < 2 ^ t) (ht : t < 1024) :
    ∃ v, value? x = some v ∧ |v - q| ≤ 2 ^ t / 2 ^ 54 := by
  refine ⟨nearest q, hx (abs_nearest_lt_of_le h.le ht), ?_⟩
  have hclose := abs_nearest_sub_le_of_lt (t := t) (by exact_mod_cast h)
    (by omega)
  rw [zpow_sub₀ (by norm_num)] at hclose
  exact_mod_cast hclose

/-- A bound that keeps most figures away from the infinities. -/
theorem abs_nearest_lt {q : Rat} (h : |q| ≤ 2 ^ 100) :
    |nearest q| < 2 ^ (1024 : Int) :=
  abs_nearest_lt_of_le h (by decide)

theorem value?_toUInt64 {n : Nat} (h : n < 9007199254740992) :
    value? n.toUInt64.toFloat = some (n : Rat) := by
  have hn : n.toUInt64.toNat = n := by
    rw [Nat.toUInt64_eq, UInt64.toNat_ofNat']
    omega
  have hq : ((n : Int) : Rat) * 2 ^ (0 : Int) = n := by
    rw [zpow_zero, mul_one, Int.cast_natCast]
  show value? ⟨Float.Model.pack (UnpackedFloat.normalize Format.binary64
    (n.toUInt64.toNat : Int) 0 .positive)⟩ = _
  rw [hn, value?_normalize, hq, nearest_of_representable (representable_natCast h)]
  rw [hq]
  refine abs_nearest_lt ?_
  rw [abs_of_nonneg (Nat.cast_nonneg n)]
  exact_mod_cast (by omega : n ≤ 2 ^ 100)

/-- A whole number of 53 bits is a double. -/
theorem value?_natCast {n : Nat} (h : n < 9007199254740992) :
    value? n.toFloat = some (n : Rat) := by
  have hone : value? (Float.ofBits 0x3FF0000000000000) = some 1 := by
    decide +kernel
  have hprod : n.toFloat = n.toUInt64.toFloat * Float.ofBits 0x3FF0000000000000 := by
    show Float.ofScientific n false 0 = _
    unfold Float.ofScientific
    rw [dif_pos ⟨h, by decide⟩]
    rfl
  have hn : nearest ((n : Rat) * 1) = n := by
    rw [mul_one, nearest_of_representable (representable_natCast h)]
  rw [hprod, value?_mul (value?_toUInt64 h) hone, hn]
  rw [mul_one]
  refine abs_nearest_lt ?_
  rw [abs_of_nonneg (Nat.cast_nonneg n)]
  exact_mod_cast (by omega : n ≤ 2 ^ 100)

theorem value?_one : value? 1.0 = some 1 := value?_natCast (n := 1) (by decide)

/-- The mantissa of a whole number is shifted up before it is rounded. -/
theorem ofScientific_eq_round {n : Nat} (h : n ≠ 0) :
    UnpackedFloat.ofScientific Format.binary64 n 0
      = UnpackedFloat.roundWithAccuracy Format.binary64 .positive (n <<< 53)
        (-53) .exact := by
  have width : Format.binary64.mantissaBits = 53 := by decide
  have range : Format.binary64.exponentBits = 11 := by decide
  unfold UnpackedFloat.ofScientific
  rw [dif_neg h, if_neg (by decide), if_neg (by rw [range]; omega),
    if_pos (Int.le_refl 0)]
  simp only [UnpackedFloat.mul, width, Int.toNat_zero, pow_zero, mul_one,
    add_zero]
  rfl

/-- A whole number of 64 bits becomes the double nearest to it. -/
theorem value?_toFloat {n : Nat} (h : n < 18446744073709551616) :
    value? n.toFloat = some (nearest n) := by
  by_cases hsmall : n < 9007199254740992
  · rw [value?_natCast hsmall,
      nearest_of_representable (representable_natCast hsmall)]
  · have hslow : n.toFloat = ⟨Float.Model.pack
        (UnpackedFloat.ofScientific Format.binary64 n 0)⟩ := by
      show Float.ofScientific n false 0 = _
      unfold Float.ofScientific
      rw [dif_neg fun h => hsmall h.1]
      rfl
    have hvalue : ((n <<< 53 : Nat) : Rat) * 2 ^ (-53 : Int) = n := by
      rw [Nat.shiftLeft_eq, zpow_neg]
      push_cast
      exact mul_inv_cancel_right₀ (by positivity) _
    have hround := value?_roundWithAccuracy .positive
      (describes_exact (n <<< 53)) (e := -53) (.inl ?_) ?_
    · rw [hvalue] at hround
      rw [hslow, ofScientific_eq_round (by omega)]
      exact hround
    · rw [Nat.shiftLeft_eq]
      omega
    · rw [hvalue]
      refine lt_of_abs_lt (abs_nearest_lt ?_)
      rw [abs_of_nonneg (Nat.cast_nonneg n)]
      exact_mod_cast (by omega : n ≤ 2 ^ 100)

theorem value?_natCast_of_le {n : Nat} (h : n ≤ 9007199254740992) :
    value? n.toFloat = some (n : Rat) := by
  rw [value?_toFloat (by omega),
    nearest_of_representable (representable_natCast_of_le h)]

/-- A number other than zero, divided by nothing, passes every bound on its
side. -/
theorem unpack_div_zero (hx : value? x = some a) (ha : a ≠ 0) :
    unpack (x / 0.0)
      = .infinity (if 0 < a then .positive else .negative) := by
  have hzero : unpack 0.0 = .zero .positive := rfl
  have hdiv : UnpackedFloat.div Format.binary64 (unpack x) (unpack 0.0)
      = .infinity (if 0 < a then .positive else .negative) := by
    rw [hzero]
    rcases unpack_of_value? hx with ⟨s, -, rfl⟩ | ⟨s, m, e, hm, hu, rfl⟩
    · exact absurd rfl ha
    · have hpos : (0 : Rat) < m * 2 ^ e :=
        mul_pos (by exact_mod_cast hm) (two_zpow_pos e)
      rw [hu]
      cases s with
      | positive =>
          rw [dyadic_positive, if_pos hpos]
          rfl
      | negative =>
          rw [dyadic_negative, if_neg (by linarith)]
          rfl
  show (Float.Model.pack (UnpackedFloat.div Format.binary64 (unpack x)
    (unpack 0.0))).unpack = _
  rw [hdiv]
  split <;> rfl

theorem value?_neg (hx : value? x = some a) : value? (-x) = some (-a) := by
  show value? ⟨Float.Model.pack (unpack x).neg⟩ = _
  rcases unpack_of_value? hx with ⟨s, hu, rfl⟩ | ⟨s, m, e, hm, hu, rfl⟩ <;>
    rw [hu]
  · rw [neg_zero]
    exact value?_pack_zero (-s)
  · rw [← dyadic_neg]
    exact value?_pack_finite hm (canonical_of_unpack hu)

/-- A negative integer becomes the double nearest to it as well. -/
theorem value?_ofInt_neg {n : Nat} (hn : n ≠ 0)
    (h : n < 18446744073709551616) :
    value? (Float.ofInt (-n)) = some (-nearest n) := by
  cases n with
  | zero => exact absurd rfl hn
  | succ n => exact value?_neg (value?_toFloat h)

end LinkAdaptation
