/-
The doubles themselves: which mantissas and exponents occur, that packing
one loses nothing, and that comparing two compares the numbers they stand
for.
-/
import LinkAdaptation.Number.Decimal
import LinkAdaptation.Proofs.Number.Nearest
import Mathlib

namespace LinkAdaptation

open Float.Model (Format UnpackedFloat)
open Float.Model.UnpackedFloat (Sign)

-- ============================================================ the shape

/-- The mantissas and exponents of finite doubles other than zero: 53 bits
with the topmost set, or fewer at the least exponent. -/
structure Canonical (m : Nat) (e : Int) : Prop where
  bounded : m < 9007199254740992
  low : -1074 ≤ e
  high : e ≤ 971
  normal : leastMantissa ≤ m ∨ e = -1074

/-- The bits of a double. -/
def bits (x : Float) : BitVec Format.binary64.numBits :=
  x.toModel.toBits.toBitVec

/-- The mantissa's bits, without the implicit one. -/
def mantissaField (x : Float) : Nat :=
  (UnpackedFloat.unpackMantissa (bits x)).toNat

/-- The exponent's bits. -/
def exponentField (x : Float) : Nat :=
  (UnpackedFloat.unpackExponent (bits x)).toNat

/-- The bits of a mantissa with the implicit one in front. -/
theorem toNat_implicit (b : BitVec 52) :
    (1#1 ++ b).toNat = leastMantissa + b.toNat := by
  rw [BitVec.toNat_append, ← Nat.shiftLeft_add_eq_or_of_lt b.isLt]
  simp [leastMantissa]

/-- The fields of a finite double. An exponent field of zero drops the
implicit bit, and the field with all bits set is left to what is not
finite. -/
theorem fields_of_unpack {x : Float} {s : Sign} {m : Nat} {e : Int}
    {hm : 0 < m} (h : unpack x = .finite s m e hm) :
    (mantissaField x = m ∧ exponentField x = 0 ∧ e = -1074)
      ∨ (leastMantissa + mantissaField x = m ∧ exponentField x ≠ 0
        ∧ exponentField x ≠ 2047 ∧ e = exponentField x - 1075) := by
  have bias : (Format.binary64.exponentBias : Int) = 1023 := by decide
  unfold unpack Float.Model.unpack UnpackedFloat.unpack at h
  dsimp only at h
  split at h
  case isTrue => split at h <;> cases h
  case isFalse full =>
    split at h
    case isTrue zero =>
      split at h
      case isTrue => cases h
      case isFalse =>
        cases h
        refine .inl ⟨rfl, ?_, ?_⟩
        · exact congrArg BitVec.toNat zero
        · rw [zero]; decide
    case isFalse nonzero =>
      cases h
      refine .inr ⟨?_, ?_, ?_, ?_⟩
      · exact (toNat_implicit _).symm
      · exact fun none => nonzero (BitVec.eq_of_toNat_eq none)
      · exact fun all => full (BitVec.eq_of_toNat_eq all)
      · rw [bias]; rfl

theorem canonical_of_unpack {x : Float} {s : Sign} {m : Nat} {e : Int}
    {hm : 0 < m} (h : unpack x = .finite s m e hm) : Canonical m e := by
  have mantissa : mantissaField x < 4503599627370496 := BitVec.isLt _
  have exponent : exponentField x < 2048 := BitVec.isLt _
  rcases fields_of_unpack h with ⟨rfl, -, rfl⟩ | ⟨rfl, nonzero, finite, rfl⟩
  · exact ⟨by omega, by decide, by decide, .inr rfl⟩
  · refine ⟨?_, by omega, by omega, .inl (Nat.le_add_right _ _)⟩
    unfold leastMantissa
    omega

-- ============================================================== packing

theorem ofNat_ne {w n : Nat} {b : BitVec w} (hn : n < 2 ^ w)
    (h : n ≠ b.toNat) : BitVec.ofNat w n ≠ b := by
  intro heq
  subst heq
  rw [BitVec.toNat_ofNat, Nat.mod_eq_of_lt hn] at h
  exact h rfl

/-- A double that is packed unpacks to itself. -/
theorem unpack_pack_finite {s : Sign} {m : Nat} {e : Int} (hm : 0 < m)
    (h : Canonical m e) :
    (Float.Model.pack (.finite s m e hm)).unpack = .finite s m e hm := by
  obtain ⟨bounded, low, high, normal⟩ := h
  unfold leastMantissa at normal
  have fits : ¬ 2 ^ 11 ≤ (e + (1023 : Nat) + (52 : Nat)).toNat + 1 := by omega
  have bias : Format.binary64.exponentBias = 1023 := by decide
  have width : Format.binary64.mantissaBits = 53 := by decide
  unfold Float.Model.unpack Float.Model.pack UnpackedFloat.pack
    UnpackedFloat.unpack
  dsimp only
  rw [bias, width, if_neg fits]
  by_cases hlog : m.log2 + 1 = 53
  · have hm52 : 4503599627370496 ≤ m :=
      (Nat.le_log2 (k := 52) hm.ne').1 (by omega)
    have full := ofNat_ne (w := 11) (b := -1#11)
      (n := (e + (1023 : Nat) + (52 : Nat)).toNat) (by omega)
      (by rw [show (-1#11).toNat = 2047 by decide]; omega)
    have zero := ofNat_ne (w := 11) (b := 0#11)
      (n := (e + (1023 : Nat) + (52 : Nat)).toNat) (by omega)
      (by rw [show (0#11).toNat = 0 by decide]; omega)
    rw [if_pos hlog]
    simp only [UnpackedFloat.unpackMantissa_packComponents,
      UnpackedFloat.unpackExponent_packComponents,
      UnpackedFloat.unpackSign_packComponents, Sign.ofBitVec_toBitVec, if_neg full,
      if_neg zero, toNat_implicit, BitVec.toNat_ofNat,
      UnpackedFloat.finite.injEq, leastMantissa, true_and]
    omega
  · have hm52 : m < 4503599627370496 := by
      by_contra large
      have := (Nat.le_log2 (k := 52) hm.ne').2 (by omega)
      have := (Nat.log2_lt (k := 53) hm.ne').2 (by omega)
      omega
    have zero := ofNat_ne (w := 52) (b := 0#52) (n := m) (by omega)
      (by rw [show (0#52).toNat = 0 by decide]; omega)
    rw [if_neg hlog]
    simp only [UnpackedFloat.unpackMantissa_packComponents,
      UnpackedFloat.unpackExponent_packComponents,
      UnpackedFloat.unpackSign_packComponents, Sign.ofBitVec_toBitVec,
      if_neg (show 0#11 ≠ -1#11 by decide), if_true, dif_neg zero,
      BitVec.toNat_ofNat, UnpackedFloat.finite.injEq, true_and]
    omega

-- ============================================================= the value

theorem dyadic_positive (m : Nat) (e : Int) :
    dyadic .positive m e = m * 2 ^ e := rfl

theorem dyadic_negative (m : Nat) (e : Int) :
    dyadic .negative m e = -(m * 2 ^ e) := by
  unfold dyadic
  rw [← neg_mul]
  congr 1

theorem value?_of_zero {x : Float} {s : Sign} (h : unpack x = .zero s) :
    value? x = some 0 := by
  unfold value?
  rw [h]

theorem value?_of_finite {x : Float} {s : Sign} {m : Nat} {e : Int}
    {hm : 0 < m} (h : unpack x = .finite s m e hm) :
    value? x = some (dyadic s m e) := by
  unfold value?
  rw [h]

/-- What stands for a number is a zero or finite. -/
theorem unpack_of_value? {x : Float} {q : Rat} (h : value? x = some q) :
    (∃ s, unpack x = .zero s ∧ q = 0)
      ∨ ∃ s m e hm, unpack x = .finite s m e hm ∧ q = dyadic s m e := by
  unfold value? at h
  cases hx : unpack x with
  | zero s =>
      rw [hx] at h
      exact .inl ⟨s, rfl, by simpa using h.symm⟩
  | finite s m e hm =>
      rw [hx] at h
      exact .inr ⟨s, m, e, hm, rfl, by simpa using h.symm⟩
  | infinity s => rw [hx] at h; cases h
  | notANumber => rw [hx] at h; cases h

theorem Canonical.representable {m : Nat} {e : Int} (h : Canonical m e)
    (s : Sign) : Representable (dyadic s m e) := by
  have hpos : Representable (dyadic .positive m e) :=
    ⟨m, e, by rw [abs_of_nonneg] <;> have := h.bounded <;> omega, h.low, rfl⟩
  cases s with
  | positive => exact hpos
  | negative =>
      rw [dyadic_negative, ← dyadic_positive]
      exact hpos.neg

theorem representable_of_value? {x : Float} {q : Rat}
    (h : value? x = some q) : Representable q := by
  rcases unpack_of_value? h with ⟨s, -, rfl⟩ | ⟨s, m, e, hm, hx, rfl⟩
  · exact representable_zero
  · exact (canonical_of_unpack hx).representable s

-- ============================================================= comparing

theorem Canonical.lt_of_exponent_lt {m m' : Nat} {e e' : Int}
    (h : Canonical m e) (h' : Canonical m' e') (hlt : e < e') :
    (m : Rat) * 2 ^ e < m' * 2 ^ e' := by
  have large : (4503599627370496 : Rat) ≤ m' := by
    have := h'.normal.resolve_right (by have := h.low; omega)
    exact_mod_cast this
  have small : (m : Rat) < 9007199254740992 := by exact_mod_cast h.bounded
  have step : (2 : Rat) ^ e * 2 ≤ 2 ^ e' := by
    rw [← zpow_add_one₀ (by decide)]
    exact two_zpow_le hlt
  have hpos := two_zpow_pos e
  calc (m : Rat) * 2 ^ e < 9007199254740992 * 2 ^ e :=
        mul_lt_mul_of_pos_right small hpos
    _ = 4503599627370496 * (2 ^ e * 2) := by ring
    _ ≤ m' * 2 ^ e' :=
        mul_le_mul large step (by positivity) (by positivity)

/-- Mantissas with a larger exponent are larger, and on one exponent they
compare as they are. -/
theorem Canonical.compare_eq {m m' : Nat} {e e' : Int}
    (h : Canonical m e) (h' : Canonical m' e') :
    (compare e e').then (compare m m')
      = cmp ((m : Rat) * 2 ^ e) (m' * 2 ^ e') := by
  rcases lt_trichotomy e e' with hlt | rfl | hgt
  · rw [Int.compare_eq_lt.2 hlt,
      (cmp_eq_lt_iff _ _).2 (h.lt_of_exponent_lt h' hlt)]
    rfl
  · have hpos := two_zpow_pos e
    rw [Int.compare_eq_eq.2 rfl]
    rcases lt_trichotomy m m' with hlt | rfl | hgt
    · rw [Nat.compare_eq_lt.2 hlt, (cmp_eq_lt_iff _ _).2
        (mul_lt_mul_of_pos_right (by exact_mod_cast hlt) hpos)]
      rfl
    · rw [Nat.compare_eq_eq.2 rfl, cmp_self_eq_eq]
      rfl
    · rw [Nat.compare_eq_gt.2 hgt, (cmp_eq_gt_iff _ _).2
        (mul_lt_mul_of_pos_right (by exact_mod_cast hgt) hpos)]
      rfl
  · rw [Int.compare_eq_gt.2 hgt,
      (cmp_eq_gt_iff _ _).2 (h'.lt_of_exponent_lt h hgt)]
    rfl

/-- Comparing two doubles compares the numbers they stand for. -/
theorem compare_of_value? {x y : Float} {a b : Rat} (hx : value? x = some a)
    (hy : value? y = some b) :
    (unpack x).compare (unpack y) = some (cmp a b) := by
  rcases unpack_of_value? hx with ⟨s, hux, rfl⟩ | ⟨s, m, e, hm, hux, rfl⟩ <;>
  rcases unpack_of_value? hy with ⟨t, huy, rfl⟩ | ⟨t, n, f, hn, huy, rfl⟩ <;>
  rw [hux, huy]
  · rw [cmp_self_eq_eq]
    rfl
  · have hpos : (0 : Rat) < n * 2 ^ f :=
      mul_pos (by exact_mod_cast hn) (two_zpow_pos f)
    cases t with
    | positive => rw [dyadic_positive, (cmp_eq_lt_iff _ _).2 hpos]; rfl
    | negative =>
        rw [dyadic_negative, (cmp_eq_gt_iff _ _).2 (by linarith)]
        rfl
  · have hpos : (0 : Rat) < m * 2 ^ e :=
      mul_pos (by exact_mod_cast hm) (two_zpow_pos e)
    cases s with
    | positive => rw [dyadic_positive, (cmp_eq_gt_iff _ _).2 hpos]; rfl
    | negative =>
        rw [dyadic_negative, (cmp_eq_lt_iff _ _).2 (by linarith)]
        rfl
  · have hpos : (0 : Rat) < n * 2 ^ f :=
      mul_pos (by exact_mod_cast hn) (two_zpow_pos f)
    have hpos' : (0 : Rat) < m * 2 ^ e :=
      mul_pos (by exact_mod_cast hm) (two_zpow_pos e)
    have hcmp := (canonical_of_unpack hux).compare_eq (canonical_of_unpack huy)
    cases s with
    | positive =>
        rw [dyadic_positive]
        cases t with
        | positive => rw [dyadic_positive, ← hcmp]; rfl
        | negative =>
            rw [dyadic_negative, (cmp_eq_gt_iff _ _).2 (by linarith)]
            rfl
    | negative =>
        rw [dyadic_negative]
        cases t with
        | positive =>
            rw [dyadic_positive, (cmp_eq_lt_iff _ _).2 (by linarith)]
            rfl
        | negative =>
            have flip : StrictAnti (Neg.neg : Rat → Rat) := fun _ _ => neg_lt_neg
            rw [dyadic_negative, flip.cmp_map_eq, ← cmp_swap, ← hcmp]
            rfl

variable {x y : Float} {a b : Rat}

theorem lt_iff_compare :
    x < y ↔ (unpack x).compare (unpack y) = some .lt := by
  show decide (x.toModel < y.toModel) = true ↔ _
  rw [decide_eq_true_iff]
  show ((unpack x).compare (unpack y) == some .lt) = true ↔ _
  rw [beq_iff_eq]

theorem le_iff_compare :
    x ≤ y ↔ (unpack x).compare (unpack y) = some .lt
      ∨ (unpack x).compare (unpack y) = some .eq := by
  show decide (x.toModel ≤ y.toModel) = true ↔ _
  rw [decide_eq_true_iff]
  show ((unpack x).compare (unpack y)).any (·.isLE) = true ↔ _
  cases (unpack x).compare (unpack y) with
  | none => simp
  | some o => cases o <;> simp

theorem lt_iff_of_value? (hx : value? x = some a) (hy : value? y = some b) :
    x < y ↔ a < b := by
  rw [lt_iff_compare, compare_of_value? hx hy, Option.some_inj, cmp_eq_lt_iff]

theorem le_iff_of_value? (hx : value? x = some a) (hy : value? y = some b) :
    x ≤ y ↔ a ≤ b := by
  rw [le_iff_compare, compare_of_value? hx hy, Option.some_inj,
    Option.some_inj, cmp_eq_lt_iff, cmp_eq_eq_iff, le_iff_lt_or_eq]

/-- What is not at most zero is above zero, or is not a number. -/
theorem not_le_zero_iff : ¬ x ≤ 0.0 ↔ 0.0 < x ∨ unpack x = .notANumber := by
  have hzero : unpack 0.0 = .zero .positive := rfl
  rw [le_iff_compare, lt_iff_compare, hzero]
  cases unpack x with
  | zero s => simp [UnpackedFloat.compare]
  | notANumber => simp [UnpackedFloat.compare]
  | infinity s => cases s <;> simp [UnpackedFloat.compare]
  | finite s m e hm => cases s <;> simp [UnpackedFloat.compare]

theorem infinity_compare (h : value? y = some b) :
    (UnpackedFloat.infinity .positive).compare (unpack y) = some .gt := by
  rcases unpack_of_value? h with ⟨_, hu, -⟩ | ⟨_, _, _, _, hu, -⟩ <;>
    rw [hu] <;> rfl

theorem compare_infinity (h : value? y = some b) :
    (unpack y).compare (.infinity .negative) = some .gt := by
  rcases unpack_of_value? h with ⟨_, hu, -⟩ | ⟨s, _, _, _, hu, -⟩ <;>
    rw [hu] <;> rfl

/-- What lies between two numbers is a number. -/
theorem value?_of_between {lo hi : Float} (hlo : value? lo = some a)
    (hhi : value? hi = some b) (h : lo ≤ x) (h' : x ≤ hi) :
    ∃ q, value? x = some q ∧ a ≤ q ∧ q ≤ b := by
  suffices hq : ∃ q, value? x = some q by
    obtain ⟨q, hq⟩ := hq
    exact ⟨q, hq, (le_iff_of_value? hlo hq).1 h, (le_iff_of_value? hq hhi).1 h'⟩
  rw [le_iff_compare] at h h'
  cases hx : unpack x with
  | zero s => exact ⟨0, value?_of_zero hx⟩
  | finite s m e hm => exact ⟨_, value?_of_finite hx⟩
  | notANumber =>
      rw [hx] at h'
      rcases h' with h' | h' <;> cases h'
  | infinity s =>
      rw [hx] at h h'
      cases s with
      | positive =>
          rw [infinity_compare hhi] at h'
          simp at h'
      | negative =>
          rw [compare_infinity hlo] at h
          simp at h

end LinkAdaptation
