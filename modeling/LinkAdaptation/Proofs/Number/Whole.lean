/-
Sums of whole numbers in doubles. Below 2^53 every whole number is a
double, so adding and subtracting them loses nothing: a sum of payload
lengths that is kept up one packet at a time is the sum of the lengths,
bit for bit, however many were added and taken away again in between.
-/
import LinkAdaptation.Proofs.Number.Arithmetic

namespace LinkAdaptation

open Float.Model (Format UnpackedFloat)

variable {x y : Float} {q : Rat} {a b n : Nat}

/-- The least power of two that is not a mantissa. Whole numbers below it
are doubles. -/
def wholeLimit : Nat := 9007199254740992

-- =========================================================== identity

/-- The number says which double it is, except for the sign of a zero. -/
theorem eq_of_value? (hx : value? x = some q) (hy : value? y = some q)
    (hq : q ≠ 0) : x = y := by
  have hbeq : (x == y) = true := by
    show ((unpack x).compare (unpack y) == some .eq) = true
    rw [compare_of_value? hx hy, cmp_self_eq_eq]
    rfl
  have hzero : ∀ z : Float, value? z = some 0 → x ≠ z := by
    intro z hz heq
    rw [heq, hz, Option.some_inj] at hx
    exact hq hx.symm
  rcases (Float.beq_iff_ne_nan_and_eq.1 hbeq).2.2 with h | ⟨h, -⟩ | ⟨h, -⟩
  · exact h
  · exact absurd h (hzero 0 rfl)
  · exact absurd h (hzero (-0) rfl)

/-- What is taken away from itself leaves the positive zero. -/
theorem sub_self_of_value? (hx : value? x = some q) : x - x = 0.0 := by
  have hunpacked : UnpackedFloat.sub Format.binary64 (unpack x) (unpack x)
      = .zero .positive := by
    rcases unpack_of_value? hx with ⟨s, hu, -⟩ | ⟨s, m, e, hm, hu, -⟩ <;>
      rw [hu]
    · cases s <;> rfl
    · simp only [UnpackedFloat.sub, sub_self]
      rfl
  show (⟨Float.Model.pack (UnpackedFloat.sub Format.binary64 (unpack x)
    (unpack x))⟩ : Float) = 0.0
  rw [hunpacked]
  rfl

-- ====================================================== whole numbers

theorem value?_whole (h : n < wholeLimit) : value? n.toFloat = some (n : Rat) :=
  value?_natCast h

theorem zero_eq_toFloat : (0.0 : Float) = (0 : Nat).toFloat := by
  rfl

/-- A whole number that is computed without an error is the double of that
number, unless it is zero. -/
theorem eq_toFloat (hx : value? x = some (n : Rat)) (hn : n ≠ 0)
    (h : n < wholeLimit) : x = n.toFloat :=
  eq_of_value? hx (value?_whole h) (by exact_mod_cast hn)

theorem abs_nearest_whole_lt (h : n < wholeLimit) :
    |nearest (n : Rat)| < 2 ^ (1024 : Int) := by
  refine abs_nearest_lt ?_
  unfold wholeLimit at h
  rw [abs_of_nonneg (Nat.cast_nonneg n)]
  exact_mod_cast (by omega : n ≤ 2 ^ 100)

theorem toFloat_add (h : a + b < wholeLimit) :
    a.toFloat + b.toFloat = (a + b).toFloat := by
  have hsum : (a : Rat) + b = (a + b : Nat) := by push_cast; rfl
  have hvalue : value? (a.toFloat + b.toFloat) = some ((a + b : Nat) : Rat) := by
    rw [value?_add (value?_whole (by omega)) (value?_whole (by omega)), hsum,
      nearest_of_representable (representable_natCast h)]
    rw [hsum]
    exact abs_nearest_whole_lt h
  by_cases hzero : a + b = 0
  · obtain ⟨rfl, rfl⟩ : a = 0 ∧ b = 0 := by omega
    rfl
  · exact eq_toFloat hvalue hzero h

theorem toFloat_sub (hab : b ≤ a) (h : a < wholeLimit) :
    a.toFloat - b.toFloat = (a - b).toFloat := by
  have hdiff : (a : Rat) - b = (a - b : Nat) := by rw [Nat.cast_sub hab]
  have hvalue : value? (a.toFloat - b.toFloat) = some ((a - b : Nat) : Rat) := by
    rw [value?_sub (value?_whole h) (value?_whole (by omega)), hdiff,
      nearest_of_representable (representable_natCast (by
        unfold wholeLimit at h
        omega))]
    rw [hdiff]
    exact abs_nearest_whole_lt (by omega)
  by_cases hzero : a - b = 0
  · obtain rfl : a = b := by omega
    rw [sub_self_of_value? (value?_whole h), Nat.sub_self]
    rfl
  · exact eq_toFloat hvalue hzero (by omega)

/-- A 16-bit length is a whole number. -/
theorem toFloat_length (length : UInt16) :
    length.toFloat = length.toNat.toFloat := by
  have hlt : length.toNat < 65536 := length.toNat_lt
  have hwhole : length.toNat < wholeLimit := by
    unfold wholeLimit
    omega
  have hcast : ((length.toNat : Int) : Rat) * 2 ^ (0 : Int)
      = (length.toNat : Rat) := by
    rw [zpow_zero, mul_one, Int.cast_natCast]
  have hvalue : value? length.toFloat = some (length.toNat : Rat) := by
    show value? ⟨Float.Model.pack (UnpackedFloat.normalize Format.binary64
      (length.toNat : Int) 0 .positive)⟩ = _
    rw [value?_normalize, hcast,
      nearest_of_representable (representable_natCast hwhole)]
    rw [hcast]
    exact abs_nearest_whole_lt hwhole
  by_cases hzero : length.toNat = 0
  · obtain rfl : length = 0 := UInt16.toNat_inj.1 hzero
    rfl
  · exact eq_toFloat hvalue hzero hwhole

-- ============================================================ settling

theorem value?_abs (hx : value? x = some q) : value? x.abs = some |q| := by
  show value? ⟨Float.Model.pack (unpack x).abs⟩ = _
  rcases unpack_of_value? hx with ⟨s, hu, rfl⟩ | ⟨s, m, e, hm, hu, rfl⟩ <;>
    rw [hu]
  · rw [abs_zero]
    exact value?_pack_zero .positive
  · rw [dyadic_eq_signed, abs_signed, abs_of_nonneg]
    · exact value?_pack_finite hm (canonical_of_unpack hu)
    · exact mul_nonneg (Nat.cast_nonneg m) (two_zpow_pos e).le

theorem settle_of_not_isNoise (h : isNoise x = false) : settle x = x := by
  unfold settle
  rw [h]
  rfl

/-- A whole number is not noise, unless it is zero. -/
theorem settle_toFloat (h : n < wholeLimit) : settle n.toFloat = n.toFloat := by
  by_cases hzero : n = 0
  · subst hzero
    rfl
  · obtain ⟨v, hv, -, hv'⟩ := value?_of_between (x := noise) value?_zero
      value?_one rfl rfl
    have hone : (1 : Rat) ≤ n := by exact_mod_cast Nat.pos_of_ne_zero hzero
    have hsound : isNoise n.toFloat = false := by
      unfold isNoise
      rw [decide_eq_false_iff_not, lt_iff_of_value? (value?_abs (value?_whole h))
        hv, abs_of_nonneg (Nat.cast_nonneg n)]
      exact not_lt.2 (hv'.trans hone)
    exact settle_of_not_isNoise hsound

theorem zero_lt_toFloat_iff (h : n < wholeLimit) :
    0.0 < n.toFloat ↔ 0 < n := by
  rw [lt_iff_of_value? value?_zero (value?_whole h)]
  exact Nat.cast_pos

end LinkAdaptation
