/-
What is read off a double: the larger and the smaller of two, and the
whole numbers that its value is rounded to. A rounded and clamped reading
is below a bound exactly when the value is, as long as the bound lies
inside the range that is clamped to.
-/
import LinkAdaptation.Proofs.Number.Arithmetic

namespace LinkAdaptation

variable {x y : Float} {a b q : Rat}

-- ======================================================= two doubles

theorem isNaN_of_value? (hx : value? x = some q) : x.isNaN = false := by
  show (unpack x).isNaN = false
  rcases unpack_of_value? hx with ⟨s, hu, -⟩ | ⟨s, m, e, hm, hu, -⟩ <;>
    rw [hu] <;> rfl

theorem value?_maxNum (hx : value? x = some a) (hy : value? y = some b) :
    value? (maxNum x y) = some (max a b) := by
  unfold maxNum
  rw [isNaN_of_value? hx, isNaN_of_value? hy]
  simp only [Bool.false_eq_true, if_false, lt_iff_of_value? hx hy]
  split
  · next h => rw [hy, max_eq_right h.le]
  · next h => rw [hx, max_eq_left (not_lt.1 h)]

theorem minNum_of_lt (hx : value? x = some a) (hy : value? y = some b)
    (h : y < x) : minNum x y = y := by
  unfold minNum
  rw [isNaN_of_value? hx, isNaN_of_value? hy]
  simp only [Bool.false_eq_true, if_false, if_pos h]

theorem minNum_of_not_lt (hx : value? x = some a) (hy : value? y = some b)
    (h : ¬ y < x) : minNum x y = x := by
  unfold minNum
  rw [isNaN_of_value? hx, isNaN_of_value? hy]
  simp only [Bool.false_eq_true, if_false, if_neg h]

theorem value?_minNum (hx : value? x = some a) (hy : value? y = some b) :
    value? (minNum x y) = some (min a b) := by
  have hlt := lt_iff_of_value? hy hx
  by_cases h : y < x
  · rw [minNum_of_lt hx hy h, hy, min_eq_right (hlt.1 h).le]
  · rw [minNum_of_not_lt hx hy h, hx,
      min_eq_left (not_lt.1 fun hba => h (hlt.2 hba))]

-- ========================================================== readings

theorem readInt_of_value? {round : Rat → Int} (lo hi : Int)
    (hzero : round 0 = 0) (hx : value? x = some q) :
    readInt round lo hi x = clamp lo hi (round q) := by
  unfold readInt
  rcases unpack_of_value? hx with ⟨s, hu, rfl⟩ | ⟨s, m, e, hm, hu, rfl⟩ <;>
    rw [hu]
  rw [hzero]

/-- The integer below a double passes a bound exactly when the double
does. -/
theorem le_floorInt_iff {n : Int} (hx : value? x = some q)
    (low : -signedLimit < n) (high : n < signedLimit) :
    n ≤ floorInt x ↔ (n : Rat) ≤ q := by
  unfold floorInt
  rw [readInt_of_value? _ _ (by decide) hx, ← Rat.le_floor_iff]
  unfold clamp
  omega

theorem floorInt_lt_iff {n : Int} (hx : value? x = some q)
    (low : -signedLimit < n) (high : n < signedLimit) :
    floorInt x < n ↔ q < n := by
  rw [← not_le, le_floorInt_iff hx low high, not_le]

/-- The size above a double stays under a bound exactly when the double
does. -/
theorem ceilSize_le_iff {n : Nat} (hx : value? x = some q)
    (h : n < wordMax) : ceilSize x ≤ n ↔ q ≤ n := by
  have hceil : q.ceil ≤ n ↔ q ≤ n := by
    rw [Rat.ceil_le_iff]
    norm_cast
  unfold ceilSize
  rw [readInt_of_value? _ _ (by decide) hx, ← hceil]
  unfold clamp
  omega

theorem lt_ceilSize_iff {n : Nat} (hx : value? x = some q)
    (h : n < wordMax) : n < ceilSize x ↔ n < q := by
  rw [← not_le, ceilSize_le_iff hx h, not_le]

theorem le_ceilSize {n : Nat} (hx : value? x = some q)
    (h : n ≤ 9007199254740992) (hq : n ≤ q) : n ≤ ceilSize x := by
  have hword : wordMax = 18446744073709551615 := rfl
  cases n with
  | zero => exact Nat.zero_le _
  | succ n =>
      refine (lt_ceilSize_iff hx (by omega)).2 (lt_of_lt_of_le ?_ hq)
      exact_mod_cast Nat.lt_succ_self n

/-- Rounding up to a size keeps order. -/
theorem ceilSize_mono (hx : value? x = some a) (hy : value? y = some b)
    (h : a ≤ b) : ceilSize x ≤ ceilSize y := by
  have hceil : a.ceil ≤ b.ceil :=
    Rat.ceil_le_iff.2 (h.trans (Rat.ceil_le_iff.1 (le_refl b.ceil)))
  unfold ceilSize
  rw [readInt_of_value? _ _ (by decide) hx, readInt_of_value? _ _ (by decide) hy]
  unfold clamp
  omega

theorem readInt_of_infinity {round : Rat → Int} (lo hi : Int)
    {s : Float.Model.UnpackedFloat.Sign} (h : unpack x = .infinity s) :
    readInt round lo hi x = match s with
      | .positive => hi
      | .negative => lo := by
  unfold readInt
  simp only [h]
  cases s <;> rfl

/-- A positive infinity is read as the largest size. -/
theorem ceilSize_of_positive (h : unpack x = .infinity .positive) :
    ceilSize x = wordMax := by
  unfold ceilSize
  simp only [readInt_of_infinity _ _ h, Int.toNat_natCast]

/-- A negative infinity is read as no size. -/
theorem ceilSize_of_negative (h : unpack x = .infinity .negative) :
    ceilSize x = 0 := by
  unfold ceilSize
  rw [readInt_of_infinity _ _ h]
  rfl

/-- Sizes below the sign bit are spelled as they are. -/
theorem signedWord_of_lt {n : Nat} (h : n < 9223372036854775808) :
    signedWord n = n := by
  unfold signedWord
  rw [Int.bmod_eq_of_le (by simp [UInt64.size]) (by simp [UInt64.size]; omega)]

/-- Sizes from the sign bit on come out as far below zero as they are below
the words. -/
theorem signedWord_of_le {n : Nat} (low : 9223372036854775808 ≤ n)
    (high : n ≤ wordMax) : signedWord n = -(UInt64.size - n : Nat) := by
  have hsize : UInt64.size = 18446744073709551616 := rfl
  have hword : wordMax = 18446744073709551615 := rfl
  unfold signedWord
  rw [Int.bmod_def, hsize]
  omega

end LinkAdaptation
