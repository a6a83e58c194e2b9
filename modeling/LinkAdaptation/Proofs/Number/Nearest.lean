/-
Rounding to doubles, on exact rationals. A rational between `2 ^ t` and
`2 ^ (t + 1)` is rounded to the multiples of `2 ^ (t - 52)`: between these
bounds they are the numbers with a mantissa of 53 bits. Below `2 ^ -1022`
the grid stops refining. The nearest multiple is taken, and of two equally
near ones the even multiple.

# What the bounds rest on

Two facts carry every bound on computed figures: rounding keeps order
(`nearest_mono`), and it keeps what is a double already
(`nearest_of_representable`). So a bound that holds of an exact result and
is a double itself holds of the rounded result too. Where this is too
coarse, the distance to the exact result is used (`abs_nearest_sub_le`).
-/
import LinkAdaptation.Number.Value
import Mathlib.Data.Int.Log
import Mathlib.Data.Rat.Floor
import Mathlib.Tactic.Linarith
import Mathlib.Tactic.Positivity
import Mathlib.Tactic.Ring

namespace LinkAdaptation

-- ================================================ rounding to integers

/-- A number lies within one above its floor. -/
theorem floor_bounds (q : Rat) : (q.floor : Rat) ≤ q ∧ q < q.floor + 1 :=
  ⟨Int.floor_le q, Int.lt_floor_add_one q⟩

theorem roundHalfEven_of_lt {q : Rat} (h : q - q.floor < 1 / 2) :
    roundHalfEven q = q.floor := by
  unfold roundHalfEven
  exact if_pos h

theorem roundHalfEven_of_gt {q : Rat} (h : 1 / 2 < q - q.floor) :
    roundHalfEven q = q.floor + 1 := by
  unfold roundHalfEven
  dsimp only
  rw [if_neg (not_lt.2 h.le), if_pos h]

/-- A half goes to the even neighbour. -/
theorem roundHalfEven_of_eq {q : Rat} (h : q - q.floor = 1 / 2) :
    roundHalfEven q = q.floor + q.floor % 2 := by
  unfold roundHalfEven
  dsimp only
  rw [if_neg (not_lt.2 h.ge), if_neg (not_lt.2 h.le)]
  split_ifs <;> omega

/-- An integer is its own rounding. -/
theorem roundHalfEven_intCast (n : Int) : roundHalfEven n = n := by
  unfold roundHalfEven
  simp [Rat.floor_intCast]

/-- Rounding moves a number by at most a half. -/
theorem abs_roundHalfEven_sub_le (q : Rat) :
    |(roundHalfEven q : Rat) - q| ≤ 1 / 2 := by
  obtain ⟨low, high⟩ := floor_bounds q
  unfold roundHalfEven
  dsimp only
  rw [abs_le]
  split_ifs <;> push_cast <;> constructor <;> linarith

/-- Rounding keeps order. Were it to exchange two numbers, both would lie
a half away from their roundings, in the same place. -/
theorem roundHalfEven_mono {p q : Rat} (h : p ≤ q) :
    roundHalfEven p ≤ roundHalfEven q := by
  by_contra hlt
  have hstep : roundHalfEven q + 1 ≤ roundHalfEven p := by omega
  have hcast : (roundHalfEven q : Rat) + 1 ≤ roundHalfEven p := by
    exact_mod_cast hstep
  obtain ⟨hp', hp''⟩ := abs_le.1 (abs_roundHalfEven_sub_le p)
  obtain ⟨hq', hq''⟩ := abs_le.1 (abs_roundHalfEven_sub_le q)
  have same : p = q := by linarith
  subst same
  omega

/-- Rounding treats both signs alike: ties are even on either side. -/
theorem roundHalfEven_neg (q : Rat) :
    roundHalfEven (-q) = -roundHalfEven q := by
  obtain ⟨low, high⟩ := floor_bounds q
  by_cases whole : q = q.floor
  · rw [whole, ← Int.cast_neg, roundHalfEven_intCast, roundHalfEven_intCast]
  · have flip : (-q).floor = -q.floor - 1 := by
      have below : (q.floor : Rat) < q := lt_of_le_of_ne low (Ne.symm whole)
      show ⌊-q⌋ = -q.floor - 1
      refine Int.floor_eq_iff.2 ⟨?_, ?_⟩ <;> push_cast <;> linarith
    unfold roundHalfEven
    dsimp only
    rw [flip]
    push_cast
    split_ifs <;> first | omega | (exfalso; linarith)

-- ============================================================ the grid

/-- The exponent of the grid that a number is rounded to. -/
def gridExponent (q : Rat) : Int := max (Int.log 2 |q| - 52) (-1074)

/-- The grid point nearest to a number. -/
def nearest (q : Rat) : Rat :=
  roundHalfEven (q / 2 ^ gridExponent q) * 2 ^ gridExponent q

/-- A number with a mantissa of 53 bits. Every finite double stands for
one; the range that is left out is that of the infinities. -/
def Representable (q : Rat) : Prop :=
  ∃ m e : Int, |m| < 9007199254740992 ∧ -1074 ≤ e ∧ q = m * 2 ^ e

theorem two_zpow_pos (e : Int) : (0 : Rat) < 2 ^ e :=
  zpow_pos (by decide) e

theorem two_zpow_le {e e' : Int} (h : e ≤ e') : (2 : Rat) ^ e ≤ 2 ^ e' :=
  zpow_le_zpow_right₀ (by decide) h

/-- A power of two on a finer grid. -/
theorem two_zpow_eq_mul {e e' : Int} (h : e ≤ e') :
    (2 : Rat) ^ e' = (2 ^ (e' - e).toNat : Int) * 2 ^ e := by
  have split : e' = ((e' - e).toNat : Int) + e := by omega
  conv_lhs => rw [split]
  rw [zpow_add₀ (by decide), zpow_natCast]
  push_cast
  rfl

theorem lt_two_zpow_iff {q : Rat} {t : Int} (hq : 0 < q) :
    q < 2 ^ t ↔ Int.log 2 q < t := by
  have := Int.lt_zpow_iff_log_lt (R := Rat) (b := 2) (x := t) (by decide) hq
  exact_mod_cast this

theorem two_zpow_log_le {q : Rat} (hq : 0 < q) : 2 ^ Int.log 2 q ≤ q := by
  have := Int.zpow_log_le_self (R := Rat) (b := 2) (by decide) hq
  exact_mod_cast this

theorem gridExponent_neg (q : Rat) : gridExponent (-q) = gridExponent q := by
  unfold gridExponent
  rw [abs_neg]

theorem gridExponent_mono {p q : Rat} (hp : 0 < p) (h : p ≤ q) :
    gridExponent p ≤ gridExponent q := by
  have hlog := Int.log_mono_right (b := 2) hp h
  unfold gridExponent
  rw [abs_of_pos hp, abs_of_pos (lt_of_lt_of_le hp h)]
  omega

/-- Numbers below `2 ^ t` are rounded to a grid of `2 ^ (t - 53)` or
finer. -/
theorem gridExponent_le_of_lt {q : Rat} {t : Int} (hq : q ≠ 0)
    (h : |q| < 2 ^ t) (ht : -1021 ≤ t) : gridExponent q ≤ t - 53 := by
  have hlog := (lt_two_zpow_iff (abs_pos.2 hq)).1 h
  unfold gridExponent
  omega

-- =========================================================== the laws

theorem nearest_zero : nearest 0 = 0 := by
  have whole : roundHalfEven 0 = 0 := by exact_mod_cast roundHalfEven_intCast 0
  unfold nearest
  rw [zero_div, whole, Int.cast_zero, zero_mul]

theorem nearest_neg (q : Rat) : nearest (-q) = -nearest q := by
  unfold nearest
  rw [gridExponent_neg, neg_div, roundHalfEven_neg, Int.cast_neg, neg_mul]

/-- A point of a number's grid that is not above the number is not above
its rounding. -/
theorem le_nearest_of_grid {q : Rat} {n : Int}
    (h : n * 2 ^ gridExponent q ≤ q) : n * 2 ^ gridExponent q ≤ nearest q := by
  have hpos := two_zpow_pos (gridExponent q)
  have hle : (n : Rat) ≤ q / 2 ^ gridExponent q := (le_div_iff₀ hpos).2 h
  have hround := roundHalfEven_mono hle
  rw [roundHalfEven_intCast] at hround
  unfold nearest
  exact mul_le_mul_of_nonneg_right (by exact_mod_cast hround) hpos.le

/-- A point of a number's grid that is not below the number is not below
its rounding. -/
theorem nearest_le_of_grid {q : Rat} {n : Int}
    (h : q ≤ n * 2 ^ gridExponent q) : nearest q ≤ n * 2 ^ gridExponent q := by
  have hneg : ((-n : Int) : Rat) * 2 ^ gridExponent (-q) ≤ -q := by
    rw [gridExponent_neg]
    push_cast
    linarith
  have hle := le_nearest_of_grid hneg
  rw [nearest_neg, gridExponent_neg] at hle
  push_cast at hle
  linarith

theorem nearest_nonneg {q : Rat} (h : 0 ≤ q) : 0 ≤ nearest q := by
  have hle := le_nearest_of_grid (q := q) (n := 0) (by simpa using h)
  simpa using hle

/-- Rounding keeps the order of positive numbers. On one grid this is the
order of rounded mantissas; on two grids a power of two lies between the
numbers, and it is a point of both. -/
theorem nearest_mono_of_pos {p q : Rat} (hp : 0 < p) (h : p ≤ q) :
    nearest p ≤ nearest q := by
  have hq : 0 < q := lt_of_lt_of_le hp h
  rcases (gridExponent_mono hp h).eq_or_lt with same | finer
  · have hpos := two_zpow_pos (gridExponent q)
    unfold nearest
    rw [same]
    refine mul_le_mul_of_nonneg_right ?_ hpos.le
    exact_mod_cast roundHalfEven_mono (div_le_div_of_nonneg_right h hpos.le)
  · have hlog : gridExponent q = Int.log 2 q - 52 := by
      unfold gridExponent at finer ⊢
      rw [abs_of_pos hq] at finer ⊢
      omega
    have above : (2 : Rat) ^ Int.log 2 q ≤ q := two_zpow_log_le hq
    have below : p ≤ 2 ^ Int.log 2 q := by
      refine le_of_lt ((lt_two_zpow_iff hp).2 ?_)
      unfold gridExponent at finer
      rw [abs_of_pos hp, abs_of_pos hq] at finer
      omega
    have hpq : gridExponent p ≤ Int.log 2 q := by omega
    have hqq : gridExponent q ≤ Int.log 2 q := by omega
    calc nearest p ≤ 2 ^ Int.log 2 q := by
          rw [two_zpow_eq_mul hpq] at below ⊢
          exact nearest_le_of_grid below
      _ ≤ nearest q := by
          rw [two_zpow_eq_mul hqq] at above ⊢
          exact le_nearest_of_grid above

/-- Rounding keeps order. -/
theorem nearest_mono {p q : Rat} (h : p ≤ q) : nearest p ≤ nearest q := by
  rcases lt_or_ge 0 p with hp | hp
  · exact nearest_mono_of_pos hp h
  · have hp' : nearest p ≤ 0 := by
      have := nearest_nonneg (q := -p) (by linarith)
      rw [nearest_neg] at this
      linarith
    rcases lt_or_ge q 0 with hq | hq
    · have := nearest_mono_of_pos (p := -q) (q := -p) (by linarith)
        (by linarith)
      rw [nearest_neg, nearest_neg] at this
      linarith
    · exact le_trans hp' (nearest_nonneg hq)

/-- What is a double already is its own rounding. -/
theorem nearest_of_representable {q : Rat} (h : Representable q) :
    nearest q = q := by
  obtain ⟨m, e, hm, he, rfl⟩ := h
  by_cases zero : (m : Rat) * 2 ^ e = 0
  · rw [zero, nearest_zero]
  have hgrid : gridExponent (m * 2 ^ e) ≤ e := by
    have hlt : |(m : Rat) * 2 ^ e| < 2 ^ (53 + e) := by
      rw [abs_mul, abs_of_pos (two_zpow_pos e), zpow_add₀ (by decide)]
      refine mul_lt_mul_of_pos_right ?_ (two_zpow_pos e)
      have hcast : |(m : Rat)| < 9007199254740992 := by exact_mod_cast hm
      norm_num
      exact hcast
    have := gridExponent_le_of_lt zero hlt (by omega)
    omega
  have hpos := two_zpow_pos (gridExponent ((m : Rat) * 2 ^ e))
  have whole : (m : Rat) * 2 ^ e / 2 ^ gridExponent ((m : Rat) * 2 ^ e)
      = ((m * 2 ^ (e - gridExponent ((m : Rat) * 2 ^ e)).toNat : Int) : Rat) := by
    rw [div_eq_iff hpos.ne', Int.cast_mul, mul_assoc, ← two_zpow_eq_mul hgrid]
  unfold nearest
  rw [whole, roundHalfEven_intCast, ← whole, div_mul_cancel₀ _ hpos.ne']

/-- Rounding moves a number by at most half a unit of its grid. -/
theorem abs_nearest_sub_le (q : Rat) :
    |nearest q - q| ≤ 2 ^ gridExponent q / 2 := by
  have hpos := two_zpow_pos (gridExponent q)
  have split : nearest q - q
      = (roundHalfEven (q / 2 ^ gridExponent q) - q / 2 ^ gridExponent q)
        * 2 ^ gridExponent q := by
    unfold nearest
    rw [sub_mul, div_mul_cancel₀ _ hpos.ne']
  rw [split, abs_mul, abs_of_pos hpos]
  calc _ ≤ 1 / 2 * (2 : Rat) ^ gridExponent q :=
        mul_le_mul_of_nonneg_right (abs_roundHalfEven_sub_le _) hpos.le
    _ = 2 ^ gridExponent q / 2 := by ring

-- ========================================================= the bounds

/-- The half step, where only a power of two above the number is known. -/
theorem abs_nearest_sub_le_of_lt {q : Rat} {t : Int} (h : |q| < 2 ^ t)
    (ht : -1021 ≤ t) : |nearest q - q| ≤ 2 ^ (t - 54) := by
  by_cases hq : q = 0
  · rw [hq, nearest_zero, sub_zero, abs_zero]
    exact (two_zpow_pos _).le
  · calc |nearest q - q| ≤ 2 ^ gridExponent q / 2 := abs_nearest_sub_le q
      _ ≤ 2 ^ (t - 53) / 2 := by
          have := two_zpow_le (gridExponent_le_of_lt hq h ht)
          linarith
      _ = 2 ^ (t - 54) := by
          have hexp : t - 53 = t - 54 + 1 := by omega
          rw [hexp, zpow_add_one₀ (by decide)]
          ring

/-- The half step, in terms of the number itself. Near zero it is no larger
than near one. -/
theorem abs_nearest_sub_le_abs (q : Rat) :
    |nearest q - q| ≤ (|q| + 1) / 2 ^ 53 := by
  have hnonneg := abs_nonneg q
  rcases lt_or_ge |q| 1 with hsmall | hlarge
  · have hstep := abs_nearest_sub_le_of_lt (t := 0) (by simpa using hsmall)
      (by decide)
    refine hstep.trans ?_
    rw [le_div_iff₀ (by norm_num)]
    norm_num
    linarith
  · have hpos : 0 < |q| := by linarith
    have hlog : 0 ≤ Int.log 2 |q| := by
      rw [← not_lt, ← lt_two_zpow_iff hpos, zpow_zero, not_lt]
      exact hlarge
    have hgrid : gridExponent q = Int.log 2 |q| - 52 := by
      unfold gridExponent
      omega
    calc |nearest q - q| ≤ 2 ^ gridExponent q / 2 := abs_nearest_sub_le q
      _ = 2 ^ Int.log 2 |q| / 2 ^ 53 := by
          rw [hgrid, zpow_sub₀ (by norm_num)]
          norm_num
          ring
      _ ≤ (|q| + 1) / 2 ^ 53 := by
          have hle := two_zpow_log_le hpos
          gcongr
          linarith

/-- A double below a number is below its rounding. -/
theorem le_nearest {p q : Rat} (hp : Representable p) (h : p ≤ q) :
    p ≤ nearest q := by
  rw [← nearest_of_representable hp]
  exact nearest_mono h

/-- A double above a number is above its rounding. -/
theorem nearest_le {p q : Rat} (hp : Representable p) (h : q ≤ p) :
    nearest q ≤ p := by
  rw [← nearest_of_representable hp]
  exact nearest_mono h

theorem representable_intCast {n : Int} (h : |n| < 9007199254740992) :
    Representable n :=
  ⟨n, 0, h, by decide, by simp⟩

theorem representable_natCast {n : Nat} (h : n < 9007199254740992) :
    Representable n := by
  have := representable_intCast (n := n) (by rw [abs_of_nonneg] <;> omega)
  exact_mod_cast this

/-- The least power of two that is no mantissa is a double all the same. -/
theorem representable_natCast_of_le {n : Nat} (h : n ≤ 9007199254740992) :
    Representable n := by
  rcases h.eq_or_lt with rfl | hlt
  · exact ⟨1, 53, by decide, by decide, by norm_num⟩
  · exact representable_natCast hlt

theorem representable_zero : Representable 0 := by
  have := representable_natCast (n := 0) (by decide)
  exact_mod_cast this

theorem representable_one : Representable 1 := by
  have := representable_natCast (n := 1) (by decide)
  exact_mod_cast this

theorem Representable.neg {q : Rat} (h : Representable q) :
    Representable (-q) := by
  obtain ⟨m, e, hm, he, rfl⟩ := h
  refine ⟨-m, e, by rwa [abs_neg], he, ?_⟩
  push_cast
  ring

/-- Below one there is a gap as wide as the last place. -/
theorem Representable.le_of_lt_one {q : Rat} (h : Representable q)
    (hlt : q < 1) : q ≤ 1 - 1 / 9007199254740992 := by
  obtain ⟨m, e, hm, he, rfl⟩ := h
  have hstep : (2 : Rat) ^ (-53 : Int) = 1 / 9007199254740992 := by norm_num
  rcases le_total (-53) e with coarse | fine
  · obtain ⟨n, hn⟩ : ∃ n : Int, n = m * 2 ^ (e - -53).toNat := ⟨_, rfl⟩
    have hgrid : (m : Rat) * 2 ^ e = n * (1 / 9007199254740992) := by
      rw [two_zpow_eq_mul coarse, hn, hstep]
      push_cast
      ring
    rw [hgrid] at hlt ⊢
    have hn : (n : Rat) < 9007199254740992 := by linarith
    have hn' : n + 1 ≤ 9007199254740992 := by exact_mod_cast hn
    have hcast : (n : Rat) + 1 ≤ 9007199254740992 := by exact_mod_cast hn'
    linarith
  · have hm' : m + 1 ≤ 9007199254740992 := (abs_lt.1 hm).2
    have hcast : (m : Rat) + 1 ≤ 9007199254740992 := by exact_mod_cast hm'
    have hpos := two_zpow_pos e
    have hsmall := two_zpow_le fine
    rw [hstep] at hsmall
    have hroom : (0 : Rat) ≤ 9007199254740992 - 1 := by norm_num
    calc (m : Rat) * 2 ^ e ≤ (9007199254740992 - 1) * 2 ^ e :=
          mul_le_mul_of_nonneg_right (by linarith) hpos.le
      _ ≤ (9007199254740992 - 1) * (1 / 9007199254740992) :=
          mul_le_mul_of_nonneg_left hsmall hroom
      _ = 1 - 1 / 9007199254740992 := by norm_num

end LinkAdaptation
