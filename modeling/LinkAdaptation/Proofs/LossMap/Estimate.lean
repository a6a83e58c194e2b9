/-
Loss estimates stay estimates. Every figure that a loss map stores is
computed from shares — numbers of `[0, 1]` — by steps that keep to them:
the complement of a share, a product, a quotient of counts, a mixture, the
larger of two. Rounding does not lead out of the interval, since its ends
are doubles themselves; only the mixture needs more, for the two weights it
is made with do not add up to one exactly.

The mark `unknownLoss` is a number as well, and no other double equals it:
what is not known is the mark and nothing else.
-/
import LinkAdaptation.Flow.Mode
import LinkAdaptation.Proofs.Number.Reading

namespace LinkAdaptation

variable {x y : Float} {a b q : Rat}

-- ============================================================== shares

theorem inUnit_iff :
    inUnit x = true ↔ ∃ q, value? x = some q ∧ 0 ≤ q ∧ q ≤ 1 := by
  unfold inUnit
  rw [Bool.and_eq_true, decide_eq_true_iff, decide_eq_true_iff]
  constructor
  · intro h
    obtain ⟨low, high⟩ := h
    exact value?_of_between value?_zero value?_one low high
  · intro h
    obtain ⟨q, hx, low, high⟩ := h
    exact ⟨(le_iff_of_value? value?_zero hx).2 low,
      (le_iff_of_value? hx value?_one).2 high⟩

theorem inUnit_of_value? (hx : value? x = some q) (low : 0 ≤ q)
    (high : q ≤ 1) : inUnit x = true :=
  inUnit_iff.2 ⟨q, hx, low, high⟩

theorem nearest_inUnit (low : 0 ≤ q) (high : q ≤ 1) :
    0 ≤ nearest q ∧ nearest q ≤ 1 :=
  ⟨le_nearest representable_zero low, nearest_le representable_one high⟩

/-- What is rounded into the interval stays far from the infinities. -/
theorem abs_nearest_lt_of_inUnit (low : 0 ≤ q) (high : q ≤ 1) :
    |nearest q| < 2 ^ (1024 : Int) := by
  refine abs_nearest_lt ?_
  rw [abs_of_nonneg low]
  exact high.trans (by norm_num)

/-- Rounding moves a share by at most a quarter of the last place of one. -/
theorem abs_nearest_sub_le_of_inUnit (low : 0 ≤ q) (high : q ≤ 1) :
    |nearest q - q| ≤ 1 / 18014398509481984 := by
  rcases high.eq_or_lt with rfl | hlt
  · rw [nearest_of_representable representable_one, sub_self, abs_zero]
    norm_num
  · have hsmall : |q| < 2 ^ (0 : Int) := by
      rw [abs_of_nonneg low, zpow_zero]
      exact hlt
    have hstep : (2 : Rat) ^ (0 - 54 : Int) = 1 / 18014398509481984 := by
      norm_num
    rw [← hstep]
    exact abs_nearest_sub_le_of_lt hsmall (by decide)

/-- The complement of a share. -/
theorem value?_complement (hx : value? x = some a) (low : 0 ≤ a)
    (high : a ≤ 1) : value? (1.0 - x) = some (nearest (1 - a)) :=
  value?_sub value?_one hx
    (abs_nearest_lt_of_inUnit (sub_nonneg.2 high) (sub_le_self 1 low))

/-- What is left beside a share below one is not nothing. -/
theorem nearest_complement_ge (hx : value? x = some a) (high : a < 1) :
    1 / 9007199254740992 ≤ nearest (1 - a) := by
  have hgap := (representable_of_value? hx).le_of_lt_one high
  refine le_nearest ⟨1, -53, by decide, by decide, by norm_num⟩ ?_
  linarith

theorem nearest_complement_pos (hx : value? x = some a) (high : a < 1) :
    0 < nearest (1 - a) :=
  lt_of_lt_of_le (by norm_num) (nearest_complement_ge hx high)

theorem inUnit_complement (h : inUnit x = true) :
    inUnit (1.0 - x) = true := by
  obtain ⟨a, hx, low, high⟩ := inUnit_iff.1 h
  have hround := nearest_inUnit (sub_nonneg.2 high) (sub_le_self 1 low)
  exact inUnit_of_value? (value?_complement hx low high) hround.1 hround.2

theorem inUnit_mul (hx : inUnit x = true) (hy : inUnit y = true) :
    inUnit (x * y) = true := by
  obtain ⟨a, hx, ha, ha'⟩ := inUnit_iff.1 hx
  obtain ⟨b, hy, hb, hb'⟩ := inUnit_iff.1 hy
  have low : 0 ≤ a * b := mul_nonneg ha hb
  have high : a * b ≤ 1 := mul_le_one₀ ha' hb hb'
  have hround := nearest_inUnit low high
  exact inUnit_of_value? (value?_mul hx hy (abs_nearest_lt_of_inUnit low high))
    hround.1 hround.2

/-- A quotient of a smaller by a larger positive number. -/
theorem inUnit_div (hx : value? x = some a) (hy : value? y = some b)
    (ha : 0 ≤ a) (hb : 0 < b) (h : a ≤ b) : inUnit (x / y) = true := by
  have low : 0 ≤ a / b := div_nonneg ha hb.le
  have high : a / b ≤ 1 := (div_le_one hb).2 h
  have hround := nearest_inUnit low high
  exact inUnit_of_value?
    (value?_div hx hy hb.ne' (abs_nearest_lt_of_inUnit low high))
    hround.1 hround.2

-- ============================================================ mixtures

/-- A hair above one is one, once rounded. -/
theorem nearest_one_add : nearest (1 + 1 / 18014398509481984) = 1 := by
  decide +kernel

/-- Two parts of a mixture, rounded, exceed one by less than rounding can
see: the first is at most its weight, the second at most the rounded
complement of it, and that is off by no more than a quarter of the last
place of one. -/
theorem nearest_mixture_le {v w : Rat} (ha : a ≤ w)
    (hb : b ≤ nearest (1 - w)) (hw : 0 < w) (hw' : w ≤ 1)
    (hv : v = a + b) : nearest v ≤ 1 := by
  have herr := abs_nearest_sub_le_of_inUnit (sub_nonneg.2 hw')
    (sub_le_self 1 hw.le)
  have hsum : v ≤ 1 + 1 / 18014398509481984 := by
    have := (abs_le.1 herr).2
    linarith
  calc nearest v ≤ nearest (1 + 1 / 18014398509481984) := nearest_mono hsum
    _ = 1 := nearest_one_add

/-- A mixture of two shares is a share. -/
theorem inUnit_mixture {w : Float} {p : Rat} (hx : inUnit x = true)
    (hy : inUnit y = true) (hw : value? w = some p) (hp : 0 < p)
    (hp' : p ≤ 1) : inUnit (x * w + y * (1.0 - w)) = true := by
  obtain ⟨a, hx, ha, ha'⟩ := inUnit_iff.1 hx
  obtain ⟨b, hy, hb, hb'⟩ := inUnit_iff.1 hy
  have hrest := value?_complement hw hp.le hp'
  obtain ⟨hr, hr'⟩ := nearest_inUnit (sub_nonneg.2 hp') (sub_le_self 1 hp.le)
  have hold : a * p ≤ p := mul_le_of_le_one_left hp.le ha'
  have hnew : b * nearest (1 - p) ≤ nearest (1 - p) :=
    mul_le_of_le_one_left hr hb'
  have holdRound : nearest (a * p) ≤ p :=
    nearest_le (representable_of_value? hw) hold
  have hnewRound : nearest (b * nearest (1 - p)) ≤ nearest (1 - p) :=
    nearest_le (representable_of_value? hrest) hnew
  have holdPos : 0 ≤ a * p := mul_nonneg ha hp.le
  have hnewPos : 0 ≤ b * nearest (1 - p) := mul_nonneg hb hr
  have hold' := value?_mul hx hw
    (abs_nearest_lt_of_inUnit holdPos (hold.trans hp'))
  have hnew' := value?_mul hy hrest
    (abs_nearest_lt_of_inUnit hnewPos (hnew.trans hr'))
  have hpos := add_nonneg (nearest_nonneg holdPos) (nearest_nonneg hnewPos)
  have hmix := nearest_mixture_le holdRound hnewRound hp hp' rfl
  refine inUnit_of_value? (value?_add hold' hnew' ?_) (nearest_nonneg hpos) hmix
  have hsmall : nearest (a * p) + nearest (b * nearest (1 - p)) ≤ 2 := by
    linarith
  refine abs_nearest_lt ?_
  rw [abs_of_nonneg hpos]
  exact hsmall.trans (by norm_num)

-- =========================================================== estimates

/-- A loss that is not known is the mark, and no other double. -/
theorem isKnown_eq_false_iff : isKnown x = false ↔ x = unknownLoss := by
  show (!(x == unknownLoss)) = false ↔ _
  rw [Bool.not_eq_false', Float.beq_iff_ne_nan_and_eq]
  constructor
  · intro h
    rcases h with ⟨-, -, h | ⟨-, h⟩ | ⟨-, h⟩⟩
    · exact h
    · exact absurd h (by decide)
    · exact absurd h (by decide)
  · intro h
    subst h
    exact ⟨by decide, by decide, .inl rfl⟩

theorem isEstimate_iff :
    isEstimate x = true ↔ x = unknownLoss ∨ inUnit x = true := by
  unfold isEstimate
  rw [Bool.or_eq_true, Bool.not_eq_true', isKnown_eq_false_iff]

theorem isEstimate_unknownLoss : isEstimate unknownLoss = true :=
  isEstimate_iff.2 (.inl rfl)

theorem isEstimate_of_inUnit (h : inUnit x = true) : isEstimate x = true :=
  isEstimate_iff.2 (.inr h)

/-- A share is not the mark. -/
theorem isKnown_of_inUnit (h : inUnit x = true) : isKnown x = true := by
  rw [← Bool.not_eq_false, isKnown_eq_false_iff]
  intro unknown
  subst unknown
  cases h

/-- A known estimate is a share. -/
theorem inUnit_of_isKnown (h : isEstimate x = true)
    (known : isKnown x = true) : inUnit x = true := by
  rcases isEstimate_iff.1 h with unknown | unit
  · rw [isKnown_eq_false_iff.2 unknown] at known
    cases known
  · exact unit

/-- A weight of the past that is positive and not refused is a share. -/
theorem value?_of_weight (h : 0.0 < x) (h' : ¬ 1.0 < x) :
    ∃ q, value? x = some q ∧ 0 < q ∧ q ≤ 1 := by
  cases hx : unpack x with
  | zero s =>
      have hvx := value?_of_zero hx
      exact absurd ((lt_iff_of_value? value?_zero hvx).1 h) (lt_irrefl 0)
  | finite s m e hm =>
      have hvx := value?_of_finite hx
      exact ⟨_, hvx, (lt_iff_of_value? value?_zero hvx).1 h,
        not_lt.1 fun hlt => h' ((lt_iff_of_value? value?_one hvx).2 hlt)⟩
  | notANumber =>
      rw [lt_iff_compare, hx] at h
      rcases unpack_of_value? value?_zero with ⟨_, hu, -⟩ | ⟨_, _, _, _, hu, -⟩
        <;> rw [hu] at h <;> cases h
  | infinity s =>
      rw [lt_iff_compare, hx] at h
      cases s with
      | positive =>
          refine absurd ?_ h'
          rw [lt_iff_compare, hx]
          rcases unpack_of_value? value?_one with ⟨_, hu, -⟩ | ⟨_, _, _, _, hu, -⟩
            <;> rw [hu] <;> rfl
      | negative =>
          rw [compare_infinity value?_zero] at h
          cases h

/-- Blending an estimate into an estimate gives one, whatever the weight
is, NaN included: a weight that takes part in the mixture is a share. -/
theorem LossEntry.isEstimate_blend {e : LossEntry} {loss weight : Float}
    (he : isEstimate e.loss = true) (hl : isEstimate loss = true)
    (hw : ¬ 1.0 < weight) : isEstimate (e.blend loss weight).loss = true := by
  unfold LossEntry.blend
  split
  · next h =>
      rw [Bool.and_eq_true, Bool.and_eq_true, decide_eq_true_iff] at h
      obtain ⟨⟨hpos, hnew⟩, hold⟩ := h
      obtain ⟨p, hp, low, high⟩ := value?_of_weight hpos hw
      exact isEstimate_of_inUnit (inUnit_mixture (inUnit_of_isKnown he hold)
        (inUnit_of_isKnown hl hnew) hp low high)
  · split
    · exact hl
    · exact he

/-- The larger of two estimates is one of them. -/
theorem isEstimate_maxNum (hx : isEstimate x = true)
    (hy : isEstimate y = true) : isEstimate (maxNum x y) = true := by
  unfold maxNum
  split
  · exact hy
  · split
    · exact hx
    · split
      · exact hy
      · exact hx

theorem inUnit_maxNum (hx : inUnit x = true) (hy : inUnit y = true) :
    inUnit (maxNum x y) = true := by
  obtain ⟨a, hx, ha, ha'⟩ := inUnit_iff.1 hx
  obtain ⟨b, hy, -, hb'⟩ := inUnit_iff.1 hy
  exact inUnit_of_value? (value?_maxNum hx hy) (le_max_of_le_left ha)
    (max_le ha' hb')

/-- What two vantage points estimate, merged, is an estimate. -/
theorem isEstimate_mergeLosses (hx : isEstimate x = true)
    (hy : isEstimate y = true) : isEstimate (mergeLosses x y) = true := by
  unfold mergeLosses
  split
  · exact isEstimate_maxNum hx hy
  · next h =>
      rw [Bool.or_eq_true, Bool.not_eq_true', Bool.not_eq_true', not_or,
        Bool.not_eq_false, Bool.not_eq_false] at h
      have hx := inUnit_of_isKnown hx h.1
      have hy := inUnit_of_isKnown hy h.2
      refine isEstimate_of_inUnit ?_
      split
      · obtain ⟨a, hm, ha, ha'⟩ := inUnit_iff.1 (inUnit_maxNum hx hy)
        have htwo : value? 2.0 = some 2 :=
          value?_natCast (n := 2) (by decide)
        exact inUnit_div hm htwo ha (by decide) (by linarith)
      · exact inUnit_mul hx hy

-- ============================================================= tallies

/-- A tally as counting leaves it. -/
structure Tally.Sound (t : Tally) : Prop where
  acked_le : t.acked ≤ t.sent
  sent_lt : t.sent < counterLimit

/-- The share of lost packets is an estimate. -/
theorem Tally.Sound.isEstimate_loss {t : Tally} (h : t.Sound) :
    isEstimate t.loss = true := by
  have hlimit : counterLimit = 4294967296 := rfl
  have hsent := h.sent_lt
  have hacked := h.acked_le
  unfold Tally.loss
  split
  · exact isEstimate_unknownLoss
  · refine isEstimate_of_inUnit (inUnit_complement ?_)
    refine inUnit_div (value?_natCast (by omega)) (value?_natCast (by omega))
      (Nat.cast_nonneg _) ?_ (by exact_mod_cast hacked)
    exact_mod_cast (by omega : 0 < t.sent)

end LinkAdaptation
