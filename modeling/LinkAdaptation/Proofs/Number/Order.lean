/-
The order of doubles. Finite doubles stand in the order of their numbers,
the infinities stand at the two ends, and what is not a number stands
nowhere: it is neither below nor above anything. So being below something
is enough to be comparable, and comparable doubles are in a linear order,
with the two zeros at the same place.
-/
import LinkAdaptation.Proofs.Number.Double

namespace LinkAdaptation

open Float.Model (UnpackedFloat)

/-- The numbers, with an end on either side. -/
abbrev Level := WithBot (WithTop Rat)

/-- A number among the levels. -/
def Level.ofRat (q : Rat) : Level := ((q : WithTop Rat) : WithBot (WithTop Rat))

/-- Where a double stands among the numbers and the two infinities. -/
def level? (x : Float) : Option Level :=
  match unpack x with
  | .infinity .negative => some ⊥
  | .infinity .positive => some ⊤
  | _ => (value? x).map Level.ofRat

variable {x y z : Float} {a b : Level}

/-- A double stands at its number or at an end, unless it is not a
number. -/
theorem level?_cases (x : Float) :
    (∃ q, value? x = some q ∧ level? x = some (.ofRat q))
      ∨ (unpack x = .infinity .negative ∧ level? x = some ⊥)
      ∨ (unpack x = .infinity .positive ∧ level? x = some ⊤)
      ∨ (unpack x = .notANumber ∧ level? x = none) := by
  unfold level?
  cases hx : unpack x with
  | zero s =>
      have hvalue := value?_of_zero hx
      exact .inl ⟨0, hvalue, by rw [hvalue]; rfl⟩
  | finite s m e hm =>
      have hvalue := value?_of_finite hx
      exact .inl ⟨_, hvalue, by rw [hvalue]; rfl⟩
  | infinity s =>
      cases s with
      | negative => exact .inr (.inl ⟨rfl, rfl⟩)
      | positive => exact .inr (.inr (.inl ⟨rfl, rfl⟩))
  | notANumber =>
      have hvalue : value? x = none := by
        unfold value?
        rw [hx]
      exact .inr (.inr (.inr ⟨rfl, by rw [hvalue]; rfl⟩))

theorem cmp_ofRat (p q : Rat) : cmp (Level.ofRat p) (.ofRat q) = cmp p q := by
  have hmono : StrictMono Level.ofRat := fun p q h =>
    WithBot.coe_lt_coe.2 (WithTop.coe_lt_coe.2 h)
  exact hmono.cmp_map_eq p q

theorem bot_lt_ofRat (q : Rat) : ⊥ < Level.ofRat q := WithBot.bot_lt_coe _

theorem ofRat_lt_top (q : Rat) : Level.ofRat q < ⊤ :=
  WithBot.coe_lt_coe.2 (WithTop.coe_lt_top q)

/-- Numbers and infinities compare as their levels do. -/
theorem compare_of_level? (hx : level? x = some a) (hy : level? y = some b) :
    (unpack x).compare (unpack y) = some (cmp a b) := by
  rcases level?_cases x with ⟨p, hp, hlx⟩ | ⟨hux, hlx⟩ | ⟨hux, hlx⟩ | ⟨-, hlx⟩ <;>
  rcases level?_cases y with ⟨q, hq, hly⟩ | ⟨huy, hly⟩ | ⟨huy, hly⟩ | ⟨-, hly⟩ <;>
  rw [hlx] at hx <;> rw [hly] at hy <;> cases hx <;> cases hy
  · rw [compare_of_value? hp hq, cmp_ofRat]
  · rw [huy, compare_infinity hp, (cmp_eq_gt_iff _ _).2 (bot_lt_ofRat p)]
  · rw [huy, (cmp_eq_lt_iff _ _).2 (ofRat_lt_top p)]
    rcases unpack_of_value? hp with ⟨s, hu, -⟩ | ⟨s, _, _, _, hu, -⟩ <;>
      rw [hu] <;> rfl
  · rw [hux, (cmp_eq_lt_iff _ _).2 (bot_lt_ofRat q)]
    rcases unpack_of_value? hq with ⟨s, hu, -⟩ | ⟨s, _, _, _, hu, -⟩ <;>
      rw [hu] <;> rfl
  · rw [hux, huy, cmp_self_eq_eq]
    rfl
  · rw [hux, huy, (cmp_eq_lt_iff _ _).2 bot_lt_top]
    rfl
  · rw [hux, infinity_compare hq, (cmp_eq_gt_iff _ _).2 (ofRat_lt_top q)]
  · rw [hux, huy, (cmp_eq_gt_iff _ _).2 bot_lt_top]
    rfl
  · rw [hux, huy, cmp_self_eq_eq]
    rfl

/-- What is not a number compares to nothing. -/
theorem compare_of_none (h : level? x = none ∨ level? y = none) :
    (unpack x).compare (unpack y) = none := by
  have hnan : ∀ z, level? z = none → unpack z = .notANumber := by
    intro z hz
    rcases level?_cases z with ⟨_, -, hl⟩ | ⟨-, hl⟩ | ⟨-, hl⟩ | ⟨hu, -⟩
    · rw [hl] at hz; cases hz
    · rw [hl] at hz; cases hz
    · rw [hl] at hz; cases hz
    · exact hu
  rcases h with h | h
  · rw [hnan x h]
    rfl
  · rw [hnan y h]
    cases unpack x <;> rfl

theorem lt_iff_level :
    x < y ↔ ∃ a b, level? x = some a ∧ level? y = some b ∧ a < b := by
  rw [lt_iff_compare]
  cases hx : level? x with
  | none => simp [compare_of_none (.inl hx)]
  | some a =>
      cases hy : level? y with
      | none => simp [compare_of_none (.inr hy)]
      | some b => simp [compare_of_level? hx hy, cmp_eq_lt_iff]

theorem le_iff_level :
    x ≤ y ↔ ∃ a b, level? x = some a ∧ level? y = some b ∧ a ≤ b := by
  rw [le_iff_compare]
  cases hx : level? x with
  | none => simp [compare_of_none (.inl hx)]
  | some a =>
      cases hy : level? y with
      | none => simp [compare_of_none (.inr hy)]
      | some b =>
          simp [compare_of_level? hx hy, cmp_eq_lt_iff, cmp_eq_eq_iff,
            le_iff_lt_or_eq]

-- ================================================================ laws

theorem double_lt_of_lt_of_le (h : x < y) (h' : y ≤ z) : x < z := by
  obtain ⟨a, b, ha, hb, hlt⟩ := lt_iff_level.1 h
  obtain ⟨b', c, hb', hc, hle⟩ := le_iff_level.1 h'
  rw [hb, Option.some_inj] at hb'
  subst hb'
  exact lt_iff_level.2 ⟨a, c, ha, hc, lt_of_lt_of_le hlt hle⟩

theorem double_le_of_lt (h : x < y) : x ≤ y := by
  obtain ⟨a, b, ha, hb, hlt⟩ := lt_iff_level.1 h
  exact le_iff_level.2 ⟨a, b, ha, hb, hlt.le⟩

theorem double_le_refl (h : x < y) : x ≤ x := by
  obtain ⟨a, -, ha, -, -⟩ := lt_iff_level.1 h
  exact le_iff_level.2 ⟨a, a, ha, ha, le_refl a⟩

/-- Doubles that are below something are comparable. -/
theorem double_le_of_not_lt (hx : x < z) (hy : y < z) (h : ¬ y < x) :
    x ≤ y := by
  obtain ⟨a, -, ha, -, -⟩ := lt_iff_level.1 hx
  obtain ⟨b, -, hb, -, -⟩ := lt_iff_level.1 hy
  refine le_iff_level.2 ⟨a, b, ha, hb, not_lt.1 fun hlt => h ?_⟩
  exact lt_iff_level.2 ⟨b, a, hb, ha, hlt⟩

end LinkAdaptation
