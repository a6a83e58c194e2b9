/-
Where the probes of a batch come from. They begin with candidates above the
current one that are not ruled out, none of them twice, and are filled up to
the number asked for with the candidate just below the current one; the
slowest candidate has none below and stands in for it.

Probes in order are all that a band of the candidates right above has to
offer, and the band is as wide as probes are asked for. Drawn probes are some
of a wider band, as many as asked for or all of it; which ones is up to the
draws, and no draws can take one twice.
-/
import LinkAdaptation.Proofs.Batch.Probe

namespace LinkAdaptation.Probing

open LinkAdaptation.Random (Generator)

variable {rates : RateSet} {current : rates.Index} {count bound width : Nat}
  {feasible found : List Rate} {rate : Rate}

-- ============================================================ the band

/-- What the `width` candidates right above the current one have to offer:
those of them that are admitted, slowest first. -/
structure NextUp (current : rates.Index) (width : Nat)
    (feasible found : List Rate) : Prop where
  ascends : found.Pairwise (· < ·)
  mem_iff : ∀ rate, rate ∈ found ↔ ∃ i : rates.Index,
    current < i ∧ i.val ≤ current.val + width ∧ rates.get i = rate
      ∧ admits feasible rate = true

theorem mem_slice_iff (start width : Nat) :
    rate ∈ (rates.toList.drop start).take width
      ↔ ∃ i : rates.Index, start ≤ i.val ∧ i.val < start + width
        ∧ rates.get i = rate := by
  rw [List.mem_iff_getElem?]
  constructor
  · intro h
    obtain ⟨n, hn⟩ := h
    rw [List.getElem?_take] at hn
    split at hn
    · next hwidth =>
        rw [List.getElem?_drop, List.getElem?_eq_some_iff] at hn
        obtain ⟨hlt, hrate⟩ := hn
        exact ⟨⟨start + n, hlt⟩, Nat.le_add_right start n,
          Nat.add_lt_add_left hwidth start, hrate⟩
    · cases hn
  · intro h
    obtain ⟨i, hstart, hwidth, hrate⟩ := h
    refine ⟨i.val - start, ?_⟩
    have hplace : start + (i.val - start) = i.val := Nat.add_sub_of_le hstart
    rw [List.getElem?_take, if_pos (by omega), List.getElem?_drop, hplace,
      List.getElem?_eq_some_iff]
    exact ⟨i.isLt, hrate⟩

theorem nextUp_band (current : rates.Index) (width : Nat)
    (feasible : List Rate) :
    NextUp current width feasible
      (band rates (current.val + 1) width feasible) := by
  refine ⟨?_, ?_⟩
  · have hslice : ((rates.toList.drop (current.val + 1)).take width).Sublist
        rates.toList := (List.take_sublist _ _).trans (List.drop_sublist _ _)
    exact (rates.ascending.sublist hslice).filter _
  · intro rate
    unfold band
    rw [List.mem_filter, mem_slice_iff]
    constructor
    · intro h
      obtain ⟨⟨i, hstart, hwidth, hrate⟩, hadmits⟩ := h
      exact ⟨i, hstart, by omega, hrate, hadmits⟩
    · intro h
      obtain ⟨i, hstart, hwidth, hrate, hadmits⟩ := h
      exact ⟨⟨i, hstart, by omega, hrate⟩, hadmits⟩

/-- An admitted candidate above the current one. -/
def IsAbove (current : rates.Index) (feasible : List Rate) (rate : Rate) :
    Prop :=
  rates.get current < rate ∧ rate ∈ rates.toList
    ∧ admits feasible rate = true

theorem NextUp.isAbove (h : NextUp current width feasible found)
    (hrate : rate ∈ found) : IsAbove current feasible rate := by
  obtain ⟨i, habove, -, rfl, hadmits⟩ := (h.mem_iff rate).1 hrate
  exact ⟨RateSet.get_lt_get habove, RateSet.get_mem i, hadmits⟩

theorem NextUp.nodup (h : NextUp current width feasible found) :
    found.Nodup :=
  h.ascends.imp fun hlt => UInt16.ne_of_lt hlt

-- ========================================================== the list

/-- Probes as a batch takes them: admitted candidates above the current one,
each of them once, and for the rest of the number asked for the candidate
just below. -/
structure FilledUp (current : rates.Index) (count : Nat)
    (feasible above found : List Rate) : Prop where
  few : above.length ≤ count
  distinct : above.Nodup
  isAbove : ∀ rate ∈ above, IsAbove current feasible rate
  eq_append : found = above ++ List.replicate (count - above.length)
    (rates.get (stepDown current))

theorem FilledUp.length {above : List Rate}
    (h : FilledUp current count feasible above found) :
    found.length = count := by
  rw [h.eq_append]
  exact length_fill h.few

/-- As many of a list as asked for, or all of it, and none of it twice. -/
structure SomeOf (l : List Rate) (count : Nat) (above : List Rate) :
    Prop where
  subperm : above.Subperm l
  length : above.length = min count l.length

/-- Some of a band, as many as asked for, can be filled up. -/
theorem SomeOf.filledUp {above : List Rate} (h : SomeOf found count above)
    (hband : NextUp current width feasible found) :
    FilledUp current count feasible above
      (fill count (rates.get (stepDown current)) above) where
  few := Nat.le_trans (Nat.le_of_eq h.length) (Nat.min_le_left _ _)
  distinct :=
    let ⟨_, hperm, hsub⟩ := h.subperm
    hperm.nodup_iff.1 (hband.nodup.sublist hsub)
  isAbove := fun _ hrate => hband.isAbove (h.subperm.subset hrate)
  eq_append := rfl

theorem someOf_band (current : rates.Index) (count : Nat)
    (feasible : List Rate) :
    SomeOf (band rates (current.val + 1) count feasible) count
      (band rates (current.val + 1) count feasible) where
  subperm := .refl _
  length := (Nat.min_eq_right (length_inOrder_le _ _)).symm

/-- Draws that choose from a list: a draw for each bound that it has. -/
def DrawnFrom (l : List Rate) (count : Nat) (draws : List Nat) : Prop :=
  Generator.Fits draws (Generator.bounds l.length (min count l.length))

theorem DrawnFrom.someOf {l : List Rate} {draws : List Nat}
    (h : DrawnFrom l count draws) :
    SomeOf l count (Generator.elementsAt l count draws) :=
  let ⟨hsub, hlength⟩ := Generator.elementsAt_fits h
  ⟨hsub, hlength⟩

-- ========================================================== the modes

theorem not_off_or_zero {how : Probing} (hhow : how ≠ off)
    (hcount : 0 < count) : ¬ (how = off ∨ count = 0) := by
  rintro (hoff | hzero)
  · exact hhow hoff
  · exact Nat.ne_of_gt hcount hzero

/-- Probes in order: the whole of a band, filled up. -/
theorem probes_sequential (hcount : 0 < count) (current : rates.Index)
    (bound : Nat) (feasible : List Rate) (g : Generator) :
    probes rates sequential current.val count bound feasible g
      = .ok (fill count (rates.get (stepDown current))
        (band rates (current.val + 1) count feasible), g) := by
  unfold probes
  rw [if_neg (not_wordMax_le current), get?_stepDown,
    if_neg (not_off_or_zero (by decide : sequential ≠ off) hcount)]
  rfl

/-- Drawn probes: some of a band, filled up. -/
theorem probes_random (hcount : 0 < count) (hbound : count ≤ bound)
    (current : rates.Index) (feasible : List Rate) (g : Generator) :
    ∃ g', probes rates random current.val count bound feasible g
      = .ok (fill count (rates.get (stepDown current)) (g.chooseMany
        (band rates (current.val + 1) bound feasible) count).1, g') := by
  unfold probes drawn
  rw [if_neg (not_wordMax_le current), get?_stepDown,
    if_neg (not_off_or_zero (by decide : random ≠ off) hcount), if_pos rfl,
    if_pos hbound]
  exact ⟨_, rfl⟩

/-- There are as many probes as asked for: different admitted candidates
above the current one, then the candidate just below. In order, those above
are all that the next candidates offer. Drawn, they are what some draws
choose from the wider band, and whatever the draws, that is as many of it as
asked for, or all of it, and nothing twice. -/
theorem probes_above_then_below {how : Probing} (hhow : how ≠ off)
    (hcount : 0 < count) (hbound : count ≤ bound) (current : rates.Index)
    (feasible : List Rate) (g : Generator) :
    ∃ found above g',
      probes rates how current.val count bound feasible g = .ok (found, g')
        ∧ found.length = count
        ∧ FilledUp current count feasible above found
        ∧ (how = sequential → NextUp current count feasible above)
        ∧ (how = random → ∃ offered, NextUp current bound feasible offered
          ∧ (∃ draws, DrawnFrom offered count draws
            ∧ above = Generator.elementsAt offered count draws)
          ∧ ∀ draws, DrawnFrom offered count draws →
            SomeOf offered count (Generator.elementsAt offered count draws)) := by
  cases how with
  | off => exact absurd rfl hhow
  | sequential =>
      have hband := nextUp_band current count feasible
      have hfill := (someOf_band current count feasible).filledUp hband
      exact ⟨_, _, g, probes_sequential hcount current bound feasible g,
        hfill.length, hfill, fun _ => hband, nofun⟩
  | random =>
      have hband := nextUp_band current bound feasible
      obtain ⟨g', hg'⟩ := probes_random hcount hbound current feasible g
      obtain ⟨draws, hdraws, habove⟩ := Generator.chooseMany_eq_elementsAt
        (band rates (current.val + 1) bound feasible) count g
      rw [habove] at hg'
      have hfill := (DrawnFrom.someOf hdraws).filledUp hband
      exact ⟨_, _, g', hg', hfill.length, hfill, nofun, fun _ =>
        ⟨_, hband, ⟨draws, hdraws, rfl⟩, fun _ h => h.someOf⟩⟩

/-- Three drawn probes where the band offers two: both of them, as drawn, and
then the candidate below. -/
theorem probes_filled_up_once :
    let rates : RateSet := ⟨#[10, 20, 55, 110, 180], by decide, by decide⟩
    let current : rates.Index := ⟨1, by decide⟩
    let feasible : List Rate := [10, 55, 110]
    let g := Generator.ofSeed 7
    random ≠ off ∧ 0 < 3 ∧ 3 ≤ 3
      ∧ ∃ found above g',
        probes rates random current.val 3 3 feasible g = .ok (found, g')
          ∧ FilledUp current 3 feasible above found
          ∧ (∃ offered, NextUp current 3 feasible offered
            ∧ ∃ draws, DrawnFrom offered 3 draws
              ∧ above = Generator.elementsAt offered 3 draws)
          ∧ found = [110, 55, 10] := by
  intro rates current feasible g
  refine ⟨by decide, by decide, by decide, ?_⟩
  have hlist : (probes rates random current.val 3 3 feasible g).toOption.map
      (·.1) = some [110, 55, 10] := by decide +kernel
  obtain ⟨found, above, g', hfound, -, hfill, -, hrandom⟩ :=
    probes_above_then_below (by decide : random ≠ off) (by decide : 0 < 3)
      (by decide : 3 ≤ 3) current feasible g
  obtain ⟨offered, hband, hdrawn, -⟩ := hrandom rfl
  rw [hfound] at hlist
  exact ⟨found, above, g', hfound, hfill, ⟨offered, hband, hdrawn⟩,
    Option.some_inj.1 hlist⟩

end LinkAdaptation.Probing
