/-
The probes of a batch are candidates, and no more than were asked for. This
holds whichever way they are found: a band of the candidates is no wider
than asked for, draws take no more of it than asked for, and what is filled
up ends at the number asked for.
-/
import LinkAdaptation.Batch.Probe
import LinkAdaptation.Proofs.Checked
import LinkAdaptation.Proofs.Random.Draw
import LinkAdaptation.Proofs.RateSet

namespace LinkAdaptation.Probing

open LinkAdaptation.Random (Generator)

variable {rates : RateSet} {feasible : List Rate} {rate : Rate}

theorem mem_of_mem_band {start width : Nat}
    (h : rate ∈ band rates start width feasible) : rate ∈ rates.toList :=
  List.mem_of_mem_drop (List.mem_of_mem_take (List.mem_filter.1 h).1)

theorem length_inOrder_le (start count : Nat) :
    (inOrder rates start count feasible).length ≤ count :=
  Nat.le_trans (List.length_filter_le _ _) (List.length_take_le _ _)

/-- Rates found above the current one: candidates, and not too many. -/
theorem drawn_upholds (start count bound : Nat) (g : Generator) :
    Upholds (drawn rates start count bound feasible g)
      (fun p => p.1.length ≤ count ∧ ∀ rate ∈ p.1, rate ∈ rates.toList)
      (· = .probesOutOfBand) := by
  unfold drawn
  split
  · have hlength := Generator.length_chooseMany
      (band rates start bound feasible) count g
    have hdrawn := Generator.chooseMany_subperm
      (band rates start bound feasible) count g
    exact ⟨Nat.le_trans (Nat.le_of_eq hlength) (Nat.min_le_left _ _),
      fun rate h => mem_of_mem_band (hdrawn.subset h)⟩
  · exact rfl

theorem length_fill {count : Nat} {pad : Rate} {probes : List Rate}
    (h : probes.length ≤ count) : (fill count pad probes).length = count := by
  unfold fill
  rw [List.length_append, List.length_replicate]
  omega

/-- The bounds that finding probes can break. -/
def faults : List Fault :=
  [.sizeOverflow, .probesOutOfBand, .indexOutOfBounds]

/-- The probes of a batch are candidates and no more than asked for; there
are none where none are looked for. -/
theorem probes_upholds (how : Probing) (current count bound : Nat)
    (g : Generator) :
    Upholds (probes rates how current count bound feasible g)
      (fun p => p.1.length ≤ count ∧ (∀ rate ∈ p.1, rate ∈ rates.toList)
        ∧ (how = off → p.1 = []))
      (· ∈ faults) := by
  unfold probes
  split
  · show Fault.sizeOverflow ∈ faults
    decide
  · split
    · refine ⟨Nat.zero_le _, ?_, fun _ => rfl⟩
      intro rate h
      cases h
    · next h =>
        have hfill : ∀ p : List Rate × Generator, p.1.length ≤ count
            ∧ (∀ rate ∈ p.1, rate ∈ rates.toList) → ∀ below,
            rates.get? (current - 1) = some below →
            (fill count below p.1).length ≤ count
              ∧ (∀ rate ∈ fill count below p.1, rate ∈ rates.toList)
              ∧ (how = off → fill count below p.1 = []) := by
          intro p hp below hbelow
          refine ⟨Nat.le_of_eq (length_fill hp.1), ?_,
            fun hoff => absurd (.inl hoff) h⟩
          intro rate hrate
          rcases List.mem_append.1 hrate with hrate | hrate
          · exact hp.2 rate hrate
          · rw [List.eq_of_mem_replicate hrate]
            exact Array.mem_toList_iff.2 (Array.mem_of_getElem? hbelow)
        have hband : ∀ fault : Fault, fault = .probesOutOfBand →
            fault ∈ faults := by
          intro fault heq
          rw [heq]
          decide
        have hnone : Fault.indexOutOfBounds ∈ faults := by decide
        dsimp only
        split
        · apply ((drawn_upholds _ _ _ g).weaken hband).bind
          intro p hp
          split
          · next below hbelow => exact hfill p hp below hbelow
          · exact hnone
        · split
          · next below hbelow =>
              exact hfill (_, g) ⟨length_inOrder_le _ _,
                fun rate h => mem_of_mem_band h⟩ below hbelow
          · exact hnone

theorem drawn_succeeds {count bound : Nat} (h : count ≤ bound) (start : Nat)
    (feasible : List Rate) (g : Generator) :
    ∃ p, drawn rates start count bound feasible g = .ok p := by
  unfold drawn
  rw [if_pos h]
  exact ⟨_, rfl⟩

theorem pred_lt_size (i : rates.Index) : i.val - 1 < rates.size :=
  Nat.lt_of_le_of_lt (Nat.sub_le _ _) i.isLt

/-- The candidate just below one; the slowest stands in for itself. -/
def stepDown (i : rates.Index) : rates.Index := ⟨i.val - 1, pred_lt_size i⟩

theorem get?_stepDown (i : rates.Index) :
    rates.get? (i.val - 1) = some (rates.get (stepDown i)) :=
  Array.getElem?_eq_getElem (pred_lt_size i)

theorem not_wordMax_le (i : rates.Index) : ¬ wordMax ≤ i.val := by
  have hword : wordMax = 18446744073709551615 := rfl
  have hsmall := RateSet.index_lt i
  omega

/-- Probes are found for every candidate, as long as no more are asked for
than the band is wide. -/
theorem probes_succeed (how : Probing) {count bound : Nat}
    (h : count ≤ bound) (current : rates.Index) (feasible : List Rate)
    (g : Generator) :
    ∃ p, probes rates how current.val count bound feasible g = .ok p := by
  unfold probes
  rw [if_neg (not_wordMax_le current), get?_stepDown]
  split
  · exact ⟨_, rfl⟩
  · dsimp only
    split
    · obtain ⟨p, hp⟩ := drawn_succeeds h (current.val + 1) feasible g
      rw [hp]
      exact ⟨_, rfl⟩
    · exact ⟨_, rfl⟩

end LinkAdaptation.Probing
