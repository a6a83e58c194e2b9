/-
A loss map whose entries are estimates keeps them so, whatever it is asked.
The losses of single requests are checked before they are stored, with
weights of any kind; the losses of a range come from tallies, and a tally
never counts more acknowledgements than packets.
-/
import LinkAdaptation.Proofs.Checked
import LinkAdaptation.Proofs.LossMap.Estimate

namespace LinkAdaptation

variable {rates : RateSet}

-- ============================================================= tallies

/-- Counting one more outcome keeps a tally sound. -/
theorem Tally.Sound.add {t : Tally} (h : t.Sound) (status : Status) :
    Upholds (t.add status) Tally.Sound (· = .counterOverflow) := by
  have hle := h.acked_le
  have hlt := h.sent_lt
  apply (increment_upholds t.sent).bind
  intro sent hsent
  obtain ⟨rfl, hbound⟩ := hsent
  split
  · apply (increment_upholds t.acked).bind
    intro acked hacked
    obtain ⟨rfl, -⟩ := hacked
    exact ⟨Nat.succ_le_succ hle, hbound⟩
  · exact ⟨Nat.le_succ_of_le hle, hbound⟩

/-- A table in which nothing miscounts. -/
def SoundTable (table : Table rates Tally) : Prop := ∀ i, (table.get i).Sound

theorem tallyOutcomes_sound (outcomes : List Outcome) :
    Upholds (tallyOutcomes rates outcomes) SoundTable
      (· = .counterOverflow) := by
  apply Upholds.foldlM
  · intro i
    rw [Table.get_fill]
    exact ⟨Nat.le_refl 0, by decide⟩
  · intro table o htable
    split
    · next i _ =>
        apply ((htable i).add o.status).bind
        intro t ht j
        by_cases hj : j = i
        · rw [hj, Table.get_set_self]
          exact ht
        · rw [Table.get_set_of_ne _ _ hj]
          exact htable j
    · exact htable

theorem Window.tally?_sound (w : Window rates) (start stop : Instant) :
    Upholds (w.tally? start stop) (fun table? => ∀ t ∈ table?, SoundTable t)
      (· = .counterOverflow) := by
  unfold tally?
  split
  · apply (tallyOutcomes_sound _).map
    intro table htable t ht
    rw [Option.mem_some_iff] at ht
    exact ht ▸ htable
  · intro t ht
    cases ht

-- ================================================================ maps

namespace LossMap

variable {m m' : LossMap rates}

/-- Every entry is an estimate. -/
def Meaningful (m : LossMap rates) : Prop :=
  ∀ i, isEstimate (m.lossAt i) = true

theorem meaningful_empty : (empty rates).Meaningful := by
  intro i
  unfold lossAt empty
  rw [Table.get_fill]
  exact isEstimate_unknownLoss

theorem Meaningful.set (h : m.Meaningful) (i : rates.Index) {e : LossEntry}
    (he : isEstimate e.loss = true) :
    Meaningful ⟨Table.set m.entries i e⟩ := by
  intro j
  unfold lossAt
  by_cases hj : j = i
  · rw [hj, Table.get_set_self]
    exact he
  · rw [Table.get_set_of_ne _ _ hj]
    exact h j

theorem index_upholds (rate : Rate) :
    Upholds (index rates rate) (fun i => rates.index? rate = some i)
      (· = .unknownRate rate) := by
  unfold index
  split
  · next i h => exact h
  · exact rfl

/-- A single loss is blended in only when it is an estimate. -/
theorem Meaningful.update (h : m.Meaningful) (rate : Rate)
    (loss weight : Float) :
    Upholds (m.update rate loss weight) Meaningful fun _ => True := by
  apply ((index_upholds rate).weaken fun _ _ => trivial).bind
  intro i _
  split
  · exact trivial
  · next hl =>
      split
      · exact trivial
      · next hw =>
          rw [Bool.not_eq_true', Bool.not_eq_false] at hl
          exact h.set i (LossEntry.isEstimate_blend (h i) hl hw)

theorem Meaningful.setCounts (h : m.Meaningful) (rate : Rate)
    (sent acked : Nat) :
    Upholds (m.setCounts rate sent acked) Meaningful fun _ => True := by
  apply ((index_upholds rate).weaken fun _ _ => trivial).bind
  intro i _
  exact h.set i (h i)

/-- Requests to a loss map keep its entries estimates. -/
theorem Meaningful.handle (h : m.Meaningful) (request : Request) :
    (m.handle request).1.Meaningful := by
  unfold LossMap.handle
  cases request with
  | update rate loss weight =>
      dsimp only
      split
      · next after heq => exact (h.update rate loss weight).of_eq_ok heq
      · exact h
  | replace rate loss =>
      dsimp only
      split
      · next after heq => exact (h.update rate loss replacing).of_eq_ok heq
      · exact h
  | setCounts rate sent acked =>
      dsimp only
      split
      · next after heq => exact (h.setCounts rate sent acked).of_eq_ok heq
      · exact h

theorem all_iff {losses : Table rates Float} :
    losses.all isEstimate = true
      ↔ ∀ i, isEstimate (Table.get losses i) = true := by
  rw [Vector.all_eq_true]
  exact ⟨fun h i => h i.val i.isLt, fun h n hn => h ⟨n, hn⟩⟩

/-- Estimates for all candidates are blended in without a fault. -/
theorem Meaningful.blendAll (h : m.Meaningful) {losses : Table rates Float}
    {weight : Float} (hl : ∀ i, isEstimate (losses.get i) = true)
    (hw : ¬ 1.0 < weight) :
    ∃ m', m.blendAll losses weight = .ok m' ∧ m'.Meaningful := by
  refine ⟨_, if_pos (all_iff.2 hl), ?_⟩
  intro i
  unfold lossAt
  rw [Table.get_zipWith]
  exact LossEntry.isEstimate_blend (h i) (hl i) hw

theorem not_one_lt_replacing : ¬ 1.0 < replacing := by decide

theorem Meaningful.replaceAll (h : m.Meaningful)
    {losses : Table rates Float}
    (hl : ∀ i, isEstimate (losses.get i) = true) :
    ∃ m', m.replaceAll losses = .ok m' ∧ m'.Meaningful :=
  h.blendAll hl not_one_lt_replacing

/-- The losses that a sound table shows are estimates. -/
theorem isEstimate_map_loss {table : Table rates Tally}
    (h : SoundTable table) (i : rates.Index) :
    isEstimate (Table.get (table.map Tally.loss) i) = true := by
  rw [Table.get_map]
  exact (h i).isEstimate_loss

theorem isEstimate_fill_unknown (i : rates.Index) :
    isEstimate ((Table.fill rates unknownLoss).get i) = true := by
  rw [Table.get_fill]
  exact isEstimate_unknownLoss

/-- What a range showed is taken over without a fault. -/
theorem Meaningful.absorb (h : m.Meaningful)
    {table? : Option (Table rates Tally)} {weight : Float}
    (ht : ∀ t ∈ table?, SoundTable t) (hw : ¬ 1.0 < weight) :
    ∃ m', m.absorb table? weight = .ok m' ∧ m'.Meaningful := by
  cases table? with
  | none => exact h.blendAll isEstimate_fill_unknown hw
  | some table =>
      obtain ⟨b, hb, hmeaning⟩ :=
        h.blendAll (isEstimate_map_loss (ht table rfl)) hw
      unfold LossMap.absorb
      dsimp only
      rw [hb]
      refine ⟨_, rfl, ?_⟩
      intro i
      unfold lossAt
      rw [Table.get_zipWith]
      exact hmeaning i

theorem meaningful_giveUp (m : LossMap rates) : m.giveUp.Meaningful := by
  intro i
  unfold lossAt LossMap.giveUp
  rw [Table.get_map]
  exact isEstimate_of_inUnit (inUnit_of_value? value?_one zero_le_one le_rfl)

end LossMap

end LinkAdaptation
