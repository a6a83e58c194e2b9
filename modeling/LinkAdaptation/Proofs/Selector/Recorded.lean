/-
How far the counters of a selector have gone. None of them is above the
number of outcomes that were ever recorded: forgetting one takes away, and
selecting adds to none of them. So while fewer outcomes were recorded than a
counter can count, recording one more does not fail.
-/
import LinkAdaptation.Proofs.Selector.SampleRate

namespace LinkAdaptation

open LinkAdaptation.Random (Generator)

variable {rates : RateSet} {n n' : Nat} {o : Outcome}

-- =========================================== robust rate adaptation

namespace Rraa

/-- No count of an entry is above a number. -/
structure Entry.Within (n : Nat) (e : Entry) : Prop where
  sent : e.sent ≤ n
  acked : e.acked ≤ n

theorem Entry.Within.mono {e : Entry} (h : e.Within n) (hle : n ≤ n') :
    e.Within n' :=
  ⟨h.sent.trans hle, h.acked.trans hle⟩

/-- With room for one more, an outcome is counted. -/
theorem Entry.Within.count {e : Entry} (h : e.Within n)
    (hroom : n + 1 < counterLimit) (o : Outcome) :
    Upholds (e.count o) (Within (n + 1)) fun _ => False := by
  obtain ⟨hsent, hacked⟩ := h
  apply (increment_succeeds hsent hroom).bind
  rintro _ rfl
  have hsent' := Nat.succ_le_succ hsent
  dsimp only
  split
  · apply (increment_succeeds hacked hroom).bind
    rintro _ rfl
    exact ⟨hsent', Nat.succ_le_succ hacked⟩
  · exact ⟨hsent', Nat.le_succ_of_le hacked⟩

theorem Entry.Within.uncount {e : Entry} (h : e.Within n) (o : Outcome) :
    (e.uncount o).Within n := by
  obtain ⟨hsent, hacked⟩ := h
  have hsent' := (Nat.sub_le e.sent 1).trans hsent
  unfold Entry.uncount
  dsimp only
  split
  · exact ⟨hsent', (Nat.sub_le _ 1).trans hacked⟩
  · exact ⟨hsent', hacked⟩

variable {s : Rraa rates}

/-- A selector that recorded at most `n` outcomes. -/
def Bounded (n : Nat) (s : Rraa rates) : Prop := ∀ i, (s.table.get i).Within n

theorem bounded_start (rates : RateSet) (window : Rate → Nat) (n : Nat) :
    (start rates window).Bounded n := by
  intro i
  unfold start
  dsimp only
  rw [Table.get_ofFn]
  exact ⟨Nat.zero_le n, Nat.zero_le n⟩

theorem Bounded.record (h : s.Bounded n) (hroom : n + 1 < counterLimit)
    (o : Outcome) :
    Upholds (s.record o) (Bounded (n + 1)) fun _ => False := by
  have hsame : s.Bounded (n + 1) := fun i => (h i).mono (Nat.le_succ n)
  unfold Rraa.record
  split
  · next i _ =>
      split
      · apply ((h i).count hroom o).bind
        intro e he
        exact Table.forall_get_set (fun j _ => hsame j) he
      · exact hsame
  · exact hsame

theorem Bounded.forget (h : s.Bounded n) (o : Outcome) :
    (s.forget o).Bounded n := by
  unfold Rraa.forget
  split
  · next i _ =>
      split
      · exact Table.forall_get_set (fun j _ => h j) ((h i).uncount o)
      · exact h
  · exact h

theorem Bounded.select (h : s.Bounded n) : s.select.1.Bounded n := by
  have hrefreshed : s.refresh.Bounded n := by
    unfold refresh
    split
    · intro i
      rw [Table.get_map]
      exact ⟨(h i).sent, (h i).acked⟩
    · exact h
  unfold Rraa.select
  dsimp only
  split
  · exact hrefreshed
  · exact hrefreshed

end Rraa

-- =========================================================== selectors

namespace Selector

variable {s s' : Selector rates}

/-- A selector that recorded at most `n` outcomes. -/
def Recorded (n : Nat) : Selector rates → Prop
  | .sampleRate state => ∃ m, state.Bounded n m
  | .rraa state => state.Bounded n

theorem recorded_start (kind : BaselineKind) (rates : RateSet)
    (order : BootstrapOrder) (generator : Generator) (now : Instant) (n : Nat) :
    (start kind rates order generator now).Recorded n := by
  cases kind with
  | sampleRate => exact ⟨0, SampleRate.bounded_of_empty rfl rfl rfl⟩
  | rraa => exact Rraa.bounded_start rates Rraa.defaultWindow n

theorem Recorded.mono (h : s.Recorded n) (hle : n ≤ n') : s.Recorded n' := by
  cases s with
  | sampleRate state =>
      obtain ⟨m, hbounded⟩ := h
      exact ⟨m, hbounded.mono hle⟩
  | rraa state => exact fun i => (h i).mono hle

theorem Recorded.record (h : s.Recorded n) (hroom : n + 1 < counterLimit)
    (o : Outcome) :
    Upholds (s.record o) (Recorded (n + 1)) fun _ => False := by
  cases s with
  | sampleRate state =>
      obtain ⟨m, hbounded⟩ := h
      exact (hbounded.record hroom o).map fun _ h' => ⟨m, h'⟩
  | rraa state => exact (Rraa.Bounded.record h hroom o).map fun _ h' => h'

theorem Recorded.forget (h : s.Recorded n) (o : Outcome) :
    (s.forget o).Recorded n := by
  cases s with
  | sampleRate state =>
      obtain ⟨m, hbounded⟩ := h
      exact ⟨m, hbounded.forget o⟩
  | rraa state => exact Rraa.Bounded.forget h o

theorem Recorded.select (h : s.Recorded n) {now : Instant} {rate : Rate}
    (hselect : s.select now = .ok (s', rate)) : s'.Recorded n := by
  cases s with
  | sampleRate state =>
      obtain ⟨m, hbounded⟩ := h
      obtain ⟨p, hdecided, hselected⟩ := bind_eq_ok.1 hselect
      cases hselected
      exact ⟨m + 1, hbounded.of_select hdecided⟩
  | rraa state =>
      cases hselect
      exact Rraa.Bounded.select h

end Selector

-- =========================================================== baselines

namespace Baseline

open Selector (Recorded)

variable {b b' : Baseline rates}

/-- With room for one more, an outcome is recorded, whatever is forgotten
on the way. -/
theorem insert_recorded (h : b.selector.Recorded n)
    (hroom : n + 1 < counterLimit) (o : Outcome) :
    Upholds (b.insert o) (fun b' => b'.selector.Recorded (n + 1))
      fun _ => False := by
  unfold insert
  split
  · apply (h.record hroom o).bind
    intro selector hrecorded
    exact expire_keeps (P := fun s _ => s.Recorded (n + 1))
      (b := ⟨selector, b.history ++ [o], b.retention⟩)
      (fun _ o _ hs => hs.forget o) hrecorded o.time
  · exact h.mono (Nat.le_succ n)

/-- With room for all of them, outcomes are recorded. -/
theorem inserts_recorded (h : b.selector.Recorded n) {outcomes : List Outcome}
    (hroom : n + outcomes.length < counterLimit) :
    Upholds (outcomes.foldlM insert b)
      (fun b' => b'.selector.Recorded (n + outcomes.length))
      fun _ => False :=
  Upholds.foldlM_counting (R := fun n (b : Baseline rates) =>
    b.selector.Recorded n) h hroom fun _ _ o h hroom => insert_recorded h hroom o

/-- Rates that are drawn count no outcome. -/
theorem Draws.recorded {now : Instant} {drawn : List Rate}
    (hdraws : b.Draws now drawn b') (h : b.selector.Recorded n) :
    b'.selector.Recorded n := by
  induction drawn generalizing b with
  | nil =>
      cases hdraws
      exact h
  | cons rate rest ih =>
      obtain ⟨b₁, answer, later, hfirst, hrest, hanswers⟩ :=
        run_cons_eq_ok.1 hdraws
      obtain ⟨⟨b₂, drawn⟩, hselect, hfirst⟩ := bind_eq_ok.1 hfirst
      cases hfirst
      obtain ⟨p, hselected, hselect⟩ := bind_eq_ok.1 hselect
      cases hselect
      cases hanswers
      exact ih hrest (h.select hselected)

end Baseline

end LinkAdaptation
