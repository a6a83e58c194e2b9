/-
Where a window has data. It says so from the two ends of its span alone, and
a half-open range meets a closed span in one of two ways: an instant of the
range lies in the span, or the range stops at the very start of the span and
holds nothing of it. The window does not tell these apart. So a range that
stops where the oldest outcome was sent counts as data, though there can be
none, and a refresh over it does not leave the counts as they were: it
replaces them by those of no outcome.
-/
import LinkAdaptation.Proofs.Flow.Told

namespace LinkAdaptation

variable {rates : RateSet}

namespace Window

variable {w : Window rates} {start stop : Instant}

-- =============================================================== ranges

/-- An instant of a range lies in the stored span. -/
def Overlaps (w : Window rates) (start stop : Instant) : Prop :=
  ∃ oldest newest t, w.span? = some (oldest, newest)
    ∧ start ≤ t ∧ t < stop ∧ oldest ≤ t ∧ t ≤ newest

/-- The stored span begins at an instant. -/
def BeginsAt (w : Window rates) (stop : Instant) : Prop :=
  ∃ newest, w.span? = some (stop, newest)

/-- In the order of time, a span does not end before it begins. -/
theorem span_ordered (h : InOrder w.records) {oldest newest : Instant}
    (hspan : w.span? = some (oldest, newest)) : oldest ≤ newest := by
  have hstored : ∃ o, o ∈ w.records := by
    apply List.exists_mem_of_ne_nil
    intro hempty
    unfold span? at hspan
    rw [hempty] at hspan
    cases hspan
  obtain ⟨o, ho⟩ := hstored
  obtain ⟨hold, hnew⟩ := span_bounds h hspan ho
  exact Int.le_trans hold hnew

/-- A range is covered when it overlaps the span, and when it stops where the
span begins. -/
theorem covers_iff (h : InOrder w.records) (hrange : start < stop) :
    w.covers start stop = true
      ↔ w.Overlaps start stop ∨ w.BeginsAt stop := by
  have hrange' : start.nanos < stop.nanos := hrange
  rw [covers_eq_true_iff]
  constructor
  · intro hcovers
    obtain ⟨oldest, newest, hspan, hstop, hstart⟩ := hcovers
    have hspan' : oldest.nanos ≤ newest.nanos := span_ordered h hspan
    have hstop' : oldest.nanos ≤ stop.nanos := hstop
    have hstart' : start.nanos ≤ newest.nanos := hstart
    rcases Int.lt_or_eq_of_le hstop' with hlt | heq
    · -- the later of the two beginnings is an instant of both
      refine .inl ⟨oldest, newest, ⟨max start.nanos oldest.nanos⟩, hspan, ?_⟩
      show start.nanos ≤ max _ _ ∧ max _ _ < stop.nanos
        ∧ oldest.nanos ≤ max _ _ ∧ max _ _ ≤ newest.nanos
      omega
    · have hsame : oldest = stop := congrArg Instant.mk heq
      exact .inr ⟨newest, hsame ▸ hspan⟩
  · rintro (⟨oldest, newest, t, hspan, hstart, hstop, hold, hnew⟩
      | ⟨newest, hspan⟩)
    · exact ⟨oldest, newest, hspan,
        Int.le_of_lt (Int.lt_of_le_of_lt hold hstop),
        Int.le_trans hstart hnew⟩
    · exact ⟨stop, newest, hspan, Int.le_refl _,
        Int.le_trans (Int.le_of_lt hrange) (span_ordered h hspan)⟩

/-- Nothing stored is in a range that stops where the span begins. -/
theorem BeginsAt.within_eq_nil (h : w.BeginsAt stop)
    (hordered : InOrder w.records) (start : Instant) :
    w.within start stop = [] := by
  obtain ⟨newest, hspan⟩ := h
  unfold within
  rw [List.filter_eq_nil_iff]
  intro o ho hrange
  rw [decide_eq_true_eq] at hrange
  exact Int.not_lt.2 (span_bounds hordered hspan ho).1 hrange.2

/-- Nor does any instant of the range lie in the span. -/
theorem BeginsAt.not_overlaps (h : w.BeginsAt stop) :
    ¬ w.Overlaps start stop := by
  obtain ⟨newest, hspan⟩ := h
  rintro ⟨oldest, _, t, hspan', -, hstop, hold, -⟩
  obtain ⟨rfl, -⟩ := Prod.mk.inj (Option.some_inj.1 (hspan.symm.trans hspan'))
  exact Int.not_lt.2 hold hstop

-- ============================================================== answers

theorem tally?_eq_none_iff :
    w.tally? start stop = .ok none ↔ w.covers start stop = false := by
  unfold tally?
  split
  · next hcovers =>
      rw [hcovers]
      constructor
      · intro h
        obtain ⟨_, -, h⟩ := map_eq_ok.1 h
        cases h
      · exact nofun
  · next hcovers => simp [hcovers]

/-- An answer that is read off the table is missing where the table is. -/
theorem map_tally?_eq_none_iff {α : Type} (read : Table rates Tally → α) :
    (do return (← w.tally? start stop).map read : Checked (Option α))
      = .ok none ↔ w.tally? start stop = .ok none := by
  constructor
  · intro h
    obtain ⟨table?, htally, h⟩ := bind_eq_ok.1 h
    cases table? with
    | none => exact htally
    | some table => cases h
  · intro h
    exact bind_eq_ok.2 ⟨none, h, rfl⟩

/-- A window answers every question about a range with what a table
shows. -/
structure Answers (w : Window rates) (start stop : Instant)
    (table : Table rates Tally) : Prop where
  tally : w.tally? start stop = .ok (some table)
  losses : ∀ asked, w.losses? start stop asked
    = .ok (some (asked.map (lossAt table)))
  feasible : w.feasible? start stop = .ok (some (feasibleOf table))

theorem answers_of_tally {table : Table rates Tally}
    (h : w.tally? start stop = .ok (some table)) :
    w.Answers start stop table :=
  ⟨h, fun _ => bind_eq_ok.2 ⟨_, h, rfl⟩, bind_eq_ok.2 ⟨_, h, rfl⟩⟩

theorem answers_of_covers (hordered : InOrder w.records)
    (hroom : w.records.length < counterLimit)
    (hcovers : w.covers start stop = true) :
    ∃ table, w.Answers start stop table
      ∧ Tallied (w.within start stop) table := by
  obtain ⟨table?, htally, -⟩ :=
    (w.tally?_succeeds hroom start stop).exists_ok
  cases table? with
  | none =>
      rw [tally?_eq_none_iff.1 htally] at hcovers
      cases hcovers
  | some table =>
      exact ⟨table, answers_of_tally htally,
        (tally?_eq_ok hordered htally).1 table rfl⟩

/-- A range that stops where the span begins is answered from an empty
table. -/
theorem BeginsAt.answers (h : w.BeginsAt stop) (hordered : InOrder w.records)
    (hrange : start < stop) : w.Answers start stop (.fill rates {}) := by
  refine answers_of_tally ?_
  unfold tally?
  rw [if_pos ((covers_iff hordered hrange).2 (.inr h)),
    between_eq_within hordered, h.within_eq_nil hordered]
  rfl

end Window

-- =============================================================== counts

/-- How often a rate was used and acknowledged among some outcomes. -/
def tallyAt (outcomes : List Outcome) (rate : Rate) : Tally :=
  ⟨outcomes.countP (atRate rate), outcomes.countP (atRateWith rate .acked)⟩

theorem Tallied.get_eq {outcomes : List Outcome} {table : Table rates Tally}
    (h : Tallied outcomes table) (i : rates.Index) :
    table.get i = tallyAt outcomes (rates.get i) := by
  obtain ⟨hsent, hacked⟩ := h i
  unfold tallyAt
  rw [← hsent, ← hacked]

namespace LossMap

variable {m m' : LossMap rates} {weight : Float}

/-- The counts that stand beside the estimate of a candidate. -/
def countsAt (m : LossMap rates) (i : rates.Index) : Tally :=
  ⟨(m.entries.get i).sent, (m.entries.get i).acked⟩

/-- Without data, the counts stay. -/
theorem countsAt_of_absorb_none (h : m.absorb none weight = .ok m')
    (i : rates.Index) : m'.countsAt i = m.countsAt i := by
  unfold countsAt
  rw [get_absorb_none h]
  unfold LossEntry.blend
  split
  · rfl
  · split <;> rfl

/-- With data, the counts are those of the data. -/
theorem countsAt_of_absorb_some {table : Table rates Tally}
    (h : m.absorb (some table) weight = .ok m') (i : rates.Index) :
    m'.countsAt i = table.get i := by
  unfold countsAt
  rw [get_absorb_some h]

end LossMap

namespace Flow

variable {config : Config} {f₀ f f' : Flow rates} {vantage : Vantage}
  {start stop : Instant}

/-- A refresh replaces the counts by those of the range where the window has
data of it, and leaves them otherwise. -/
theorem countsAt_of_refreshLoss (hordered : InOrder (f.window vantage).records)
    (h : f.refreshLoss vantage start stop = .ok f') (i : rates.Index) :
    (f'.lossMap vantage.view).countsAt i
      = if (f.window vantage).covers start stop then
          tallyAt ((f.window vantage).within start stop) (rates.get i)
        else (f.lossMap vantage.view).countsAt i := by
  obtain ⟨table?, m, htally, habsorb, rfl⟩ := refreshLoss_eq_ok h
  rw [lossMap_setLossMap, if_pos rfl]
  cases table? with
  | none =>
      rw [Window.tally?_eq_none_iff.1 htally, if_neg Bool.false_ne_true]
      exact LossMap.countsAt_of_absorb_none habsorb i
  | some table =>
      have htallied := (Window.tally?_eq_ok hordered htally).1 table rfl
      have hcovers : (f.window vantage).covers start stop = true := by
        rw [← Bool.not_eq_false]
        intro huncovered
        cases htally.symm.trans (Window.tally?_eq_none_iff.2 huncovered)
      rw [if_pos hcovers, LossMap.countsAt_of_absorb_some habsorb]
      exact htallied.get_eq i

-- ========================================================= availability

/-- What a refresh over a range makes of the counts. They are kept where the
window has no data of it, replaced where the range overlaps the stored span,
and dropped where it stops at the beginning of the span. -/
structure Refreshed (f f' : Flow rates) (vantage : Vantage)
    (start stop : Instant) : Prop where
  kept : ¬ ((f.window vantage).Overlaps start stop
      ∨ (f.window vantage).BeginsAt stop) →
    ∀ i, (f'.lossMap vantage.view).countsAt i
      = (f.lossMap vantage.view).countsAt i
  replaced : (f.window vantage).Overlaps start stop →
    ∀ i, (f'.lossMap vantage.view).countsAt i
      = tallyAt ((f.window vantage).within start stop) (rates.get i)
  dropped : (f.window vantage).BeginsAt stop →
    ∀ i, (f'.lossMap vantage.view).countsAt i = {}

theorem refreshed_of_refreshLoss (hrange : start < stop)
    (hordered : InOrder (f.window vantage).records)
    (h : f.refreshLoss vantage start stop = .ok f') :
    Refreshed f f' vantage start stop := by
  have hcovers := Window.covers_iff hordered hrange
  have hcounts := countsAt_of_refreshLoss hordered h
  refine ⟨?_, ?_, ?_⟩
  · intro hnot i
    rw [hcounts, if_neg fun hcovered => hnot (hcovers.1 hcovered)]
  · intro hover i
    rw [hcounts, if_pos (hcovers.2 (.inl hover))]
  · intro hbegins i
    rw [hcounts, if_pos (hcovers.2 (.inr hbegins)),
      hbegins.within_eq_nil hordered]
    rfl

/-- In the order of time, a window has no data of a range exactly when no
instant of the range lies in the stored span and the span does not begin
where the range stops. A range that stops there is answered from an empty
table. Accordingly, a refresh leaves the counts of a flow where there is no
data, replaces them by those of the range where it overlaps the span, and
drops them where it stops at its beginning. -/
theorem data_iff_touching {w : Window rates} (hordered : InOrder w.records)
    (hrange : start < stop) :
    (w.tally? start stop = .ok none
        ↔ ¬ (w.Overlaps start stop ∨ w.BeginsAt stop))
      ∧ (∀ asked, w.losses? start stop asked = .ok none
        ↔ ¬ (w.Overlaps start stop ∨ w.BeginsAt stop))
      ∧ (w.feasible? start stop = .ok none
        ↔ ¬ (w.Overlaps start stop ∨ w.BeginsAt stop))
      ∧ (w.Overlaps start stop → w.records.length < counterLimit →
        ∃ table, w.Answers start stop table
          ∧ Tallied (w.within start stop) table)
      ∧ (w.BeginsAt stop → w.Answers start stop (.fill rates {}))
      ∧ ∀ (vantage : Vantage) {config : Config} {entropy : Random.Key}
        {f₀ f : Flow rates} {requests : List Request} {replies : List Reply},
        Flow.start rates config entropy = .ok f₀ →
        f₀.run requests = .ok (f, replies) → f.window vantage = w →
        w.records.length < counterLimit →
        ∃ f', f.refreshLoss vantage start stop = .ok f'
          ∧ Refreshed f f' vantage start stop := by
  have hcovers := Window.covers_iff hordered hrange
  have htally : w.tally? start stop = .ok none
      ↔ ¬ (w.Overlaps start stop ∨ w.BeginsAt stop) := by
    rw [Window.tally?_eq_none_iff, ← hcovers, Bool.not_eq_true]
  refine ⟨htally, fun asked => ?_, ?_, ?_, ?_, ?_⟩
  · exact (Window.map_tally?_eq_none_iff _).trans htally
  · exact (Window.map_tally?_eq_none_iff _).trans htally
  · intro hover hroom
    exact Window.answers_of_covers hordered hroom (hcovers.2 (.inl hover))
  · intro hbegins
    exact hbegins.answers hordered hrange
  · intro vantage config entropy f₀ f requests replies hstart hrun hwindow hroom
    subst hwindow
    have hc := accepted_of_start hstart
    have hsound := ((sound_start hstart).run hc requests).of_eq_ok hrun
    obtain ⟨f', hrefresh⟩ :=
      refreshLoss_succeeds hroom hsound hc start stop
    exact ⟨f', hrefresh, refreshed_of_refreshLoss hrange hordered hrefresh⟩

/-- A range around the only outcome is answered from it, and its counts are
those that a refresh leaves. -/
theorem data_around_outcome :
    let rates : RateSet := ⟨#[10], by decide, by decide⟩
    let requests : List Request :=
      [.feed .back ⟨⟨100⟩, 1, 10, 1000, .acked⟩]
    let start : Instant := ⟨50⟩
    let stop : Instant := ⟨150⟩
    ∃ (f₀ f f' : Flow rates) (replies : List Reply),
      Flow.start rates {} default = .ok f₀ ∧ f₀.run requests = .ok (f, replies)
        ∧ InOrder f.back.records ∧ start < stop
        ∧ f.back.records.length < counterLimit ∧ f.back.Overlaps start stop
        ∧ (∃ table, f.back.Answers start stop table)
        ∧ f.refreshLoss .back start stop = .ok f'
        ∧ (f.lossMap .back).countsAt rates.bottom = {}
        ∧ (f'.lossMap .back).countsAt rates.bottom = ⟨1, 1⟩ := by
  intro rates requests start stop
  obtain ⟨f₀, f, replies, _, hstart, hrun, -, hordered, hroom, hspan, hbefore,
      hwithin⟩ :=
    exists_step rates {} default requests (.ok ·)
      (fun f _ => InOrder f.back.records
        ∧ f.back.records.length < counterLimit
        ∧ f.back.span? = some (⟨100⟩, ⟨100⟩)
        ∧ (f.lossMap .back).countsAt rates.bottom = {}
        ∧ tallyAt (f.back.within start stop) 10 = ⟨1, 1⟩)
      (by decide +kernel)
  have hrange : start < stop := by decide
  have hover : f.back.Overlaps start stop :=
    ⟨_, _, ⟨100⟩, hspan, by decide, by decide, by decide, by decide⟩
  obtain ⟨-, -, -, hanswers, -, hrefreshes⟩ :=
    data_iff_touching hordered hrange
  obtain ⟨table, htable, -⟩ := hanswers hover hroom
  obtain ⟨f', hrefresh, hcounts⟩ := hrefreshes .back hstart hrun rfl hroom
  exact ⟨f₀, f, f', replies, hstart, hrun, hordered, hrange, hroom, hover,
    ⟨table, htable⟩, hrefresh, hbefore,
    (hcounts.replaced hover rates.bottom).trans hwithin⟩

/-- A range that stops at the only outcome has no instant in the span, and
yet it is answered, and a refresh over it drops the counts. -/
theorem data_before_oldest :
    let rates : RateSet := ⟨#[10], by decide, by decide⟩
    let requests : List Request :=
      [.feedBatch .back [⟨⟨100⟩, 1, 10, 1000, .acked⟩]]
    let start : Instant := ⟨0⟩
    let stop : Instant := ⟨100⟩
    ∃ (f₀ f f' : Flow rates) (replies : List Reply),
      Flow.start rates {} default = .ok f₀ ∧ f₀.run requests = .ok (f, replies)
        ∧ InOrder f.back.records ∧ start < stop
        ∧ ¬ f.back.Overlaps start stop
        ∧ f.back.Answers start stop (.fill rates {})
        ∧ f.refreshLoss .back start stop = .ok f'
        ∧ (f.lossMap .back).countsAt rates.bottom = ⟨1, 1⟩
        ∧ (f'.lossMap .back).countsAt rates.bottom = {} := by
  intro rates requests start stop
  obtain ⟨f₀, f, replies, f', hstart, hrun, hrefresh, hordered, hspan, hbefore,
      hafter⟩ :=
    exists_step rates {} default requests (·.refreshLoss .back start stop)
      (fun f f' => InOrder f.back.records
        ∧ f.back.span? = some (⟨100⟩, ⟨100⟩)
        ∧ (f.lossMap .back).countsAt rates.bottom = ⟨1, 1⟩
        ∧ (f'.lossMap .back).countsAt rates.bottom = {})
      (by decide +kernel)
  have hrange : start < stop := by decide
  have hbegins : f.back.BeginsAt stop := ⟨_, hspan⟩
  exact ⟨f₀, f, f', replies, hstart, hrun, hordered, hrange,
    hbegins.not_overlaps, hbegins.answers hordered hrange, hrefresh, hbefore,
    hafter⟩

end Flow

end LinkAdaptation
