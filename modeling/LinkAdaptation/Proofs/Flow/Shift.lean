/-
Flows and the origin of time. A flow has instants in its two windows and in
its baseline. It hands them on, and on its own account it adds a duration to
an instant in a few places: to find the range of a burst, the range of time
in which the front antenna was where the back antenna is, and the start of
the range that rules rates out. There a result may be missing, because an
instant has a range; it is noted which of these instants are there.

A flow that is moved in time does what it would have done, moved, with every
request in which the same instants are there.
-/
import LinkAdaptation.Flow.Report
import LinkAdaptation.Flow.Run
import LinkAdaptation.Proofs.Selector.Shift

namespace LinkAdaptation

variable {δ : Int}

/-- The query `δ` nanoseconds on. -/
def Query.shift (query : Query) (δ : Int) : Query :=
  { query with now := query.now.shift δ }

namespace Flow

variable {rates : RateSet} {f : Flow rates} {vantage : Vantage}

/-- The flow with everything it remembers `δ` nanoseconds on. -/
def shift (f : Flow rates) (δ : Int) : Flow rates :=
  { f with
    front := f.front.shift δ
    back := f.back.shift δ
    baseline? := f.baseline?.map (·.shift δ) }

/-- The request with every instant in it `δ` nanoseconds on. -/
def Request.shift (request : Request) (δ : Int) : Request :=
  match request with
  | .feed vantage o => .feed vantage (o.shift δ)
  | .feedBatch vantage outcomes =>
      .feedBatch vantage (outcomes.map (·.shift δ))
  | .refreshLoss vantage start stop =>
      .refreshLoss vantage (start.shift δ) (stop.shift δ)
  | .decide query => .decide (query.shift δ)
  | .setMode mode now entropy => .setMode mode (now.shift δ) entropy
  | .window vantage request => .window vantage (request.shift δ)
  | request => request

-- ============================================================== checks

/-- Whether an instant is there, and if so, whether those are that are
computed from it. -/
def checked {α : Type} (x : Option α) (next : α → List Bool) : List Bool :=
  x.isSome :: (x.map next).getD []

/-- The flow with a burst recorded, but not yet in the estimates. -/
def recorded (f : Flow rates) (vantage : Vantage) (outcomes : List Outcome) :
    Checked (Flow rates) :=
  (f.setWindow vantage (outcomes.foldl .push (f.window vantage))).teachFrom
    vantage outcomes

/-- Whether the instants are there that end the range of a burst, if it gets
as far as that. -/
def burstEnds (f : Flow rates) (vantage : Vantage)
    (outcomes : List Outcome) : List Bool :=
  match burstRejection? rates outcomes, outcomes with
  | none, o :: rest =>
      let first := (rest.map (·.time)).foldl min o.time
      let last := (rest.map (·.time)).foldl max o.time
      match f.recorded vantage outcomes with
      | .ok _ => [(first.sub? .tick).isSome, (last.add? .tick).isSome]
      | .error _ => []
  | _, _ => []

/-- Whether the instants are there that lead to a range around an instant
that lies back. -/
def aroundSteps (now : Instant) (lag half : Duration) : List Bool :=
  checked (now.sub? lag) fun aligned =>
    checked (aligned.sub? half) fun _ =>
      checked (aligned.add? half) fun _ => []

/-- Whether the instants are there that lead to the aligned range. -/
def alignedSteps (f : Flow rates) (now : Instant) : List Bool :=
  if f.speed ≤ 0.0 then
    []
  else
    match Duration.ofSeconds? (f.config.antennaDistance / f.speed) with
    | none => []
    | some lag => aroundSteps now lag f.config.frontWindow.half

/-- Whether the instant is there from which outcomes rule rates out, if the
decision gets as far as that. -/
def backStart? (f : Flow rates) (now : Instant) : Option Bool :=
  match f.scoutedLosses now >>= f.scoutLoss.replaceAll with
  | .ok _ => some (now.sub? f.config.backWindow).isSome
  | .error _ => none

/-- Which of the instants that a request computes from others are there. -/
structure Checks where
  burst : List Bool := []
  aligned : List Bool := []
  back? : Option Bool := none
  deriving DecidableEq

/-- The checks of a request. -/
def checks (f : Flow rates) : Request → Checks
  | .feedBatch vantage outcomes => { burst := f.burstEnds vantage outcomes }
  | .decide query =>
      if query.occasion.isTimeout = false ∧ f.mode.merging = .scouted then
        { aligned := f.alignedSteps query.now
          back? := f.backStart? query.now }
      else
        {}
  | _ => {}

/-- The checks of a run, request by request. -/
def checksOf (f : Flow rates) : List Request → List Checks
  | [] => []
  | request :: rest =>
      f.checks request
        :: match f.handle request with
          | .ok (f, _) => f.checksOf rest
          | .error _ => []

theorem isSome_of_checked {α : Type} {x y : Option α}
    {next next' : α → List Bool} (h : checked y next' = checked x next) :
    y.isSome = x.isSome :=
  (List.cons.inj h).1

theorem next_of_checked {α : Type} {a b : α} {next next' : α → List Bool}
    (h : checked (some b) next' = checked (some a) next) :
    next' b = next a :=
  (List.cons.inj h).2

-- =============================================================== parts

theorem window_shift (f : Flow rates) (vantage : Vantage) :
    (f.shift δ).window vantage = (f.window vantage).shift δ := by
  cases vantage <;> rfl

theorem setWindow_shift (f : Flow rates) (vantage : Vantage)
    (w : Window rates) :
    (f.shift δ).setWindow vantage (w.shift δ)
      = (f.setWindow vantage w).shift δ := by
  cases vantage <;> rfl

theorem lossMap_shift (f : Flow rates) (view : View) :
    (f.shift δ).lossMap view = f.lossMap view := by
  cases view <;> rfl

theorem setLossMap_shift (f : Flow rates) (view : View) (m : LossMap rates) :
    (f.shift δ).setLossMap view m = (f.setLossMap view m).shift δ := by
  cases view <;> rfl

-- ============================================================ feedback

theorem teach_shift (f : Flow rates) (outcomes : List Outcome) :
    (f.shift δ).teach (outcomes.map (·.shift δ))
      = (·.shift δ) <$> f.teach outcomes := by
  have hbaseline : (f.shift δ).baseline?
      = f.baseline?.map (·.shift δ) := rfl
  have hmode : (f.shift δ).mode = f.mode := rfl
  unfold teach
  rw [hbaseline, hmode]
  cases f.mode.baseline? with
  | none => rfl
  | some kind =>
      cases f.baseline? with
      | none => rfl
      | some b =>
          dsimp only [Option.map]
          rw [Baseline.foldlM_insert_shift]
          cases outcomes.foldlM Baseline.insert b <;> rfl

theorem teachFrom_shift (f : Flow rates) (vantage : Vantage)
    (outcomes : List Outcome) :
    (f.shift δ).teachFrom vantage (outcomes.map (·.shift δ))
      = (·.shift δ) <$> f.teachFrom vantage outcomes := by
  cases vantage with
  | front => rfl
  | back => exact f.teach_shift outcomes

theorem feed_shift (f : Flow rates) (vantage : Vantage) (o : Outcome) :
    (f.shift δ).feed vantage (o.shift δ)
      = (·.shift δ) <$> f.feed vantage o := by
  unfold feed
  rw [window_shift, Window.insert_shift]
  cases (f.window vantage).insert o with
  | error error => rfl
  | ok p =>
      have hteach : ((f.setWindow vantage p.1).shift δ).teachFrom vantage
            [o.shift δ]
          = (·.shift δ) <$> (f.setWindow vantage p.1).teachFrom vantage [o] :=
        teachFrom_shift _ vantage [o]
      dsimp only [Functor.map, Except.map]
      rw [setWindow_shift, hteach]
      cases (f.setWindow vantage p.1).teachFrom vantage [o] <;> rfl

theorem refreshLoss_shift (f : Flow rates) (vantage : Vantage)
    (start stop : Instant) :
    (f.shift δ).refreshLoss vantage (start.shift δ) (stop.shift δ)
      = (·.shift δ) <$> f.refreshLoss vantage start stop := by
  have hconfig : (f.shift δ).config = f.config := rfl
  unfold refreshLoss
  rw [window_shift, Window.tally?_shift, lossMap_shift, hconfig]
  cases (f.window vantage).tally? start stop with
  | error fault => rfl
  | ok table? =>
      dsimp only [bind, Except.bind]
      cases (f.lossMap vantage.view).absorb table?
          f.config.backLossWeight with
      | error fault => rfl
      | ok m => exact congrArg Except.ok (f.setLossMap_shift vantage.view m)

theorem burstRejection?_shift (rates : RateSet) (outcomes : List Outcome)
    (δ : Int) :
    burstRejection? rates (outcomes.map (·.shift δ))
      = burstRejection? rates outcomes :=
  List.findSome?_map

theorem burstRange_shift {first last : Instant}
    (hfirst : ((first.shift δ).sub? .tick).isSome
      = (first.sub? .tick).isSome)
    (hlast : ((last.shift δ).add? .tick).isSome
      = (last.add? .tick).isSome) :
    burstRange (first.shift δ) (last.shift δ)
      = (fun p => (p.1.shift δ, p.2.shift δ)) <$> burstRange first last := by
  unfold burstRange
  rw [Instant.sub?_shift hfirst, Instant.add?_shift hlast]
  cases last.add? .tick with
  | none => rfl
  | some stop => cases first.sub? .tick <;> rfl

theorem recorded_shift (f : Flow rates) (vantage : Vantage)
    (outcomes : List Outcome) (δ : Int) :
    (f.shift δ).recorded vantage (outcomes.map (·.shift δ))
      = (·.shift δ) <$> f.recorded vantage outcomes := by
  unfold recorded
  rw [window_shift, Window.foldl_push_shift, setWindow_shift,
    teachFrom_shift]

/-- The earliest and the latest of moved outcomes. -/
theorem pickTime_shift {pick : Instant → Instant → Instant}
    (hpick : ∀ t u, pick (t.shift δ) (u.shift δ) = (pick t u).shift δ)
    (o : Outcome) (rest : List Outcome) :
    ((rest.map (·.shift δ)).map (·.time)).foldl pick (o.shift δ).time
      = ((rest.map (·.time)).foldl pick o.time).shift δ := by
  have htimes : (rest.map (·.shift δ)).map (·.time)
      = (rest.map (·.time)).map (·.shift δ) := by
    rw [List.map_map, List.map_map]
    rfl
  rw [htimes]
  exact Instant.foldl_shift hpick o.time _

/-- An accepted burst is recorded, and its range refreshes the estimates. -/
theorem feedBatch_of_accepted {o : Outcome} {rest : List Outcome}
    (h : burstRejection? rates (o :: rest) = none) (f : Flow rates)
    (vantage : Vantage) :
    f.feedBatch vantage (o :: rest)
      = (f.recorded vantage (o :: rest) >>= fun taught =>
          burstRange ((rest.map (·.time)).foldl min o.time)
              ((rest.map (·.time)).foldl max o.time) >>= fun range =>
            taught.refreshLoss vantage range.1 range.2).mapError .broken := by
  unfold feedBatch
  rw [h]
  rfl

theorem feedBatch_of_rejected {outcomes : List Outcome} {error : Error}
    (h : burstRejection? rates outcomes = some error) (f : Flow rates)
    (vantage : Vantage) :
    f.feedBatch vantage outcomes = .error (.refused error) := by
  unfold feedBatch
  rw [h]

theorem burstEnds_of_recorded {o : Outcome} {rest : List Outcome}
    {taught : Flow rates} (h : burstRejection? rates (o :: rest) = none)
    (hrecorded : f.recorded vantage (o :: rest) = .ok taught) :
    f.burstEnds vantage (o :: rest)
      = [ (((rest.map (·.time)).foldl min o.time).sub? .tick).isSome
        , (((rest.map (·.time)).foldl max o.time).add? .tick).isSome ] := by
  unfold burstEnds
  rw [h, hrecorded]

theorem feedBatch_shift {outcomes : List Outcome}
    (h : (f.shift δ).burstEnds vantage (outcomes.map (·.shift δ))
      = f.burstEnds vantage outcomes) :
    (f.shift δ).feedBatch vantage (outcomes.map (·.shift δ))
      = (·.shift δ) <$> f.feedBatch vantage outcomes := by
  have hrejection := burstRejection?_shift rates outcomes δ
  have hrecorded := f.recorded_shift vantage outcomes δ
  cases hreject : burstRejection? rates outcomes with
  | some error =>
      rw [hreject] at hrejection
      rw [feedBatch_of_rejected hreject, feedBatch_of_rejected hrejection]
      rfl
  | none =>
      rw [hreject] at hrejection
      cases outcomes with
      | nil => rfl
      | cons o rest =>
          rw [List.map_cons] at hrejection hrecorded h ⊢
          rw [feedBatch_of_accepted hreject,
            feedBatch_of_accepted hrejection, hrecorded]
          cases hrec : f.recorded vantage (o :: rest) with
          | error fault => rfl
          | ok taught =>
              rw [hrec] at hrecorded
              rw [burstEnds_of_recorded hrejection hrecorded,
                burstEnds_of_recorded hreject hrec] at h
              rw [pickTime_shift Instant.min_shift,
                pickTime_shift Instant.max_shift] at h ⊢
              obtain ⟨hfirst, h⟩ := List.cons.inj h
              obtain ⟨hlast, -⟩ := List.cons.inj h
              dsimp only [Functor.map, Except.map, bind, Except.bind]
              rw [burstRange_shift hfirst hlast]
              cases burstRange _ _ with
              | error fault => rfl
              | ok range =>
                  dsimp only [Functor.map, Except.map, bind, Except.bind]
                  rw [refreshLoss_shift]
                  cases taught.refreshLoss vantage range.1 range.2 <;> rfl

-- =========================================================== decisions

/-- The range around an instant that lies back, from the instant on. -/
def rangeAround? (now : Instant) (lag half : Duration) :
    Option (Instant × Instant) := do
  let aligned ← now.sub? lag
  return (← aligned.sub? half, ← aligned.add? half)

theorem rangeAround?_shift {now : Instant} {lag half : Duration}
    (h : aroundSteps (now.shift δ) lag half = aroundSteps now lag half) :
    rangeAround? (now.shift δ) lag half
      = (rangeAround? now lag half).map
        fun p => (p.1.shift δ, p.2.shift δ) := by
  have haligned := Instant.sub?_shift (isSome_of_checked h)
  unfold aroundSteps at h
  unfold rangeAround?
  rw [haligned] at h ⊢
  cases hnow : now.sub? lag with
  | none => rfl
  | some aligned =>
      rw [hnow] at h
      have h := next_of_checked h
      have hstart := Instant.sub?_shift (isSome_of_checked h)
      dsimp only [Option.map, bind, Option.bind]
      rw [hstart] at h ⊢
      cases hsub : aligned.sub? half with
      | none => rfl
      | some start =>
          rw [hsub] at h
          have h := next_of_checked h
          have hstop := Instant.add?_shift (isSome_of_checked h)
          dsimp only [Option.map]
          rw [hstop]
          cases aligned.add? half <;> rfl

theorem alignedRange?_shift {now : Instant}
    (h : (f.shift δ).alignedSteps (now.shift δ) = f.alignedSteps now) :
    (f.shift δ).alignedRange? (now.shift δ)
      = (f.alignedRange? now).map fun p => (p.1.shift δ, p.2.shift δ) := by
  unfold alignedSteps shift at h
  unfold alignedRange? shift
  dsimp only at h ⊢
  split
  · rfl
  · next hspeed =>
      rw [if_neg hspeed, if_neg hspeed] at h
      cases hlag : Duration.ofSeconds? (f.config.antennaDistance / f.speed) with
      | none => rfl
      | some lag =>
          rw [hlag] at h
          exact rangeAround?_shift h

theorem scoutedLosses_shift {now : Instant}
    (h : (f.shift δ).alignedSteps (now.shift δ) = f.alignedSteps now) :
    (f.shift δ).scoutedLosses (now.shift δ) = f.scoutedLosses now := by
  have hfront : (f.shift δ).front = f.front.shift δ := rfl
  unfold scoutedLosses
  rw [alignedRange?_shift h, hfront]
  cases f.alignedRange? now with
  | none => rfl
  | some p =>
      dsimp only [Option.map]
      rw [Window.tally?_shift]

theorem feasibleAt_shift {now : Instant}
    (h : ((now.shift δ).sub? f.config.backWindow).isSome
      = (now.sub? f.config.backWindow).isSome) :
    (f.shift δ).feasibleAt (now.shift δ) = f.feasibleAt now := by
  have hback : (f.shift δ).back = f.back.shift δ := rfl
  have hconfig : (f.shift δ).config = f.config := rfl
  have hstart : ((now.sub? f.config.backWindow).map (·.shift δ)).getD
        (now.shift δ)
      = ((now.sub? f.config.backWindow).getD now).shift δ := by
    cases now.sub? f.config.backWindow <;> rfl
  unfold feasibleAt
  rw [hback, hconfig, Instant.sub?_shift h, hstart]
  dsimp only
  rw [Window.feasible?_shift]

theorem scout_shift {now : Instant}
    (haligned : (f.shift δ).alignedSteps (now.shift δ) = f.alignedSteps now)
    (hback : (f.shift δ).backStart? (now.shift δ) = f.backStart? now) :
    (f.shift δ).scout (now.shift δ) = (·.shift δ) <$> f.scout now := by
  have hscout : (f.shift δ).scoutLoss = f.scoutLoss := rfl
  have hconfig : (f.shift δ).config = f.config := rfl
  unfold backStart? at hback
  unfold scout
  rw [scoutedLosses_shift haligned, hscout] at hback ⊢
  cases hlosses : f.scoutedLosses now with
  | error fault => rfl
  | ok losses =>
      rw [hlosses] at hback
      dsimp only [bind, Except.bind] at hback ⊢
      cases hreplace : f.scoutLoss.replaceAll losses with
      | error fault => rfl
      | ok scoutLoss =>
          rw [hreplace, hconfig] at hback
          dsimp only
          rw [feasibleAt_shift (Option.some.inj hback)]
          cases f.feasibleAt now <;> rfl

theorem merge_shift {now : Instant}
    (h : f.mode.merging = .scouted →
      (f.shift δ).alignedSteps (now.shift δ) = f.alignedSteps now
        ∧ (f.shift δ).backStart? (now.shift δ) = f.backStart? now) :
    (f.shift δ).merge (now.shift δ) = (·.shift δ) <$> f.merge now := by
  have hmode : (f.shift δ).mode = f.mode := rfl
  have hstore (f : Flow rates) (how : Merging) :
      (do
        let combinedLoss ← (f.shift δ).combinedLoss.replaceAll
          (Vector.ofFn ((f.shift δ).mergedLoss how))
        return { f.shift δ with combinedLoss } : Checked (Flow rates))
      = (·.shift δ) <$> (do
        let combinedLoss ← f.combinedLoss.replaceAll
          (Vector.ofFn (f.mergedLoss how))
        return { f with combinedLoss } : Checked (Flow rates)) := by
    have hlosses : (f.shift δ).mergedLoss how = f.mergedLoss how := by
      cases how <;> rfl
    rw [hlosses]
    show (f.combinedLoss.replaceAll (Vector.ofFn (f.mergedLoss how)) >>= _)
      = _
    cases f.combinedLoss.replaceAll (Vector.ofFn (f.mergedLoss how)) <;> rfl
  unfold merge
  rw [hmode]
  dsimp only
  split
  · next hscouted =>
      obtain ⟨haligned, hback⟩ := h hscouted
      rw [scout_shift haligned hback]
      cases f.scout now with
      | error fault => rfl
      | ok f₁ => exact hstore f₁ f.mode.merging
  · exact hstore f f.mode.merging

theorem choose_shift (f : Flow rates) (now : Instant) :
    (f.shift δ).choose (now.shift δ) = (·.shift δ) <$> f.choose now := by
  have hmode : (f.shift δ).mode = f.mode := rfl
  have hbaseline : (f.shift δ).baseline?
      = f.baseline?.map (·.shift δ) := rfl
  unfold choose
  rw [hmode, hbaseline]
  split
  · cases f.baseline? with
    | none => rfl
    | some b =>
        dsimp only [Option.map]
        rw [Baseline.select_shift]
        cases b.select now <;> rfl
  · split <;> rfl

theorem prepare_shift {query : Query}
    (h : (f.shift δ).checks (.decide (query.shift δ))
      = f.checks (.decide query)) :
    (f.shift δ).prepare (query.shift δ)
      = (·.shift δ) <$> f.prepare query := by
  have hmerge (hfresh : ¬ query.occasion.isTimeout = true) :
      (f.shift δ).merge (query.now.shift δ)
        = (·.shift δ) <$> f.merge query.now := by
    apply merge_shift
    intro hscouted
    have hscouts : query.occasion.isTimeout = false
        ∧ f.mode.merging = .scouted := ⟨Bool.not_eq_true _ ▸ hfresh, hscouted⟩
    have hmoved : (query.shift δ).occasion.isTimeout = false
        ∧ (f.shift δ).mode.merging = .scouted := hscouts
    unfold checks at h
    dsimp only at h
    rw [if_pos hscouts, if_pos hmoved, Checks.mk.injEq] at h
    exact h.2
  unfold prepare
  show (if query.occasion.isTimeout then _ else _) = _
  split
  · rfl
  · next hfresh =>
      show (f.shift δ).merge (query.now.shift δ) >>= _ = _
      rw [hmerge hfresh]
      cases f.merge query.now with
      | error fault => rfl
      | ok f₁ => exact f₁.choose_shift query.now

theorem layOut_shift (f : Flow rates) (coded : Nat) (now : Instant) :
    (f.shift δ).layOut coded (now.shift δ)
      = (fun p => (p.1.shift δ, p.2)) <$> f.layOut coded now := by
  have hmode : (f.shift δ).mode = f.mode := rfl
  have hbaseline : (f.shift δ).baseline?
      = f.baseline?.map (·.shift δ) := rfl
  unfold layOut
  rw [hmode, hbaseline]
  split
  · cases f.baseline? with
    | none => rfl
    | some b =>
        dsimp only [Option.map]
        rw [Baseline.selectMany_shift]
        cases b.selectMany now (coded - 1) <;> rfl
  · split <;> rfl

theorem probe_shift (f : Flow rates) (duplicate : Bool) :
    (f.shift δ).probe duplicate = (·.shift δ) <$> f.probe duplicate := by
  have hprobes (count bound : Nat) :
      (do
        let p ← Probing.probes rates f.mode.probing f.current.val count bound
          f.feasible f.generator
        return { f.shift δ with probes := p.1, generator := p.2 }
        : Checked (Flow rates))
      = (·.shift δ) <$> (do
        let p ← Probing.probes rates f.mode.probing f.current.val count bound
          f.feasible f.generator
        return { f with probes := p.1, generator := p.2 }
        : Checked (Flow rates)) := by
    cases Probing.probes rates f.mode.probing f.current.val count bound
      f.feasible f.generator <;> rfl
  cases duplicate with
  | true => exact hprobes _ _
  | false => exact hprobes _ _

theorem assemble_shift (f : Flow rates) (query : Query) (size : BatchSize) :
    (f.shift δ).assemble (query.shift δ) size
      = (fun p => (p.1.shift δ, p.2)) <$> f.assemble query size := by
  have hduplicates : (f.shift δ).duplicates (query.shift δ).occasion
      = f.duplicates query.occasion := rfl
  have hnow : (query.shift δ).now = query.now.shift δ := rfl
  unfold assemble
  rw [hduplicates, hnow]
  dsimp only
  rw [probe_shift]
  cases f.probe (f.duplicates query.occasion) with
  | error fault => rfl
  | ok f₁ =>
      dsimp only [Functor.map, Except.map, bind, Except.bind]
      rw [layOut_shift]
      cases f₁.layOut _ query.now <;> rfl

theorem decide_shift {query : Query}
    (h : (f.shift δ).checks (.decide (query.shift δ))
      = f.checks (.decide query)) :
    (f.shift δ).decide (query.shift δ)
      = (fun p => (p.1.shift δ, p.2)) <$> f.decide query := by
  unfold decide
  rw [prepare_shift h]
  cases f.prepare query with
  | error fault => rfl
  | ok f₁ =>
      have hsize : (f₁.shift δ).size (query.shift δ) = f₁.size query := rfl
      dsimp only [Functor.map, Except.map, bind, Except.bind]
      rw [hsize]
      split
      · rfl
      · rfl
      · next size _ =>
          rw [assemble_shift]
          cases f₁.assemble query size <;> rfl

-- ============================================================ requests

theorem setMode_shift (f : Flow rates) (mode : Mode) (now : Instant)
    (entropy : Random.Key) :
    (f.shift δ).setMode mode (now.shift δ) entropy
      = (f.setMode mode now entropy).shift δ := by
  have hkind : (f.shift δ).baseline?.map (·.kind)
      = f.baseline?.map (·.kind) := by
    show (f.baseline?.map (·.shift δ)).map (·.kind) = _
    rw [Option.map_map]
    exact congrArg (fun kind => f.baseline?.map kind)
      (funext Baseline.kind_shift)
  unfold setMode
  rw [hkind]
  dsimp only
  split
  · rfl
  · next kind _ =>
      rw [Baseline.start_shift]
      split <;> rfl

theorem attempt_shift {result result' : Except Error (Flow rates)}
    (h : result' = (·.shift δ) <$> result) :
    (f.shift δ).attempt result'
      = (fun p => (p.1.shift δ, p.2)) <$> f.attempt result := by
  subst h
  cases result <;> rfl

theorem attemptChecked_shift {result result' : Except Failure (Flow rates)}
    (h : result' = (·.shift δ) <$> result) :
    (f.shift δ).attemptChecked result'
      = (fun p => (p.1.shift δ, p.2)) <$> f.attemptChecked result := by
  subst h
  obtain (error | fault) | after := result <;> rfl

/-- A moved flow answers a moved request as it would have answered, and
becomes what it would have become, moved, when the same instants are
there. -/
theorem handle_shift {request : Request}
    (h : (f.shift δ).checks (request.shift δ) = f.checks request) :
    (f.shift δ).handle (request.shift δ)
      = (fun p => (p.1.shift δ, p.2)) <$> f.handle request := by
  cases request with
  | feed vantage o => exact attemptChecked_shift (f.feed_shift vantage o)
  | feedBatch vantage outcomes =>
      have hends := (Checks.mk.inj h).1
      exact attemptChecked_shift (feedBatch_shift hends)
  | refreshLoss vantage start stop =>
      show ((f.shift δ).refreshLoss vantage (start.shift δ) (stop.shift δ)
        >>= fun after => pure (after, Reply.done)) = _
      rw [refreshLoss_shift]
      unfold handle
      dsimp only
      cases f.refreshLoss vantage start stop <;> rfl
  | decide query =>
      unfold handle Request.shift
      dsimp only
      rw [decide_shift h]
      obtain _ | ⟨_, _ | _⟩ := f.decide query <;> rfl
  | setMode mode now entropy =>
      exact congrArg (fun f => Except.ok (f, Reply.done))
        (f.setMode_shift mode now entropy)
  | window vantage request =>
      unfold handle handleWindow Request.shift
      dsimp only
      rw [window_shift, Window.handle_shift]
      dsimp only
      rw [setWindow_shift]
      rfl
  | lossMap view request =>
      unfold handle handleLossMap Request.shift
      dsimp only
      rw [lossMap_shift, setLossMap_shift]
      rfl
  | setDuplicateThreshold threshold =>
      apply attempt_shift
      unfold setDuplicateThreshold
      split <;> rfl
  | setLossBound bound =>
      apply attempt_shift
      unfold setLossBound
      split <;> rfl
  | setRate rate =>
      apply attempt_shift
      unfold setRate
      split <;> rfl
  | giveUp => rfl
  | setUseCoding on => rfl
  | setMayDuplicate on => rfl
  | setSpeed speed => rfl

end Flow

end LinkAdaptation
