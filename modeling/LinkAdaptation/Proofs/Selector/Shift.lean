/-
Baselines and the origin of time. A baseline looks at instants in two
places: an outcome is forgotten by its age, and selection by average airtime
ends its runs of losses some seconds after it last did. Both are times
between two instants. So a baseline that is moved in time, history and last
end of losses together, selects the same rates for requests that are moved
along. Selection by loss thresholds looks at no instant at all.
-/
import LinkAdaptation.Proofs.Window.Shift
import LinkAdaptation.Selector.Baseline

namespace LinkAdaptation

open LinkAdaptation.Random (Generator)

variable {rates : RateSet} {δ : Int}

-- ========================================================= by airtime

namespace SampleRate

/-- The selector with its last end of losses `δ` nanoseconds on. -/
def shift (s : SampleRate rates) (δ : Int) : SampleRate rates :=
  { s with lastLossReset := s.lastLossReset.shift δ }

theorem record_shift (s : SampleRate rates) (o : Outcome) :
    (s.shift δ).record (o.shift δ) = (·.shift δ) <$> s.record o := by
  unfold record Outcome.shift shift
  dsimp only
  split
  · next i _ =>
      split
      · have hcount : (s.table.get i).count
            { o with time := o.time.shift δ } = (s.table.get i).count o := rfl
        rw [hcount]
        cases (s.table.get i).count o with
        | error fault => rfl
        | ok entry =>
            dsimp only [bind, Except.bind]
            split
            · cases increment s.totalAcked <;> rfl
            · rfl
      · rfl
  · rfl

theorem forget_shift (s : SampleRate rates) (o : Outcome) :
    (s.shift δ).forget (o.shift δ) = (s.forget o).shift δ := by
  unfold forget Outcome.shift shift
  dsimp only
  split
  · split <;> rfl
  · rfl

theorem isLossResetDue_shift (s : SampleRate rates) (now : Instant) :
    (s.shift δ).isLossResetDue (now.shift δ) = s.isLossResetDue now :=
  congrArg (fun age => decide (lossResetInterval < age))
    (Instant.since_shift now s.lastLossReset)

theorem refresh_shift (s : SampleRate rates) (now : Instant) :
    (s.shift δ).refresh (now.shift δ) = (s.refresh now).shift δ := by
  have houtdated : (s.shift δ).outdated = s.outdated := rfl
  unfold refresh
  rw [isLossResetDue_shift, houtdated]
  split
  · split <;> rfl
  · rfl

theorem select_shift (s : SampleRate rates) (now : Instant) :
    (s.shift δ).select (now.shift δ)
      = (fun p => (p.1.shift δ, p.2)) <$> s.select now := by
  unfold select
  rw [refresh_shift]
  generalize s.refresh now = s
  have hdecisions : (s.shift δ).decisions = s.decisions := rfl
  dsimp only
  rw [hdecisions]
  cases increment s.decisions with
  | error fault => rfl
  | ok decisions =>
      have hacked : (s.shift δ).totalAcked = s.totalAcked := rfl
      dsimp only [bind, Except.bind]
      rw [hacked]
      split
      · rfl
      · split <;> rfl

end SampleRate

-- ============================================================ selectors

namespace Selector

/-- The selector `δ` nanoseconds on. -/
def shift (s : Selector rates) (δ : Int) : Selector rates :=
  match s with
  | .sampleRate state => .sampleRate (state.shift δ)
  | .rraa state => .rraa state

theorem start_shift (kind : BaselineKind) (order : BootstrapOrder)
    (generator : Generator) (now : Instant) :
    start kind rates order generator (now.shift δ)
      = (start kind rates order generator now).shift δ := by
  cases kind <;> rfl

theorem kind_shift (s : Selector rates) : (s.shift δ).kind = s.kind := by
  cases s <;> rfl

theorem record_shift (s : Selector rates) (o : Outcome) :
    (s.shift δ).record (o.shift δ) = (·.shift δ) <$> s.record o := by
  cases s with
  | sampleRate state =>
      show sampleRate <$> (state.shift δ).record (o.shift δ)
        = (·.shift δ) <$> sampleRate <$> state.record o
      rw [SampleRate.record_shift]
      cases state.record o <;> rfl
  | rraa state =>
      show rraa <$> state.record o = (·.shift δ) <$> rraa <$> state.record o
      cases state.record o <;> rfl

theorem forget_shift (s : Selector rates) (o : Outcome) :
    (s.shift δ).forget (o.shift δ) = (s.forget o).shift δ := by
  cases s with
  | sampleRate state => exact congrArg sampleRate (state.forget_shift o)
  | rraa state => rfl

theorem select_shift (s : Selector rates) (now : Instant) :
    (s.shift δ).select (now.shift δ)
      = (fun p => (p.1.shift δ, p.2)) <$> s.select now := by
  cases s with
  | sampleRate state =>
      unfold select shift
      dsimp only
      rw [SampleRate.select_shift]
      cases state.select now <;> rfl
  | rraa state => rfl

theorem text_shift (s : Selector rates) : (s.shift δ).text = s.text := by
  cases s <;> rfl

theorem currentRate_shift (s : Selector rates) :
    (s.shift δ).currentRate = s.currentRate := by
  cases s <;> rfl

end Selector

-- ============================================================ baselines

namespace Baseline

/-- The baseline with everything it remembers `δ` nanoseconds on. -/
def shift (b : Baseline rates) (δ : Int) : Baseline rates :=
  { b with
    selector := b.selector.shift δ
    history := b.history.map (·.shift δ) }

theorem start_shift (kind : BaselineKind) (order : BootstrapOrder)
    (generator : Generator) (now : Instant) :
    start kind rates order generator (now.shift δ)
      = (start kind rates order generator now).shift δ :=
  congrArg (fun selector => Baseline.mk selector [] defaultRetention)
    (Selector.start_shift kind order generator now)

theorem kind_shift (b : Baseline rates) : (b.shift δ).kind = b.kind :=
  b.selector.kind_shift

theorem isAged_shift (b : Baseline rates) (now : Instant) (o : Outcome) :
    (b.shift δ).isAged (now.shift δ) (o.shift δ) = b.isAged now o := by
  have hage : (now.shift δ).since? (o.shift δ).time = now.since? o.time :=
    Instant.since?_shift now o.time
  unfold isAged
  rw [hage]
  rfl

theorem expire_shift (b : Baseline rates) (now : Instant) :
    (b.shift δ).expire (now.shift δ) = (b.expire now).shift δ := by
  have haged : (b.shift δ).isAged (now.shift δ) ∘ (·.shift δ)
      = b.isAged now := funext (b.isAged_shift now)
  have hselector : ((b.history.map (·.shift δ)).takeWhile
        ((b.shift δ).isAged (now.shift δ))).foldl .forget (b.selector.shift δ)
      = ((b.history.takeWhile (b.isAged now)).foldl .forget
        b.selector).shift δ := by
    rw [List.takeWhile_map, haged, List.foldl_map]
    exact List.foldl_hom (fun s : Selector rates => s.shift δ)
      Selector.forget_shift
  have hhistory : (b.history.map (·.shift δ)).dropWhile
        ((b.shift δ).isAged (now.shift δ))
      = (b.history.dropWhile (b.isAged now)).map (·.shift δ) := by
    rw [List.dropWhile_map, haged]
  show Baseline.mk _ _ _ = Baseline.mk _ _ _
  rw [Baseline.mk.injEq]
  exact ⟨hselector, hhistory, rfl⟩

theorem insert_shift (b : Baseline rates) (o : Outcome) :
    (b.shift δ).insert (o.shift δ) = (·.shift δ) <$> b.insert o := by
  unfold insert
  show (if o.status.isFeedback then _ else _) = _
  split
  · show ((b.selector.shift δ).record (o.shift δ) >>= fun selector =>
        pure (({ b.shift δ with
          selector, history := (b.shift δ).history ++ [o.shift δ] }
          : Baseline rates).expire (o.time.shift δ))) = _
    rw [Selector.record_shift]
    cases b.selector.record o with
    | error fault => rfl
    | ok selector =>
        have hmore : ({ b with selector, history := b.history ++ [o] }
            : Baseline rates).shift δ
            = { b.shift δ with
                selector := selector.shift δ
                history := (b.shift δ).history ++ [o.shift δ] } := by
          simp [shift]
        show Except.ok (expire _ (o.time.shift δ)) = _
        rw [← hmore, expire_shift]
        rfl
  · rfl

theorem foldlM_insert_shift (b : Baseline rates) (outcomes : List Outcome) :
    (outcomes.map (·.shift δ)).foldlM Baseline.insert (b.shift δ)
      = (·.shift δ) <$> outcomes.foldlM Baseline.insert b := by
  induction outcomes generalizing b with
  | nil => rfl
  | cons o rest ih =>
      rw [List.map_cons, List.foldlM_cons, List.foldlM_cons, insert_shift]
      cases b.insert o with
      | error fault => rfl
      | ok after => exact ih after

theorem select_shift (b : Baseline rates) (now : Instant) :
    (b.shift δ).select (now.shift δ)
      = (fun p => (p.1.shift δ, p.2)) <$> b.select now := by
  unfold select
  show ((b.selector.shift δ).select (now.shift δ) >>= fun p =>
    pure ({ b.shift δ with selector := p.1 }, p.2)) = _
  rw [Selector.select_shift]
  cases b.selector.select now <;> rfl

theorem selectMany_shift (b : Baseline rates) (now : Instant) (n : Nat) :
    (b.shift δ).selectMany (now.shift δ) n
      = (fun p => (p.1.shift δ, p.2)) <$> b.selectMany now n := by
  induction n generalizing b with
  | zero => rfl
  | succ n ih =>
      unfold selectMany
      rw [select_shift]
      cases b.select now with
      | error fault => rfl
      | ok p =>
          dsimp only [Functor.map, Except.map, bind, Except.bind]
          rw [ih]
          cases p.1.selectMany now n <;> rfl

theorem text_shift (b : Baseline rates) : (b.shift δ).text = b.text :=
  b.selector.text_shift

theorem summary_shift (b : Baseline rates) :
    (b.shift δ).summary = b.summary := by
  unfold summary currentRate
  rw [kind_shift]
  unfold shift
  dsimp only
  rw [Selector.currentRate_shift, List.length_map]

end Baseline

end LinkAdaptation
