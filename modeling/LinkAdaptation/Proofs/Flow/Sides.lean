/-
The two sides of a flow. Each vantage point has a window and a loss map of
its own; the front has the speed beside them, which serves only to look up
the front window, and the back has the baseline, which it alone feeds. What
a vantage point reports reads and writes its own side and reads nothing
else but the configuration and the mode, which no report changes.

Said as equations: a report leaves a flow that differs from the one before
in its own side only, and on a flow with another side opposite it answers
the same and leaves that other side as it is.
-/
import LinkAdaptation.Proofs.Flow.Refresh

namespace LinkAdaptation.Flow

variable {rates : RateSet} {f f' f'' g : Flow rates}
  {vantage other : Vantage}

-- =============================================================== sides

/-- The flow with one side of another flow. -/
def withSide (f : Flow rates) (vantage : Vantage) (g : Flow rates) :
    Flow rates :=
  match vantage with
  | .front =>
      { f with front := g.front, frontLoss := g.frontLoss, speed := g.speed }
  | .back =>
      { f with
        back := g.back, backLoss := g.backLoss, baseline? := g.baseline? }

/-- The vantage point that a request reports from, or whose window it sets
up. -/
def Request.vantage? : Request → Option Vantage
  | .feed vantage _ => some vantage
  | .feedBatch vantage _ => some vantage
  | .refreshLoss vantage _ _ => some vantage
  | .window vantage _ => some vantage
  | _ => none

/-- Two flows that are the same but for one side. -/
def SameBut (vantage : Vantage) (f f' : Flow rates) : Prop :=
  ∃ g, f' = f.withSide vantage g

theorem withSide_self (f : Flow rates) (vantage : Vantage) :
    f.withSide vantage f = f := by
  cases vantage <;> rfl

theorem withSide_withSide (f g g' : Flow rates) (vantage : Vantage) :
    (f.withSide vantage g).withSide vantage g' = f.withSide vantage g' := by
  cases vantage <;> rfl

theorem SameBut.refl (vantage : Vantage) (f : Flow rates) :
    SameBut vantage f f :=
  ⟨f, (f.withSide_self vantage).symm⟩

theorem SameBut.symm (h : SameBut vantage f f') : SameBut vantage f' f := by
  obtain ⟨g, rfl⟩ := h
  exact ⟨f, by rw [withSide_withSide, withSide_self]⟩

theorem SameBut.trans (h : SameBut vantage f f')
    (h' : SameBut vantage f' f'') : SameBut vantage f f'' := by
  obtain ⟨g, rfl⟩ := h
  obtain ⟨g', rfl⟩ := h'
  exact ⟨g', f.withSide_withSide g g' vantage⟩

/-- What differs in one side only has that side of the other. -/
theorem SameBut.eq_withSide (h : SameBut vantage f f') :
    f' = f.withSide vantage f' := by
  obtain ⟨g, rfl⟩ := h
  cases vantage <;> rfl

theorem sameBut_setWindow (f : Flow rates) (vantage : Vantage)
    (w : Window rates) : SameBut vantage f (f.setWindow vantage w) := by
  refine ⟨f.setWindow vantage w, ?_⟩
  cases vantage <;> rfl

theorem sameBut_setLossMap (f : Flow rates) (vantage : Vantage)
    (m : LossMap rates) : SameBut vantage f (f.setLossMap vantage.view m) := by
  refine ⟨f.setLossMap vantage.view m, ?_⟩
  cases vantage <;> rfl

-- ================================================= writing its own side

theorem sameBut_teachFrom {outcomes : List Outcome}
    (h : f.teachFrom vantage outcomes = .ok f') : SameBut vantage f f' := by
  cases vantage with
  | front =>
      cases h
      exact .refl .front f
  | back =>
      obtain ⟨baseline?, rfl⟩ := teachFrom_eq_ok h
      exact ⟨{ f with baseline? }, rfl⟩

theorem sameBut_refreshLoss {start stop : Instant}
    (h : f.refreshLoss vantage start stop = .ok f') :
    SameBut vantage f f' := by
  obtain ⟨_, m, -, -, rfl⟩ := refreshLoss_eq_ok h
  exact f.sameBut_setLossMap vantage m

theorem sameBut_feed {o : Outcome} (h : f.feed vantage o = .ok f') :
    SameBut vantage f f' := by
  unfold feed at h
  split at h
  · cases h
  · exact (f.sameBut_setWindow vantage _).trans
      (sameBut_teachFrom (mapError_eq_ok.1 h))

theorem sameBut_feedBatch {outcomes : List Outcome}
    (h : f.feedBatch vantage outcomes = .ok f') : SameBut vantage f f' := by
  unfold feedBatch at h
  split at h
  · cases h
  · cases h
    exact .refl vantage f
  · obtain ⟨f₁, hteach, h⟩ := bind_eq_ok.1 (mapError_eq_ok.1 h)
    obtain ⟨_, -, h⟩ := bind_eq_ok.1 h
    exact ((f.sameBut_setWindow vantage _).trans
      (sameBut_teachFrom hteach)).trans (sameBut_refreshLoss h)

/-- A report changes the side of its vantage point only. -/
theorem sameBut_handle {request : Request} {reply : Reply}
    (hfrom : request.vantage? = some vantage)
    (h : f.handle request = .ok (f', reply)) : SameBut vantage f f' := by
  cases request with
  | feed _ o =>
      cases hfrom
      obtain ⟨-, hfeed⟩ | ⟨_, -, rfl⟩ := attemptChecked_eq_ok h
      · exact sameBut_feed hfeed
      · exact .refl vantage f'
  | feedBatch _ outcomes =>
      cases hfrom
      obtain ⟨-, hfeed⟩ | ⟨_, -, rfl⟩ := attemptChecked_eq_ok h
      · exact sameBut_feedBatch hfeed
      · exact .refl vantage f'
  | refreshLoss _ start stop =>
      cases hfrom
      obtain ⟨f₁, hrefresh, h⟩ := bind_eq_ok.1 h
      cases h
      exact sameBut_refreshLoss hrefresh
  | window _ request =>
      cases hfrom
      cases h
      exact f.sameBut_setWindow vantage _
  | _ => cases hfrom

-- ============================================== reading its own side

/-- An answer on a flow, with one side of another flow put in. -/
def besides (vantage : Vantage) (g : Flow rates) {α : Type}
    (answer : Flow rates × α) : Flow rates × α :=
  (answer.1.withSide vantage g, answer.2)

section Opposite

variable (hother : other ≠ vantage)

include hother

theorem window_withSide (f g : Flow rates) :
    (f.withSide other g).window vantage = f.window vantage := by
  cases other <;> cases vantage <;> first | rfl | exact absurd rfl hother

theorem lossMap_withSide (f g : Flow rates) :
    (f.withSide other g).lossMap vantage.view = f.lossMap vantage.view := by
  cases other <;> cases vantage <;> first | rfl | exact absurd rfl hother

theorem setWindow_withSide (f g : Flow rates) (w : Window rates) :
    (f.withSide other g).setWindow vantage w
      = (f.setWindow vantage w).withSide other g := by
  cases other <;> cases vantage <;> first | rfl | exact absurd rfl hother

theorem setLossMap_withSide (f g : Flow rates) (m : LossMap rates) :
    (f.withSide other g).setLossMap vantage.view m
      = (f.setLossMap vantage.view m).withSide other g := by
  cases other <;> cases vantage <;> first | rfl | exact absurd rfl hother

theorem teachFrom_withSide (f g : Flow rates) (outcomes : List Outcome) :
    (f.withSide other g).teachFrom vantage outcomes
      = (·.withSide other g) <$> f.teachFrom vantage outcomes := by
  cases vantage with
  | front => rfl
  | back =>
      cases other with
      | back => exact absurd rfl hother
      | front =>
          unfold teachFrom teach withSide
          dsimp only
          split
          · next b _ _ => cases outcomes.foldlM Baseline.insert b <;> rfl
          · rfl

theorem refreshLoss_withSide (f g : Flow rates) (start stop : Instant) :
    (f.withSide other g).refreshLoss vantage start stop
      = (·.withSide other g) <$> f.refreshLoss vantage start stop := by
  have hconfig : (f.withSide other g).config = f.config := by
    cases other <;> rfl
  unfold refreshLoss
  rw [window_withSide hother, lossMap_withSide hother, hconfig]
  cases (f.window vantage).tally? start stop with
  | error fault => rfl
  | ok table? =>
      dsimp only [bind, Except.bind]
      cases (f.lossMap vantage.view).absorb table? f.config.backLossWeight with
      | error fault => rfl
      | ok m => exact congrArg Except.ok (setLossMap_withSide hother f g m)

theorem feed_withSide (f g : Flow rates) (o : Outcome) :
    (f.withSide other g).feed vantage o
      = (·.withSide other g) <$> f.feed vantage o := by
  unfold feed
  rw [window_withSide hother]
  cases (f.window vantage).insert o with
  | error error => rfl
  | ok p =>
      dsimp only
      rw [setWindow_withSide hother, teachFrom_withSide hother]
      cases (f.setWindow vantage p.1).teachFrom vantage [o] <;> rfl

theorem feedBatch_withSide (f g : Flow rates) (outcomes : List Outcome) :
    (f.withSide other g).feedBatch vantage outcomes
      = (·.withSide other g) <$> f.feedBatch vantage outcomes := by
  unfold feedBatch
  split
  · rfl
  · rfl
  · next o rest _ =>
      dsimp only
      rw [window_withSide hother, setWindow_withSide hother,
        teachFrom_withSide hother]
      cases (f.setWindow vantage _).teachFrom vantage (o :: rest) with
      | error fault => rfl
      | ok taught =>
          dsimp only [Functor.map, Except.map, bind, Except.bind]
          cases burstRange _ _ with
          | error fault => rfl
          | ok range =>
              dsimp only
              rw [refreshLoss_withSide hother]
              cases taught.refreshLoss vantage range.1 range.2 <;> rfl

/-- A report answers the same whatever the opposite side is, and leaves that
side alone. -/
theorem handle_withSide {request : Request}
    (hfrom : request.vantage? = some vantage) (f g : Flow rates) :
    (f.withSide other g).handle request
      = besides other g <$> f.handle request := by
  have hattempt (x : Except Failure (Flow rates)) :
      (f.withSide other g).attemptChecked ((·.withSide other g) <$> x)
        = besides other g <$> f.attemptChecked x := by
    obtain (error | fault) | after := x <;> rfl
  cases request with
  | feed _ o =>
      cases hfrom
      unfold handle
      dsimp only
      rw [feed_withSide hother, hattempt]
  | feedBatch _ outcomes =>
      cases hfrom
      unfold handle
      dsimp only
      rw [feedBatch_withSide hother, hattempt]
  | refreshLoss _ start stop =>
      cases hfrom
      unfold handle
      dsimp only
      rw [refreshLoss_withSide hother]
      cases f.refreshLoss vantage start stop <;> rfl
  | window _ request =>
      cases hfrom
      unfold handle handleWindow
      dsimp only
      rw [window_withSide hother, setWindow_withSide hother]
      rfl
  | _ => cases hfrom

end Opposite

-- =========================================================== settings

/-- Whether a request sets what is on neither side. -/
def Request.isSetting : Request → Bool
  | .setUseCoding _ | .setMayDuplicate _ | .setDuplicateThreshold _
  | .setLossBound _ | .setRate _ => true
  | _ => false

/-- A setting may be refused, which neither side has a part in. -/
theorem attempt_withSide {result result' : Except Error (Flow rates)}
    (h : result' = (·.withSide vantage g) <$> result) :
    (f.withSide vantage g).attempt result'
      = besides vantage g <$> f.attempt result := by
  subst h
  cases result <;> rfl

/-- A setting answers the same whatever either side is, and leaves the sides
alone. -/
theorem handle_setting_withSide {request : Request}
    (hsetting : request.isSetting = true) (f g : Flow rates)
    (vantage : Vantage) :
    (f.withSide vantage g).handle request
      = besides vantage g <$> f.handle request := by
  cases request with
  | setUseCoding on => cases vantage <;> rfl
  | setMayDuplicate on => cases vantage <;> rfl
  | setDuplicateThreshold threshold =>
      apply attempt_withSide
      unfold setDuplicateThreshold
      split <;> cases vantage <;> rfl
  | setLossBound bound =>
      apply attempt_withSide
      unfold setLossBound
      split <;> cases vantage <;> rfl
  | setRate rate =>
      apply attempt_withSide
      unfold setRate
      split <;> cases vantage <;> rfl
  | _ => cases hsetting

-- =========================================================== deciding

theorem size_withSide (f g : Flow rates) (vantage : Vantage)
    (query : Query) : (f.withSide vantage g).size query = f.size query := by
  cases vantage <;> rfl

theorem duplicates_withSide (f g : Flow rates) (vantage : Vantage)
    (occasion : Occasion) :
    (f.withSide vantage g).duplicates occasion = f.duplicates occasion := by
  cases vantage <;> rfl

/-- Probes are found the same whatever either side is. -/
theorem probe_withSide (f g : Flow rates) (vantage : Vantage)
    (duplicate : Bool) :
    (f.withSide vantage g).probe duplicate
      = (·.withSide vantage g) <$> f.probe duplicate := by
  have hprobes (count bound : Nat) :
      (do
        let p ← Probing.probes rates f.mode.probing f.current.val count bound
          f.feasible f.generator
        return { f.withSide vantage g with probes := p.1, generator := p.2 }
        : Checked (Flow rates))
      = (·.withSide vantage g) <$> (do
        let p ← Probing.probes rates f.mode.probing f.current.val count bound
          f.feasible f.generator
        return { f with probes := p.1, generator := p.2 }
        : Checked (Flow rates)) := by
    cases Probing.probes rates f.mode.probing f.current.val count bound
      f.feasible f.generator <;> cases vantage <;> rfl
  cases vantage <;> cases duplicate <;> exact hprobes _ _

/-- Where a batch is laid out the same whatever a side is, it is assembled
the same. -/
theorem assemble_withSide {query : Query} {size : BatchSize}
    (hlaid : ∀ probes generator coded,
      (withSide { f with probes, generator } vantage g).layOut coded query.now
        = besides vantage g
          <$> layOut { f with probes, generator } coded query.now) :
    (f.withSide vantage g).assemble query size
      = besides vantage g <$> f.assemble query size := by
  unfold assemble
  rw [duplicates_withSide]
  dsimp only
  rw [probe_withSide]
  cases hprobe : f.probe (f.duplicates query.occasion) with
  | error fault => rfl
  | ok f₁ =>
      obtain ⟨⟨probes, generator⟩, -, hprobe⟩ := bind_eq_ok.1 hprobe
      cases hprobe
      dsimp only [Functor.map, Except.map, bind, Except.bind]
      rw [hlaid]
      cases layOut { f with probes, generator } _ query.now <;> rfl

/-- Where preparing and laying out are the same whatever a side is, so is
the decision. -/
theorem decide_withSide {query : Query}
    (hprepare : (f.withSide vantage g).prepare query
      = (·.withSide vantage g) <$> f.prepare query)
    (hlaid : ∀ f₁ : Flow rates, f.prepare query = .ok f₁ →
      ∀ probes generator coded,
        (withSide { f₁ with probes, generator } vantage g).layOut coded
            query.now
          = besides vantage g
            <$> layOut { f₁ with probes, generator } coded query.now) :
    (f.withSide vantage g).decide query
      = besides vantage g <$> f.decide query := by
  unfold decide
  rw [hprepare]
  cases hprepared : f.prepare query with
  | error fault => rfl
  | ok f₁ =>
      dsimp only [Functor.map, Except.map, bind, Except.bind]
      rw [size_withSide]
      split
      · rfl
      · rfl
      · next size _ =>
          rw [assemble_withSide (hlaid f₁ hprepared)]
          cases f₁.assemble query size <;> rfl

end LinkAdaptation.Flow
