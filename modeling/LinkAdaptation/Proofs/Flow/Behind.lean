/-
What the modes without probes go by. Merging in them reads the back
estimates alone, and neither the candidate nor the batch is looked up in
anything else that the front writes, so a decision in such a mode is the
same whatever front side the flow has.

A list of requests therefore has a part that such decisions go by: it leaves
out what the front reports, and reads every speed as zero. A run of a list
and the run of this part make the same decisions and end in flows that
differ in the front side only, by induction on the list. Two lists with this
part in common meet there.
-/
import LinkAdaptation.Proofs.Flow.Sides

namespace LinkAdaptation.Flow

variable {rates : RateSet} {f f' f₁ c : Flow rates}
  {requests requests' : List Request} {replies replies' : List Reply}

-- ============================================================ requests

/-- Whether a request asks for a decision. -/
def Request.isDecision : Request → Bool
  | .decide _ => true
  | _ => false

/-- A request as it bears on decisions that go by the back alone: a report
from the front does not, and a speed does whatever it is. -/
def Request.behind? : Request → Option Request
  | .feed .front _ | .feedBatch .front _ | .refreshLoss .front _ _ => none
  | .setSpeed _ => some (.setSpeed 0.0)
  | request => some request

/-- The decisions among the answers, in their order. -/
def decisions (requests : List Request) (replies : List Reply) :
    List Reply :=
  answers Request.isDecision requests replies

/-- Whether a run makes all its decisions in one of some modes. -/
def decidesIn (modes : List Mode) (f : Flow rates) : List Request → Bool
  | [] => true
  | request :: rest =>
      (!request.isDecision || modes.contains f.mode)
        && match f.handle request with
          | .ok (f, _) => f.decidesIn modes rest
          | .error _ => true

theorem decidesIn_cons {modes : List Mode} {request : Request}
    {rest : List Request} {reply : Reply}
    (h : f.decidesIn modes (request :: rest) = true)
    (hhandle : f.handle request = .ok (f₁, reply)) :
    (request.isDecision = true → f.mode ∈ modes)
      ∧ f₁.decidesIn modes rest = true := by
  unfold decidesIn at h
  rw [hhandle, Bool.and_eq_true] at h
  refine ⟨?_, h.2⟩
  intro hdecision
  have hmode := h.1
  rw [hdecision] at hmode
  simpa using hmode

-- =========================================================== decisions

theorem merge_withFront (h : f.mode.merging = .backOnly) (g : Flow rates)
    (now : Instant) :
    (f.withSide .front g).merge now
      = (·.withSide .front g) <$> f.merge now := by
  have hlosses : (f.withSide .front g).mergedLoss .backOnly
      = f.mergedLoss .backOnly := rfl
  have hmode : (f.withSide .front g).mode.merging = .backOnly := h
  unfold merge
  rw [h, hmode, if_neg nofun, if_neg nofun]
  show (f.combinedLoss.replaceAll (Vector.ofFn
      ((f.withSide .front g).mergedLoss .backOnly)) >>= fun combinedLoss =>
        pure { f.withSide .front g with combinedLoss })
    = (·.withSide .front g) <$> (f.combinedLoss.replaceAll
      (Vector.ofFn (f.mergedLoss .backOnly)) >>= fun combinedLoss =>
        pure { f with combinedLoss })
  rw [hlosses]
  cases f.combinedLoss.replaceAll (Vector.ofFn (f.mergedLoss .backOnly))
    <;> rfl

theorem choose_withFront (f g : Flow rates) (now : Instant) :
    (f.withSide .front g).choose now
      = (·.withSide .front g) <$> f.choose now := by
  unfold choose withSide
  dsimp only
  split
  · split
    · next b _ => cases b.select now <;> rfl
    · rfl
  · split <;> rfl

theorem prepare_withFront (h : f.mode.merging = .backOnly) (g : Flow rates)
    (query : Query) :
    (f.withSide .front g).prepare query
      = (·.withSide .front g) <$> f.prepare query := by
  unfold prepare
  split
  · rfl
  · rw [merge_withFront h]
    cases f.merge query.now with
    | error fault => rfl
    | ok f₁ => exact f₁.choose_withFront g query.now

theorem layOut_withFront (f g : Flow rates) (coded : Nat) (now : Instant) :
    (f.withSide .front g).layOut coded now
      = besides .front g <$> f.layOut coded now := by
  unfold layOut withSide
  dsimp only
  split
  · split
    · next b _ => cases b.selectMany now (coded - 1) <;> rfl
    · rfl
  · split <;> rfl

/-- A decision that goes by the back alone is the same whatever the front
side is, and leaves that side alone. -/
theorem decide_withFront (h : f.mode.merging = .backOnly) (g : Flow rates)
    (query : Query) :
    (f.withSide .front g).decide query
      = besides .front g <$> f.decide query :=
  decide_withSide (prepare_withFront h g query)
    fun _ _ _ _ coded => layOut_withFront _ g coded query.now

-- =============================================================== steps

theorem setMode_withFront (f g : Flow rates) (mode : Mode) (now : Instant)
    (entropy : Random.Key) :
    (f.withSide .front g).setMode mode now entropy
      = (f.setMode mode now entropy).withSide .front g := by
  unfold setMode withSide
  dsimp only
  split
  · rfl
  · split <;> rfl

theorem handle_decide_withFront (h : f.mode.merging = .backOnly)
    (g : Flow rates) (query : Query) :
    (f.withSide .front g).handle (.decide query)
      = besides .front g <$> f.handle (.decide query) := by
  unfold handle
  dsimp only
  rw [decide_withFront h]
  obtain _ | ⟨_, _ | _⟩ := f.decide query <;> rfl

theorem isDecision_behind {request asked : Request}
    (hasked : request.behind? = some asked) :
    asked.isDecision = request.isDecision := by
  unfold Request.behind? at hasked
  split at hasked <;> cases hasked <;> rfl

/-- What does not bear on such decisions is a report from the front. -/
theorem reports_of_unseen {request : Request}
    (hunseen : request.behind? = none) :
    request.vantage? = some .front ∧ request.isDecision = false := by
  unfold Request.behind? at hunseen
  split at hunseen <;> first | exact ⟨rfl, rfl⟩ | cases hunseen

/-- Flows that differ in the front side only still do after a request that
bears on decisions from behind, as either sees it; and if it asked for a
decision, it is the same one. -/
theorem handle_behind {request asked : Request} {reply : Reply}
    (hsame : SameBut .front f c) (hasked : request.behind? = some asked)
    (hplain : request.isDecision = true → f.mode ∈ plainModes)
    (h : f.handle request = .ok (f₁, reply)) :
    ∃ c₁ answer, c.handle asked = .ok (c₁, answer) ∧ SameBut .front f₁ c₁
      ∧ (request.isDecision = true → answer = reply) := by
  obtain ⟨g, rfl⟩ := hsame
  have hside : Vantage.front ≠ .back := nofun
  have hcommutes (g₁ : Flow rates)
      (heq : (f.withSide .front g).handle asked
        = besides .front g₁ <$> f.handle request) :
      ∃ c₁ answer, (f.withSide .front g).handle asked = .ok (c₁, answer)
        ∧ SameBut .front f₁ c₁
        ∧ (request.isDecision = true → answer = reply) := by
    rw [h] at heq
    exact ⟨_, _, heq, ⟨g₁, rfl⟩, fun _ => rfl⟩
  cases request with
  | feed vantage o =>
      cases vantage with
      | front => cases hasked
      | back =>
          cases hasked
          exact hcommutes g (handle_withSide hside rfl f g)
  | feedBatch vantage outcomes =>
      cases vantage with
      | front => cases hasked
      | back =>
          cases hasked
          exact hcommutes g (handle_withSide hside rfl f g)
  | refreshLoss vantage start stop =>
      cases vantage with
      | front => cases hasked
      | back =>
          cases hasked
          exact hcommutes g (handle_withSide hside rfl f g)
  | window vantage request =>
      cases hasked
      cases vantage with
      | front =>
          -- both change their own front window, with answers of their own
          cases h
          exact ⟨_, _, rfl, ⟨(f.withSide .front g).setWindow .front _, rfl⟩,
            nofun⟩
      | back => exact hcommutes g (handle_withSide hside rfl f g)
  | lossMap view request =>
      cases hasked
      cases view with
      | front =>
          cases h
          let edited := ((f.withSide .front g).lossMap .front).handle request
          exact ⟨_, _, rfl,
            ⟨(f.withSide .front g).setLossMap .front edited.1, rfl⟩, nofun⟩
      | back => exact hcommutes g rfl
      | scout => exact hcommutes g rfl
      | combined => exact hcommutes g rfl
  | decide query =>
      cases hasked
      exact hcommutes g (handle_decide_withFront
        (merging_of_plain (hplain rfl)) g query)
  | giveUp =>
      cases hasked
      exact hcommutes g.giveUp rfl
  | setMode mode now entropy =>
      cases hasked
      exact hcommutes g (congrArg (fun f => Except.ok (f, Reply.done))
        (f.setMode_withFront g mode now entropy))
  | setSpeed speed =>
      cases hasked
      exact hcommutes { g with speed := 0.0 } rfl
  | setUseCoding _ =>
      cases hasked
      exact hcommutes g (handle_setting_withSide rfl f g .front)
  | setMayDuplicate _ =>
      cases hasked
      exact hcommutes g (handle_setting_withSide rfl f g .front)
  | setDuplicateThreshold _ =>
      cases hasked
      exact hcommutes g (handle_setting_withSide rfl f g .front)
  | setLossBound _ =>
      cases hasked
      exact hcommutes g (handle_setting_withSide rfl f g .front)
  | setRate _ =>
      cases hasked
      exact hcommutes g (handle_setting_withSide rfl f g .front)

-- ================================================================ runs

/-- A run that decides in modes without probes makes the decisions of its
part from behind, and ends in the same flow but for the front side. -/
theorem run_behind (hsame : SameBut .front f c)
    (hplain : f.decidesIn plainModes requests = true)
    (hrun : f.run requests = .ok (f', replies)) :
    ∃ c' answers,
      c.run (requests.filterMap Request.behind?) = .ok (c', answers)
        ∧ SameBut .front f' c'
        ∧ decisions (requests.filterMap Request.behind?) answers
          = decisions requests replies := by
  induction requests generalizing f c replies with
  | nil =>
      cases hrun
      exact ⟨c, [], rfl, hsame, rfl⟩
  | cons request rest ih =>
      obtain ⟨f₁, reply, later, hhandle, hrest, rfl⟩ := run_cons_eq_ok.1 hrun
      obtain ⟨hmode, hplain⟩ := decidesIn_cons hplain hhandle
      cases hasked : request.behind? with
      | none =>
          obtain ⟨hfrom, hdecision⟩ := reports_of_unseen hasked
          have hsame₁ := (sameBut_handle hfrom hhandle).symm.trans hsame
          unfold decisions
          rw [List.filterMap_cons_none hasked, answers_cons, hdecision]
          exact ih hsame₁ hplain hrest
      | some asked =>
          obtain ⟨c₁, answer, hhandle', hsame₁, hanswer⟩ :=
            handle_behind hsame hasked hmode hhandle
          obtain ⟨c', answers, hrest', hsame', hdecisions⟩ :=
            ih hsame₁ hplain hrest
          rw [List.filterMap_cons_some hasked]
          refine ⟨c', answer :: answers, run_cons_eq_ok.2
            ⟨c₁, answer, answers, hhandle', hrest', rfl⟩, hsame', ?_⟩
          unfold decisions at hdecisions ⊢
          rw [answers_cons, answers_cons, isDecision_behind hasked,
            hdecisions]
          split
          · next hdecision => rw [hanswer hdecision]
          · rfl

/-- Decisions that go by the back alone do not depend on the front. Two runs
from the same flow that decide in modes without probes only, and differ only
in what the front reports and in the speeds that are set, make the same
decisions, and agree in the current rate, the back and the merged
estimates, and the baseline. As both may be the beginnings of longer runs,
they agree after every two corresponding steps. The next decision is the
same too, if it is made in such a mode. -/
theorem decisions_ignore_front {g g' : Flow rates}
    (hrun : f.run requests = .ok (g, replies))
    (hrun' : f.run requests' = .ok (g', replies'))
    (hplain : f.decidesIn plainModes requests = true)
    (hplain' : f.decidesIn plainModes requests' = true)
    (hbehind : requests.filterMap Request.behind?
      = requests'.filterMap Request.behind?) :
    decisions requests' replies' = decisions requests replies
      ∧ g'.rate = g.rate ∧ g'.backLoss = g.backLoss
      ∧ g'.combinedLoss = g.combinedLoss ∧ g'.baseline? = g.baseline?
      ∧ g'.mode = g.mode
      ∧ ∀ query, g.mode ∈ plainModes →
        Prod.snd <$> g'.decide query = Prod.snd <$> g.decide query := by
  obtain ⟨c, answers, hbare, hsame, hdecisions⟩ :=
    run_behind (.refl .front f) hplain hrun
  obtain ⟨c', answers', hbare', hsame', hdecisions'⟩ :=
    run_behind (.refl .front f) hplain' hrun'
  rw [hbehind, hbare'] at hbare
  cases hbare
  rw [hbehind] at hdecisions
  obtain ⟨h, rfl⟩ := hsame.trans hsame'.symm
  refine ⟨hdecisions'.symm.trans hdecisions, rfl, rfl, rfl, rfl, rfl, ?_⟩
  intro query hmode
  rw [decide_withFront (merging_of_plain hmode)]
  cases g.decide query <;> rfl

/-- A client that stands still and one that moves, with a front antenna that
hears everything and one that loses everything. -/
theorem decisions_ignore_front_moving :
    let rates : RateSet := ⟨#[10, 20, 55], by decide, by decide⟩
    let sent (n : Int) (rate : Rate) (status : Status) : Outcome :=
      ⟨⟨n * 1000000⟩, 0, rate, 1000, status⟩
    let query (n : Int) (occasion : Occasion) : Query :=
      ⟨⟨n * 1000000⟩, occasion, 10000, 1000, 0⟩
    let requests : List Request :=
      [ .setMode .sampleRate ⟨0⟩ default, .setSpeed 0.0
      , .feedBatch .back [sent 1 10 .acked, sent 2 20 .acked]
      , .decide (query 3 .data)
      , .feed .front (sent 4 20 .acked), .setMode .rraa ⟨5000000⟩ default
      , .decide (query 6 (.retransmission 3)) ]
    let requests' : List Request :=
      [ .setMode .sampleRate ⟨0⟩ default, .setSpeed 20.0
      , .feedBatch .front [sent 1 20 .naked, sent 1 55 .naked]
      , .feedBatch .back [sent 1 10 .acked, sent 2 20 .acked]
      , .decide (query 3 .data)
      , .setMode .rraa ⟨5000000⟩ default, .refreshLoss .front ⟨0⟩ ⟨6000000⟩
      , .decide (query 6 (.retransmission 3)) ]
    ∃ (f g g' : Flow rates) (replies replies' : List Reply),
      start rates { seed := some 1 } default = .ok f
        ∧ f.run requests = .ok (g, replies)
        ∧ f.run requests' = .ok (g', replies')
        ∧ g'.frontLoss ≠ g.frontLoss
        ∧ f.decidesIn plainModes requests = true
        ∧ f.decidesIn plainModes requests' = true
        ∧ requests.filterMap Request.behind?
          = requests'.filterMap Request.behind?
        ∧ (decisions requests replies).length = 2
        ∧ decisions requests' replies' = decisions requests replies
        ∧ g'.rate = g.rate ∧ g'.backLoss = g.backLoss
        ∧ g'.combinedLoss = g.combinedLoss
        ∧ g'.baseline? = g.baseline? := by
  intro rates sent query requests requests'
  obtain ⟨f, _, _, ⟨⟨g, replies⟩, ⟨g', replies'⟩⟩, hstart, hnone, hruns,
      hfront, hplain, hplain', hlength⟩ :=
    exists_step rates { seed := some 1 } default []
      (fun f => do return (← f.run requests, ← f.run requests'))
      (fun f p => p.2.1.frontLoss ≠ p.1.1.frontLoss
        ∧ f.decidesIn plainModes requests = true
        ∧ f.decidesIn plainModes requests' = true
        ∧ (decisions requests p.1.2).length = 2)
      (by decide +kernel)
  cases hnone
  obtain ⟨_, hrun, hruns⟩ := bind_eq_ok.1 hruns
  obtain ⟨_, hrun', hruns⟩ := bind_eq_ok.1 hruns
  cases hruns
  have hbehind : requests.filterMap Request.behind?
      = requests'.filterMap Request.behind? := rfl
  obtain ⟨hdecisions, hrate, hback, hcombined, hbaseline, -, -⟩ :=
    decisions_ignore_front hrun hrun' hplain hplain' hbehind
  exact ⟨f, g, g', replies, replies', hstart, hrun, hrun', hfront, hplain,
    hplain', hbehind, hlength, hdecisions, hrate, hback, hcombined,
    hbaseline⟩

end LinkAdaptation.Flow
