/-
Runs of a flow. Every request keeps a flow sound, and so does every run of
requests from a fresh flow; whatever was asked before, a decision is well
formed, and an estimate never leaves its range. The entropy that a flow is
given, at its start and with requests, is looked at only where there is no
seed.
-/
import LinkAdaptation.Flow.Run
import LinkAdaptation.Proofs.Flow.Decision

namespace LinkAdaptation.Flow

variable {rates : RateSet} {config : Config} {entropy : Random.Key}
  {f₀ f f' : Flow rates}

-- =========================================================== requests

/-- A change is made, or refused without effect. -/
theorem attempt_eq_ok {result : Except Error (Flow rates)} {reply : Reply}
    (h : f.attempt result = .ok (f', reply)) :
    (reply = .done ∧ result = .ok f')
      ∨ ∃ error, reply = .refused error ∧ f' = f := by
  unfold attempt at h
  split at h <;> cases h
  · exact .inl ⟨rfl, rfl⟩
  · exact .inr ⟨_, rfl, rfl⟩

theorem attemptChecked_eq_ok {result : Except Failure (Flow rates)}
    {reply : Reply} (h : f.attemptChecked result = .ok (f', reply)) :
    (reply = .done ∧ result = .ok f')
      ∨ ∃ error, reply = .refused error ∧ f' = f := by
  unfold attemptChecked at h
  split at h <;> cases h
  · exact .inl ⟨rfl, rfl⟩
  · exact .inr ⟨_, rfl, rfl⟩

theorem attempt_sound (h : Sound config f)
    {result : Except Error (Flow rates)}
    (hresult : Upholds result (Sound config) fun _ => True) :
    Upholds (f.attempt result) (fun p => Sound config p.1) Fault.NotLoss := by
  cases result with
  | ok after => exact hresult
  | error error => exact h

theorem attemptChecked_sound (h : Sound config f)
    {result : Except Failure (Flow rates)}
    (hresult : Upholds result (Sound config) Failure.NotLoss) :
    Upholds (f.attemptChecked result) (fun p => Sound config p.1)
      Fault.NotLoss := by
  cases result with
  | ok after => exact hresult
  | error failure =>
      cases failure with
      | refused error => exact h
      | broken fault => exact hresult fault rfl

/-- Every request keeps a flow sound, and no estimate leaves its range. -/
theorem Sound.handle (h : Sound config f) (hc : config.Accepted)
    (request : Request) :
    Upholds (f.handle request) (fun p => Sound config p.1) Fault.NotLoss := by
  cases request with
  | feed vantage o => exact attemptChecked_sound h (h.feed vantage o)
  | feedBatch vantage outcomes =>
      exact attemptChecked_sound h (h.feedBatch hc vantage outcomes)
  | refreshLoss vantage start stop =>
      apply ((h.refreshLoss hc vantage start stop).weaken
        Fault.notLoss_of_counter).bind
      intro f' h'
      exact h'
  | giveUp => exact h.giveUp
  | decide query =>
      apply (decide_upholds h hc query).bind
      intro p hp
      obtain ⟨f', result⟩ := p
      obtain ⟨h', -⟩ := hp
      cases result with
      | ok decision => exact h'
      | error error => exact h'
  | setMode mode now entropy => exact h.setMode mode now entropy
  | setUseCoding on => exact ⟨h.config_eq, h.meaningful⟩
  | setMayDuplicate on => exact ⟨h.config_eq, h.meaningful⟩
  | setSpeed speed => exact ⟨h.config_eq, h.meaningful⟩
  | setDuplicateThreshold threshold =>
      exact attempt_sound h (h.setDuplicateThreshold threshold)
  | setLossBound bound => exact attempt_sound h (h.setLossBound bound)
  | setRate rate => exact attempt_sound h (h.setRate rate)
  | window vantage request => exact h.setWindow vantage _
  | lossMap view request =>
      exact h.setLossMap view ((h.meaningful view).handle request)

-- =============================================================== runs

/-- A run is a request and the run of the others. -/
theorem run_cons (f : Flow rates) (request : Request) (rest : List Request) :
    f.run (request :: rest) = f.handle request >>= fun p =>
      (fun q => (q.1, p.2 :: q.2)) <$> p.1.run rest := by
  rw [run]
  cases f.handle request with
  | error fault => rfl
  | ok p =>
      show (p.1.run rest >>= fun q => pure (q.1, p.2 :: q.2))
        = (fun q => (q.1, p.2 :: q.2)) <$> p.1.run rest
      cases p.1.run rest <;> rfl

theorem run_cons_eq_ok {request : Request} {rest : List Request}
    {replies : List Reply} :
    f.run (request :: rest) = .ok (f', replies)
      ↔ ∃ f₁ reply later, f.handle request = .ok (f₁, reply)
        ∧ f₁.run rest = .ok (f', later) ∧ replies = reply :: later := by
  rw [run_cons, bind_eq_ok]
  constructor
  · intro h
    obtain ⟨⟨f₁, reply⟩, hhandle, h⟩ := h
    obtain ⟨⟨f₂, later⟩, hrest, h⟩ := map_eq_ok.1 h
    cases h
    exact ⟨f₁, reply, later, hhandle, hrest, rfl⟩
  · intro h
    obtain ⟨f₁, reply, later, hhandle, hrest, rfl⟩ := h
    exact ⟨_, hhandle, map_eq_ok.2 ⟨_, hrest, rfl⟩⟩

/-- A run goes on where another one ended. -/
theorem run_append {first second : List Request} {f₁ : Flow rates}
    {replies later : List Reply} (hfirst : f.run first = .ok (f₁, replies))
    (hsecond : f₁.run second = .ok (f', later)) :
    f.run (first ++ second) = .ok (f', replies ++ later) := by
  induction first generalizing f replies with
  | nil =>
      cases hfirst
      exact hsecond
  | cons request rest ih =>
      obtain ⟨f₂, reply, between, hhandle, hrest, rfl⟩ :=
        run_cons_eq_ok.1 hfirst
      exact run_cons_eq_ok.2
        ⟨f₂, reply, between ++ later, hhandle, ih hrest, rfl⟩

/-- And a run of two parts is a run of the first and one that goes on. -/
theorem run_of_append {first second : List Request} {replies : List Reply}
    (h : f.run (first ++ second) = .ok (f', replies)) :
    ∃ f₁ earlier later, f.run first = .ok (f₁, earlier)
      ∧ f₁.run second = .ok (f', later) := by
  induction first generalizing f replies with
  | nil => exact ⟨f, [], replies, rfl, h⟩
  | cons request rest ih =>
      obtain ⟨f₂, reply, between, hhandle, hrest, -⟩ := run_cons_eq_ok.1 h
      obtain ⟨f₁, earlier, later, hfirst, hsecond⟩ := ih hrest
      exact ⟨f₁, reply :: earlier, later, run_cons_eq_ok.2
        ⟨f₂, reply, earlier, hhandle, hfirst, rfl⟩, hsecond⟩

/-- The answers to the requests of one sort, in their order. -/
def answers (sort : Request → Bool) (requests : List Request)
    (replies : List Reply) : List Reply :=
  ((requests.zip replies).filter (sort ·.1)).map (·.2)

theorem answers_cons (sort : Request → Bool) (request : Request)
    (rest : List Request) (reply : Reply) (later : List Reply) :
    answers sort (request :: rest) (reply :: later)
      = if sort request then reply :: answers sort rest later
        else answers sort rest later := by
  unfold answers
  rw [List.zip_cons_cons, List.filter_cons]
  split <;> rfl

/-- Every run keeps a flow sound. -/
theorem Sound.run (h : Sound config f) (hc : config.Accepted)
    (requests : List Request) :
    Upholds (f.run requests) (fun p => Sound config p.1) Fault.NotLoss := by
  induction requests generalizing f with
  | nil => exact h
  | cons request rest ih =>
      apply (h.handle hc request).bind
      intro p hp
      apply (ih hp).bind
      intro q hq
      exact hq

-- ============================================================= entropy

/-- A request with other entropy, if it brings any. -/
def Request.withEntropy (entropy : Random.Key) : Request → Request
  | .setMode mode now _ => .setMode mode now entropy
  | request => request

theorem setMode_of_seeded (h : f.config.seed.isSome = true) (mode : Mode)
    (now : Instant) (entropy entropy' : Random.Key) :
    f.setMode mode now entropy = f.setMode mode now entropy' := by
  unfold setMode
  dsimp only
  rw [Config.generator_of_seeded h entropy entropy']

theorem handle_of_seeded (h : f.config.seed.isSome = true)
    (entropy : Random.Key) (request : Request) :
    f.handle (request.withEntropy entropy) = f.handle request := by
  cases request with
  | setMode mode now entropy' =>
      exact congrArg (fun f => Except.ok (f, Reply.done))
        (setMode_of_seeded h mode now entropy entropy')
  | _ => rfl

theorem run_of_seeded (hseed : config.seed.isSome = true)
    (h : Sound config f) (hc : config.Accepted) (entropy : Random.Key)
    (requests : List Request) :
    f.run (requests.map (·.withEntropy entropy)) = f.run requests := by
  induction requests generalizing f with
  | nil => rfl
  | cons request rest ih =>
      have hseeded : f.config.seed.isSome = true := by
        rw [h.config_eq]
        exact hseed
      rw [List.map_cons, run_cons, run_cons, handle_of_seeded hseeded]
      refine bind_congr_ok fun p hhandle => ?_
      rw [ih ((h.handle hc request).of_eq_ok hhandle)]

/-- A seeded session is reproducible. Whatever entropy is drawn, when the
flow is started and when it builds a baseline, the flow starts alike, and
requests that agree but for their entropy are answered alike and leave the
same flow. -/
theorem seeded_sessions_agree (hseed : config.seed.isSome = true)
    (entropy entropy' : Random.Key) {requests requests' : List Request}
    (hsame : requests.map (·.withEntropy entropy)
      = requests'.map (·.withEntropy entropy)) :
    start rates config entropy = start rates config entropy'
      ∧ ∀ f₀, start rates config entropy = .ok f₀ →
        f₀.run requests = f₀.run requests' := by
  constructor
  · unfold start
    rw [Config.generator_of_seeded hseed entropy entropy']
  · intro f₀ hstart
    have hc := accepted_of_start hstart
    have hsound := sound_start hstart
    rw [← run_of_seeded hseed hsound hc entropy requests, hsame,
      run_of_seeded hseed hsound hc entropy requests']

-- ============================================================ sessions

/-- A session that can be computed exists: a flow that is started, run, and
taken one step further, with a property that can be tested. -/
theorem exists_step {α : Type} (rates : RateSet) (config : Config)
    (entropy : Random.Key) (requests : List Request)
    (step : Flow rates → Checked α)
    (P : Flow rates → α → Prop) [∀ f a, Decidable (P f a)]
    (h : ((start rates config entropy).toOption.bind fun f₀ =>
      (f₀.run requests).toOption.bind fun p =>
        (step p.1).toOption.map fun a => Decidable.decide (P p.1 a))
      = some true) :
    ∃ f₀ f replies a, start rates config entropy = .ok f₀
      ∧ f₀.run requests = .ok (f, replies) ∧ step f = .ok a ∧ P f a := by
  obtain ⟨f₀, hstart, h⟩ := Option.bind_eq_some_iff.1 h
  obtain ⟨⟨f, replies⟩, hrun, h⟩ := Option.bind_eq_some_iff.1 h
  obtain ⟨a, hstep, hP⟩ := Option.map_eq_some_iff.1 h
  rw [toOption_eq_some_iff] at hstart hrun hstep
  exact ⟨f₀, f, replies, a, hstart, hrun, hstep, of_decide_eq_true hP⟩

-- ============================================================== results

/-- Whatever a flow was asked before, a decision it makes is well formed. -/
theorem decisions_well_formed {requests : List Request}
    {replies : List Reply} {query : Query} {d : Decision}
    (hstart : start rates config entropy = .ok f₀)
    (hrun : f₀.run requests = .ok (f, replies))
    (hdecide : f.decide query = .ok (f', .ok d)) :
    f'.config = config ∧ f'.mode = f.mode
      ∧ ∃ size, f'.size query = .ok size ∧ f'.WellFormed size d := by
  have hc := accepted_of_start hstart
  have hsound := ((sound_start hstart).run hc requests).of_eq_ok hrun
  obtain ⟨hsound', hmode, hformed⟩ :=
    (decide_upholds hsound hc query).of_eq_ok hdecide
  exact ⟨hsound'.config_eq, hmode, hformed d rfl⟩

/-- A flow that both antennas reported losses to, about to send a probe. -/
theorem decisions_well_formed_probing :
    let rates : RateSet := ⟨#[10, 20, 55], by decide, by decide⟩
    let sent (n : Int) (rate : Rate) (status : Status) : Outcome :=
      ⟨⟨n⟩, 0, rate, 1000, status⟩
    let requests : List Request :=
      [ .setMode .boundedSequential ⟨0⟩ default
      , .feedBatch .back [sent 1000000 10 .naked, sent 2000000 20 .acked]
      , .feedBatch .front [sent 1000000 20 .acked, sent 1000000 20 .naked]
      , .setSpeed 10.0 ]
    let query : Query := ⟨⟨120000000⟩, .data, 10000, 1000, 0⟩
    ∃ (f₀ f f' : Flow rates) (replies : List Reply) (d : Decision),
      start rates {} default = .ok f₀ ∧ f₀.run requests = .ok (f, replies)
        ∧ f.decide query = .ok (f', .ok d)
        ∧ f'.config = {} ∧ f'.mode = f.mode
        ∧ ∃ size, f'.size query = .ok size ∧ f'.WellFormed size d := by
  intro rates sent requests query
  have hdecided : (do
      let f₀ ← (start rates {} default).toOption
      let p ← (f₀.run requests).toOption
      let q ← (p.1.decide query).toOption
      q.2.toOption).isSome = true := by decide +kernel
  obtain ⟨d, h⟩ := Option.isSome_iff_exists.1 hdecided
  obtain ⟨f₀, hstart, h⟩ := Option.bind_eq_some_iff.1 h
  obtain ⟨⟨f, replies⟩, hrun, h⟩ := Option.bind_eq_some_iff.1 h
  obtain ⟨⟨f', result⟩, hdecide, h⟩ := Option.bind_eq_some_iff.1 h
  rw [toOption_eq_some_iff] at hstart hrun hdecide h
  obtain rfl : result = .ok d := h
  exact ⟨f₀, f, f', replies, d, hstart, hrun, hdecide,
    decisions_well_formed hstart hrun hdecide⟩

/-- Whatever a fresh flow is asked, no estimate leaves its range: a run
does not end for that reason, every entry of the four maps is the mark of a
missing loss or a share, and a refused request leaves its map as it was. -/
theorem estimates_stay_meaningful (hstart : start rates config entropy = .ok f₀)
    (requests : List Request) :
    f₀.run requests ≠ .error .lossOutOfRange
      ∧ (∀ f replies, f₀.run requests = .ok (f, replies) →
        ∀ view i, (f.lossMap view).lossAt i = unknownLoss
          ∨ inUnit ((f.lossMap view).lossAt i) = true)
      ∧ ∀ (m : LossMap rates) (request : LossMap.Request) (error : Error),
        (m.handle request).2 = some error → (m.handle request).1 = m := by
  have hsound := (sound_start hstart).run (accepted_of_start hstart) requests
  refine ⟨?_, ?_, ?_⟩
  · intro hfault
    exact hsound.of_eq_error hfault rfl
  · intro f replies hrun view i
    exact isEstimate_iff.1 ((hsound.of_eq_ok hrun).meaningful view i)
  · intro m request error hrefused
    unfold LossMap.handle at hrefused ⊢
    dsimp only at hrefused ⊢
    split at hrefused
    · cases hrefused
    · rfl

/-- A flow whose weight for the past is not a number, asked to store what
is no estimate, or with a weight of no size. -/
theorem estimates_stay_meaningful_nan :
    let rates : RateSet := ⟨#[10, 20, 55], by decide, by decide⟩
    let nan : Float := 0.0 / 0.0
    let requests : List Request :=
      [ .lossMap .front (.update 10 nan 0.5)
      , .lossMap .front (.update 10 0.5 nan)
      , .lossMap .back (.replace 20 1.5)
      , .feedBatch .back [⟨⟨0⟩, 0, 20, 1000, .naked⟩]
      , .giveUp
      , .decide ⟨⟨0⟩, .data, 10000, 1000, 0⟩ ]
    ∃ f₀ : Flow rates,
      start rates { backLossWeight := nan } default = .ok f₀
      ∧ f₀.run requests ≠ .error .lossOutOfRange
      ∧ (∀ f replies, f₀.run requests = .ok (f, replies) →
        ∀ view i, (f.lossMap view).lossAt i = unknownLoss
          ∨ inUnit ((f.lossMap view).lossAt i) = true)
      ∧ ∀ (m : LossMap rates) (request : LossMap.Request) (error : Error),
        (m.handle request).2 = some error → (m.handle request).1 = m := by
  intro rates nan requests
  have hstarted : (start rates { backLossWeight := nan }
      default).toOption.isSome = true := by decide +kernel
  obtain ⟨f₀, hstart⟩ := Option.isSome_iff_exists.1 hstarted
  rw [toOption_eq_some_iff] at hstart
  exact ⟨f₀, hstart, estimates_stay_meaningful hstart requests⟩

end LinkAdaptation.Flow
