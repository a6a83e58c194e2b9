/-
The baseline of a flow is a baseline on its own. Beside a run of the flow
stands an account of it, kept from the requests and the answers alone: when
a baseline was built, of which kind and from which entropy, and what it has
been asked since. A switch to a mode that needs another kind starts the
account anew; while such a mode is active, feedback from the back is one
insertion for each accepted outcome, and a decision is one selection for
each rate it had to draw. Nothing else reaches the baseline: a flow that is
started and run holds the very baseline that this list of requests leads to.
-/
import LinkAdaptation.Flow.Run
import LinkAdaptation.Proofs.Flow.Steps

namespace LinkAdaptation

-- ============================================================ accounts

/-- A baseline on its own: its kind, when it was built, the entropy that was
drawn for it, and what it was asked since. -/
structure Standalone where
  kind : BaselineKind
  builtAt : Instant
  entropy : Random.Key
  requests : List Baseline.Request
  deriving DecidableEq

/-- Such a baseline before it was asked anything, built as a flow with this
configuration builds it. -/
def Standalone.fresh (s : Standalone) (rates : RateSet) (config : Config) :
    Baseline rates :=
  .start s.kind rates config.bootstrapOrder (config.generator s.entropy)
    s.builtAt

/-- The active mode, and the baseline that a flow should have. -/
structure Account where
  mode : Mode
  standalone? : Option Standalone
  deriving DecidableEq

namespace Account

/-- The account of a fresh flow. -/
def start : Account := ⟨.scoutSequential, none⟩

/-- The account after a switch of the mode. -/
def enter (a : Account) (mode : Mode) (now : Instant)
    (entropy : Random.Key) : Account :=
  match mode.baseline? with
  | none => { a with mode }
  | some kind =>
      if a.standalone?.map (·.kind) = some kind then { a with mode }
      else { mode, standalone? := some ⟨kind, now, entropy, []⟩ }

/-- The account after its baseline was asked more, if its mode has one. -/
def ask (a : Account) (more : List Baseline.Request) : Account :=
  if a.mode.baseline?.isSome then
    { a with
      standalone? := a.standalone?.map fun s =>
        { s with requests := s.requests ++ more } }
  else
    a

/-- The account after outcomes were accepted. Those from the front do not
reach the baseline. -/
def hear (a : Account) (outcomes : List Outcome) : Vantage → Account
  | .front => a
  | .back => a.ask (outcomes.map .insert)

theorem ask_nil (a : Account) : a.ask [] = a := by
  obtain ⟨mode, standalone?⟩ := a
  unfold ask
  cases standalone? <;> simp

/-- How many rates a decision draws, by what it answers: one for each
packet, or the one it tried before it was refused. After a timeout the
first is not drawn. -/
def selections (query : Query) : Flow.Reply → Nat
  | .decided d => if query.occasion.isTimeout then d.n - 1 else d.n
  | _ => if query.occasion.isTimeout then 0 else 1

/-- The account after a request and its answer. -/
def note (a : Account) : Flow.Request → Flow.Reply → Account
  | .feed vantage o, .done => a.hear [o] vantage
  | .feedBatch vantage outcomes, .done => a.hear outcomes vantage
  | .decide query, reply =>
      a.ask (List.replicate (selections query reply) (.select query.now))
  | .setMode mode now entropy, _ => a.enter mode now entropy
  | _, _ => a

/-- The account of a run. -/
def ofRun (requests : List Flow.Request) (replies : List Flow.Reply) :
    Account :=
  (requests.zip replies).foldl (fun a p => a.note p.1 p.2) start

end Account

namespace Flow

variable {rates : RateSet} {config : Config} {entropy : Random.Key}
  {f₀ f f' : Flow rates}
  {a : Account} {b b' : Baseline rates}

-- =========================================================== following

/-- A baseline that the requests of an account lead to. -/
def Reached (config : Config) (s : Standalone) (b : Baseline rates) : Prop :=
  ∃ answers, (s.fresh rates config).run s.requests = .ok (b, answers)

/-- A flow that holds what its account says. -/
structure Follows (config : Config) (a : Account) (f : Flow rates) :
    Prop where
  config_eq : f.config = config
  mode_eq : f.mode = a.mode
  baseline : Option.Rel (Reached config) a.standalone? f.baseline?
  present : ∀ kind, a.mode.baseline? = some kind →
    ∃ s, a.standalone? = some s ∧ s.kind = kind

theorem follows_start (h : start rates config entropy = .ok f) :
    Follows config .start f := by
  unfold start at h
  split at h
  · cases h
  · cases h
    exact ⟨rfl, rfl, .none, nofun⟩

theorem Reached.kind {s : Standalone} (h : Reached config s b) :
    b.kind = s.kind := by
  obtain ⟨_, hrun⟩ := h
  rw [Baseline.kind_run hrun]
  exact Baseline.kind_start ..

theorem Reached.more {s : Standalone} {more : List Baseline.Request}
    {answers : List (Option Rate)} (h : Reached config s b)
    (hmore : b.run more = .ok (b', answers)) :
    Reached config { s with requests := s.requests ++ more } b' := by
  obtain ⟨before, hrun⟩ := h
  exact ⟨before ++ answers, Baseline.run_append hrun hmore⟩

/-- What leaves the mode and the baseline alone is not accounted. -/
theorem Follows.same (h : Follows config a f) (hconfig : f'.config = f.config)
    (hmode : f'.mode = f.mode) (hbaseline : f'.baseline? = f.baseline?) :
    Follows config a f' := by
  refine ⟨hconfig.trans h.config_eq, hmode.trans h.mode_eq, ?_, h.present⟩
  rw [hbaseline]
  exact h.baseline

/-- The baseline of an active mode is there, and is the account's. -/
theorem Follows.led (h : Follows config a f)
    (hmode : f.mode.baseline?.isSome = true) :
    ∃ s b, a.standalone? = some s ∧ f.mode.baseline? = some s.kind
      ∧ f.Led b ∧ Reached config s b := by
  obtain ⟨kind, hkind⟩ := Option.isSome_iff_exists.1 hmode
  obtain ⟨s, hs, rfl⟩ := h.present kind (by rw [← h.mode_eq]; exact hkind)
  have hrel := h.baseline
  rw [hs] at hrel
  generalize hb : f.baseline? = b? at hrel
  cases hrel with
  | some hreached => exact ⟨s, _, hs, hkind, ⟨hmode, hb⟩, hreached⟩

/-- While a mode with a baseline is active, whatever the baseline is asked
is accounted. -/
theorem Follows.asked (h : Follows config a f) (hled : f.Led b)
    {more : List Baseline.Request} {answers : List (Option Rate)}
    (hmore : b.run more = .ok (b', answers))
    (hconfig : f'.config = f.config) (hmode : f'.mode = f.mode)
    (hbaseline : f'.baseline? = some b') :
    Follows config (a.ask more) f' := by
  obtain ⟨s, b₁, hs, -, hled₁, hreached⟩ := h.led hled.mode
  obtain rfl : b₁ = b := Option.some.inj (hled₁.baseline.symm.trans
    hled.baseline)
  have hactive : a.mode.baseline?.isSome = true := by
    rw [← h.mode_eq]
    exact hled.mode
  unfold Account.ask
  rw [if_pos hactive, hs]
  refine ⟨hconfig.trans h.config_eq, hmode.trans h.mode_eq, ?_, ?_⟩
  · rw [hbaseline]
    exact .some (hreached.more hmore)
  · intro kind hkind
    obtain ⟨s₁, hs₁, rfl⟩ := h.present kind hkind
    cases hs.symm.trans hs₁
    exact ⟨_, rfl, rfl⟩

/-- In a mode without a baseline, nothing is accounted. -/
theorem Follows.unasked (h : Follows config a f)
    (hmode : f.mode.baseline? = none) (more : List Baseline.Request) :
    a.ask more = a := by
  unfold Account.ask
  rw [← h.mode_eq, hmode]
  rfl

-- ============================================================ requests

theorem Follows.teach (h : Follows config a f) {outcomes : List Outcome}
    (hteach : f.teach outcomes = .ok f') :
    Follows config (a.ask (outcomes.map .insert)) f' := by
  unfold Flow.teach at hteach
  split at hteach
  · next kind b hmode hbaseline =>
      obtain ⟨b', hfold, hteach⟩ := bind_eq_ok.1 hteach
      cases hteach
      obtain ⟨answers, hrun⟩ := Baseline.run_inserts hfold
      exact h.asked ⟨by rw [hmode]; rfl, hbaseline⟩ hrun rfl rfl rfl
  · next hnone =>
      cases hteach
      -- a mode with a baseline would have found it
      have hmode : f.mode.baseline? = none := by
        rw [Option.eq_none_iff_forall_not_mem]
        intro kind hkind
        obtain ⟨_, b, -, -, hled, -⟩ := h.led (by rw [hkind]; rfl)
        exact hnone kind b hkind hled.baseline
      rw [h.unasked hmode]
      exact h

theorem Follows.setWindow (h : Follows config a f) (vantage : Vantage)
    (w : Window rates) : Follows config a (f.setWindow vantage w) := by
  cases vantage <;> exact h.same rfl rfl rfl

theorem Follows.setLossMap (h : Follows config a f) (view : View)
    (m : LossMap rates) : Follows config a (f.setLossMap view m) := by
  cases view <;> exact h.same rfl rfl rfl

theorem Follows.refreshLoss (h : Follows config a f) {vantage : Vantage}
    {first last : Instant} (hrefresh : f.refreshLoss vantage first last = .ok f') :
    Follows config a f' := by
  obtain ⟨_, -, hrefresh⟩ := bind_eq_ok.1 hrefresh
  obtain ⟨_, -, hrefresh⟩ := bind_eq_ok.1 hrefresh
  cases hrefresh
  exact h.setLossMap _ _

theorem Follows.teachFrom (h : Follows config a f) {vantage : Vantage}
    {outcomes : List Outcome}
    (hteach : f.teachFrom vantage outcomes = .ok f') :
    Follows config (a.hear outcomes vantage) f' := by
  cases vantage with
  | front =>
      cases hteach
      exact h
  | back => exact h.teach hteach

theorem Follows.feed (h : Follows config a f) {vantage : Vantage}
    {o : Outcome} (hfeed : f.feed vantage o = .ok f') :
    Follows config (a.hear [o] vantage) f' := by
  unfold Flow.feed at hfeed
  split at hfeed
  · cases hfeed
  · exact (h.setWindow vantage _).teachFrom (mapError_eq_ok.1 hfeed)

theorem Follows.feedBatch (h : Follows config a f) {vantage : Vantage}
    {outcomes : List Outcome}
    (hfeed : f.feedBatch vantage outcomes = .ok f') :
    Follows config (a.hear outcomes vantage) f' := by
  unfold Flow.feedBatch at hfeed
  split at hfeed
  · cases hfeed
  · cases hfeed
    cases vantage with
    | front => exact h
    | back =>
        show Follows config (a.ask []) f
        rw [Account.ask_nil]
        exact h
  · obtain ⟨f₁, hteach, hfeed⟩ := bind_eq_ok.1 (mapError_eq_ok.1 hfeed)
    obtain ⟨_, -, hfeed⟩ := bind_eq_ok.1 hfeed
    exact ((h.setWindow vantage _).teachFrom hteach).refreshLoss hfeed

/-- The answer to a request for a decision. -/
def Reply.ofResult : Except Error Decision → Reply
  | .ok d => .decided d
  | .error error => .refused error

/-- The account counts the rates that were drawn. -/
theorem selections_eq {query : Query} {drawn : List Rate}
    {result : Except Error Decision} (h : f.Answers query drawn result) :
    Account.selections query (.ofResult result) = drawn.length := by
  cases result with
  | error error => exact h.symm
  | ok d =>
      obtain ⟨hn, hrates⟩ := h
      show (if query.occasion.isTimeout then d.n - 1 else d.n) = drawn.length
      rw [hn, hrates]
      split <;> simp

theorem Follows.decide (h : Follows config a f) {query : Query}
    {result : Except Error Decision}
    (hdecide : f.decide query = .ok (f', result)) :
    Follows config (a.ask (List.replicate
      (Account.selections query (.ofResult result)) (.select query.now)))
      f' := by
  have hsame := decide_same hdecide
  cases hmode : f.mode.baseline? with
  | none =>
      rw [h.unasked hmode]
      exact h.same hsame.config hsame.mode (decide_unled hmode hdecide)
  | some kind =>
      obtain ⟨s, b, -, -, hled, -⟩ := h.led (by rw [hmode]; rfl)
      obtain ⟨b', drawn, hled', hdraws, hanswers⟩ := hled.decide hdecide
      rw [selections_eq hanswers]
      exact h.asked hled hdraws hsame.config hsame.mode hled'.baseline

/-- A flow and its account agree on the kind that is there. -/
theorem Follows.kind_eq (h : Follows config a f) :
    f.baseline?.map (·.kind) = a.standalone?.map (·.kind) := by
  have hrel := h.baseline
  generalize f.baseline? = b? at hrel ⊢
  generalize a.standalone? = s? at hrel ⊢
  cases hrel with
  | none => rfl
  | some hreached => exact congrArg some hreached.kind

theorem Follows.setMode (h : Follows config a f) (mode : Mode)
    (now : Instant) (entropy : Random.Key) :
    Follows config (a.enter mode now entropy)
      (f.setMode mode now entropy) := by
  unfold Flow.setMode Account.enter
  dsimp only
  cases hmode : mode.baseline? with
  | none =>
      refine ⟨h.config_eq, rfl, h.baseline, ?_⟩
      intro kind hkind
      cases hmode.symm.trans hkind
  | some kind =>
      dsimp only
      rw [h.kind_eq]
      by_cases hsame : a.standalone?.map (·.kind) = some kind
      · rw [if_pos hsame, if_pos hsame]
        refine ⟨h.config_eq, rfl, h.baseline, ?_⟩
        intro kind' hkind'
        cases hmode.symm.trans hkind'
        exact Option.map_eq_some_iff.1 hsame
      · rw [if_neg hsame, if_neg hsame]
        refine ⟨h.config_eq, rfl, .some ⟨[], ?_⟩, ?_⟩
        · rw [h.config_eq]
          rfl
        · intro kind' hkind'
          cases hmode.symm.trans hkind'
          exact ⟨_, rfl, rfl⟩

-- ================================================================ runs

theorem Follows.attempt (h : Follows config a f)
    {result : Except Error (Flow rates)} {reply : Reply}
    (hattempt : f.attempt result = .ok (f', reply))
    (hresult : ∀ f₁, result = .ok f₁ → Follows config a f₁) :
    Follows config a f' := by
  unfold Flow.attempt at hattempt
  split at hattempt <;> cases hattempt
  · exact hresult f' rfl
  · exact h

/-- Feedback that is accepted is accounted, and no other. -/
theorem Follows.attemptChecked {accepted : Account} (h : Follows config a f)
    {result : Except Failure (Flow rates)} {reply : Reply}
    (hattempt : f.attemptChecked result = .ok (f', reply))
    (hresult : ∀ f₁, result = .ok f₁ → Follows config accepted f₁) :
    (reply = .done ∧ Follows config accepted f')
      ∨ ∃ error, reply = .refused error ∧ Follows config a f' := by
  unfold Flow.attemptChecked at hattempt
  split at hattempt <;> cases hattempt
  · exact .inl ⟨rfl, hresult f' rfl⟩
  · exact .inr ⟨_, rfl, h⟩

/-- A request and the note of it keep a flow and its account together. -/
theorem Follows.handle (h : Follows config a f) {request : Request}
    {reply : Reply} (hhandle : f.handle request = .ok (f', reply)) :
    Follows config (a.note request reply) f' := by
  cases request with
  | feed vantage o =>
      obtain ⟨rfl, hdone⟩ | ⟨error, rfl, hrefused⟩ :=
        h.attemptChecked hhandle fun _ => h.feed
      · exact hdone
      · exact hrefused
  | feedBatch vantage outcomes =>
      obtain ⟨rfl, hdone⟩ | ⟨error, rfl, hrefused⟩ :=
        h.attemptChecked hhandle fun _ => h.feedBatch
      · exact hdone
      · exact hrefused
  | refreshLoss vantage first last =>
      obtain ⟨f₁, hrefresh, hhandle⟩ := bind_eq_ok.1 hhandle
      cases hhandle
      exact h.refreshLoss hrefresh
  | giveUp =>
      cases hhandle
      exact h.same rfl rfl rfl
  | decide query =>
      obtain ⟨⟨f₁, result⟩, hdecide, hhandle⟩ := bind_eq_ok.1 hhandle
      cases result <;> cases hhandle <;> exact h.decide hdecide
  | setMode mode now entropy =>
      cases hhandle
      exact h.setMode mode now entropy
  | setUseCoding on =>
      cases hhandle
      exact h.same rfl rfl rfl
  | setMayDuplicate on =>
      cases hhandle
      exact h.same rfl rfl rfl
  | setSpeed speed =>
      cases hhandle
      exact h.same rfl rfl rfl
  | setDuplicateThreshold threshold =>
      apply h.attempt hhandle
      intro f₁ hset
      unfold setDuplicateThreshold at hset
      split at hset <;> cases hset
      exact h.same rfl rfl rfl
  | setLossBound bound =>
      apply h.attempt hhandle
      intro f₁ hset
      unfold setLossBound at hset
      split at hset <;> cases hset
      exact h.same rfl rfl rfl
  | setRate rate =>
      apply h.attempt hhandle
      intro f₁ hset
      unfold setRate at hset
      split at hset <;> cases hset
      exact h.same rfl rfl rfl
  | window vantage request =>
      cases hhandle
      exact h.setWindow vantage _
  | lossMap view request =>
      cases hhandle
      exact h.setLossMap view _

theorem Follows.run (h : Follows config a f) {requests : List Request}
    {replies : List Reply} (hrun : f.run requests = .ok (f', replies)) :
    Follows config ((requests.zip replies).foldl
      (fun a p => a.note p.1 p.2) a) f' := by
  induction requests generalizing a f replies with
  | nil =>
      cases hrun
      exact h
  | cons request rest ih =>
      obtain ⟨⟨f₁, reply⟩, hhandle, hrun⟩ := bind_eq_ok.1 hrun
      obtain ⟨⟨f₂, later⟩, hrest, hrun⟩ := bind_eq_ok.1 hrun
      cases hrun
      exact ih (h.handle hhandle) hrest

/-- After any run, in a mode with a baseline, a baseline of that kind is
there, and it is the one that the account of the run leads to. The rates of
a batch are then the next ones that this baseline selects; after a timeout
they are the rate of the decision before, and the next ones. -/
theorem baseline_refines_standalone {requests : List Request}
    {replies : List Reply} {kind : BaselineKind}
    (hstart : start rates config entropy = .ok f₀)
    (hrun : f₀.run requests = .ok (f, replies))
    (hmode : f.mode.baseline? = some kind) :
    ∃ s b answers, (Account.ofRun requests replies).standalone? = some s
      ∧ s.kind = kind ∧ f.baseline? = some b ∧ b.kind = kind
      ∧ (s.fresh rates config).run s.requests = .ok (b, answers)
      ∧ ∀ query f' d, f.decide query = .ok (f', .ok d) →
        d.n = d.rates.length ∧ ∃ b' drawn, f'.baseline? = some b'
          ∧ b.Draws query.now drawn b'
          ∧ d.rates = if query.occasion.isTimeout then f.rate :: drawn
            else drawn := by
  have h : Follows config (Account.ofRun requests replies) f :=
    (follows_start hstart).run hrun
  obtain ⟨s, b, hs, hkind, hled, hreached⟩ := h.led (by rw [hmode]; rfl)
  obtain rfl : s.kind = kind := Option.some.inj (hkind.symm.trans hmode)
  have hkind := hreached.kind
  obtain ⟨answers, hanswers⟩ := hreached
  refine ⟨s, b, answers, hs, rfl, hled.baseline, hkind, hanswers, ?_⟩
  intro query f' d hdecide
  obtain ⟨b', drawn, hled', hdraws, hn, hrates⟩ := hled.decide hdecide
  exact ⟨hn, b', drawn, hled'.baseline, hdraws, hrates⟩

/-- A flow that went through a mode without a baseline and back, was refused
a batch, and flushed one. -/
theorem baseline_refines_standalone_resumed :
    let rates : RateSet := ⟨#[10, 20, 55], by decide, by decide⟩
    let config : Config := { seed := some 1 }
    let sent (n : Int) (rate : Rate) (status : Status) : Outcome :=
      ⟨⟨n⟩, 0, rate, 1000, status⟩
    let ask (n : Int) (occasion : Occasion) (coherence : UInt32) : Query :=
      ⟨⟨n⟩, occasion, coherence, 1000, 0⟩
    let requests : List Request :=
      [ .setUseCoding false, .setMode .rraa ⟨0⟩ default
      , .setMode .sampleRate ⟨1⟩ default
      , .feed .back (sent 2 20 .acked), .feed .front (sent 3 55 .acked)
      , .decide (ask 4 .data 0)
      , .setMode .scoutSequential ⟨5⟩ default, .feed .back (sent 6 55 .acked)
      , .decide (ask 7 .data 10000)
      , .setMode .sampleRate ⟨8⟩ default, .feedBatch .back [sent 9 10 .naked]
      , .decide (ask 10 (.timeout 3) 10000) ]
    ∃ (f₀ f : Flow rates) (replies : List Reply),
      start rates config default = .ok f₀ ∧ f₀.run requests = .ok (f, replies)
        ∧ f.mode.baseline? = some .sampleRate
        ∧ (Account.ofRun requests replies).standalone?
          = some ⟨.sampleRate, ⟨1⟩, default, [ .insert (sent 2 20 .acked)
            , .select ⟨4⟩, .insert (sent 9 10 .naked)
            , .select ⟨10⟩, .select ⟨10⟩ ]⟩
        ∧ ∃ s b answers, (Account.ofRun requests replies).standalone? = some s
          ∧ s.kind = .sampleRate ∧ f.baseline? = some b
          ∧ b.kind = .sampleRate
          ∧ (s.fresh rates config).run s.requests = .ok (b, answers)
          ∧ ∀ query f' d, f.decide query = .ok (f', .ok d) →
            d.n = d.rates.length ∧ ∃ b' drawn, f'.baseline? = some b'
              ∧ b.Draws query.now drawn b'
              ∧ d.rates = if query.occasion.isTimeout then f.rate :: drawn
                else drawn := by
  intro rates config sent ask requests
  have hran : ((start rates config default).toOption.bind fun f₀ =>
      (f₀.run requests).toOption.map fun p =>
        (p.1.mode.baseline?, (Account.ofRun requests p.2).standalone?))
      = some (some .sampleRate, some ⟨.sampleRate, ⟨1⟩, default,
        [ .insert (sent 2 20 .acked), .select ⟨4⟩
        , .insert (sent 9 10 .naked), .select ⟨10⟩, .select ⟨10⟩ ]⟩) := by
    decide +kernel
  obtain ⟨f₀, hstart, hran⟩ := Option.bind_eq_some_iff.1 hran
  obtain ⟨⟨f, replies⟩, hrun, hran⟩ := Option.map_eq_some_iff.1 hran
  rw [toOption_eq_some_iff] at hstart hrun
  obtain ⟨hmode, haccount⟩ := Prod.mk.inj hran
  exact ⟨f₀, f, replies, hstart, hrun, hmode, haccount,
    baseline_refines_standalone hstart hrun hmode⟩

end Flow

end LinkAdaptation
