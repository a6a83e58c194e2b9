/-
Sessions and the origin of time. A session is a flow that is started and
run. Where every instant in it is moved by the same amount, each request is
answered as before, and so is every question about the flow that it leaves:
a fresh flow knows no instant, and from there on the two sessions stay the
same amount apart, by induction on the requests.

That is so as long as the instants that a session computes from others are
there in both of them, or in neither.
-/
import LinkAdaptation.Proofs.Flow.Run
import LinkAdaptation.Proofs.Flow.Shift

namespace LinkAdaptation.Flow

variable {rates : RateSet} {config : Config} {entropy : Random.Key} {δ : Int}
  {f₀ f f' : Flow rates} {requests : List Request}
  {replies replies' : List Reply}

-- =========================================================== questions

theorem text_shift (f : Flow rates) : (f.shift δ).text = f.text := by
  have hbaseline : (f.shift δ).baseline?.map (·.text)
      = f.baseline?.map (·.text) := by
    show (f.baseline?.map (·.shift δ)).map (·.text) = _
    rw [Option.map_map]
    exact congrArg (fun text => f.baseline?.map text)
      (funext Baseline.text_shift)
  have hfront : (f.shift δ).front.text = f.front.text := f.front.text_shift
  have hback : (f.shift δ).back.text = f.back.text := f.back.text_shift
  unfold text windowSection
  rw [hbaseline, hfront, hback]
  rfl

/-- Two flows that are not told apart by any question, when the instants in
what they are asked are `δ` nanoseconds apart. -/
structure SameAnswers (δ : Int) (f f' : Flow rates) : Prop where
  rate : f'.rate = f.rate
  isBootstrapping : f'.isBootstrapping = f.isBootstrapping
  isFeasible : ∀ rate, f'.isFeasible rate = f.isFeasible rate
  feasible : f'.feasible = f.feasible
  probes : f'.probes = f.probes
  lossMap : ∀ view, f'.lossMap view = f.lossMap view
  throughput? : ∀ view, f'.throughput? view = f.throughput? view
  tally? : ∀ vantage start stop,
    (f'.window vantage).tally? (start.shift δ) (stop.shift δ)
      = (f.window vantage).tally? start stop
  losses? : ∀ vantage start stop asked,
    (f'.window vantage).losses? (start.shift δ) (stop.shift δ) asked
      = (f.window vantage).losses? start stop asked
  loss : ∀ vantage start stop rate,
    (f'.window vantage).loss (start.shift δ) (stop.shift δ) rate
      = (f.window vantage).loss start stop rate
  feasible? : ∀ vantage start stop,
    (f'.window vantage).feasible? (start.shift δ) (stop.shift δ)
      = (f.window vantage).feasible? start stop
  length : ∀ vantage, (f'.window vantage).records.length
    = (f.window vantage).records.length
  windowText : ∀ vantage,
    (f'.window vantage).text = (f.window vantage).text
  baselineRate : f'.baseline?.map (·.currentRate)
    = f.baseline?.map (·.currentRate)
  baselineSummary : f'.baseline?.map (·.summary)
    = f.baseline?.map (·.summary)
  text : f'.text = f.text
  summary : f'.summary = f.summary

theorem sameAnswers_shift (f : Flow rates) : SameAnswers δ f (f.shift δ) := by
  have hbaseline {α : Type} {asked : Baseline rates → α}
      (hasked : ∀ b, asked (b.shift δ) = asked b) :
      (f.shift δ).baseline?.map asked = f.baseline?.map asked := by
    show (f.baseline?.map (·.shift δ)).map asked = _
    rw [Option.map_map]
    exact congrArg (fun asked => f.baseline?.map asked) (funext hasked)
  refine ⟨rfl, rfl, fun _ => rfl, rfl, rfl, f.lossMap_shift, ?_, ?_, ?_, ?_,
    ?_, ?_, ?_, ?_, ?_, f.text_shift, rfl⟩
  · intro view
    unfold throughput?
    rw [lossMap_shift]
  · intro vantage start stop
    rw [window_shift, Window.tally?_shift]
  · intro vantage start stop asked
    rw [window_shift, Window.losses?_shift]
  · intro vantage start stop rate
    rw [window_shift, Window.loss_shift]
  · intro vantage start stop
    rw [window_shift, Window.feasible?_shift]
  · intro vantage
    rw [window_shift]
    exact List.length_map ..
  · intro vantage
    rw [window_shift, Window.text_shift]
  · exact hbaseline fun b => b.selector.currentRate_shift
  · exact hbaseline Baseline.summary_shift

-- ================================================================ runs

/-- A fresh flow knows no instant. -/
theorem shift_start (h : start rates config entropy = .ok f) :
    f.shift δ = f := by
  unfold start at h
  split at h
  · cases h
  · cases h
    rfl

/-- A moved flow runs moved requests as it would have run them, moved. -/
theorem run_shift
    (h : (f.shift δ).checksOf (requests.map (·.shift δ))
      = f.checksOf requests) :
    (f.shift δ).run (requests.map (·.shift δ))
      = (fun p => (p.1.shift δ, p.2)) <$> f.run requests := by
  induction requests generalizing f with
  | nil => rfl
  | cons request rest ih =>
      rw [List.map_cons] at h ⊢
      obtain ⟨hchecks, hlater⟩ := List.cons.inj h
      have hhandle := handle_shift hchecks
      rw [run_cons, run_cons, hhandle]
      cases hstep : f.handle request with
      | error fault => rfl
      | ok p =>
          rw [hhandle, hstep] at hlater
          dsimp only [Functor.map, Except.map, bind, Except.bind]
          rw [ih hlater]
          cases p.1.run rest <;> rfl

/-- Moving every instant of a session by the same amount changes no answer.
The requests are answered the same, refusals and broken bounds included, and
the flows that are left answer every question the same, when the instants
that the two sessions compute are there alike. -/
theorem sessions_translate (hstart : start rates config entropy = .ok f₀)
    (hchecks : f₀.checksOf (requests.map (·.shift δ))
      = f₀.checksOf requests) :
    Prod.snd <$> f₀.run (requests.map (·.shift δ))
        = Prod.snd <$> f₀.run requests
      ∧ ∀ f f' replies replies', f₀.run requests = .ok (f, replies) →
        f₀.run (requests.map (·.shift δ)) = .ok (f', replies') →
        SameAnswers δ f f' := by
  have hfresh : f₀.shift δ = f₀ := shift_start hstart
  have hmoved : f₀.run (requests.map (·.shift δ))
      = (fun p => (p.1.shift δ, p.2)) <$> f₀.run requests := by
    have hrun : (f₀.shift δ).run (requests.map (·.shift δ))
        = (fun p => (p.1.shift δ, p.2)) <$> f₀.run requests :=
      run_shift (by rw [hfresh]; exact hchecks)
    rw [hfresh] at hrun
    exact hrun
  rw [hmoved]
  constructor
  · cases f₀.run requests <;> rfl
  · intro f f' replies replies' hrun hrun'
    rw [hrun] at hrun'
    cases hrun'
    exact f.sameAnswers_shift

/-- A session with a scouting decision, a refused outcome, and a baseline
that ends its runs of losses, moved by an hour. -/
theorem sessions_translate_hour :
    let rates : RateSet := ⟨#[10, 20, 55], by decide, by decide⟩
    let δ : Int := 3600000000000
    let sent (n : Int) (rate : Rate) (status : Status) : Outcome :=
      ⟨⟨n * 1000000⟩, 0, rate, 1000, status⟩
    let query (n : Int) (occasion : Occasion) : Query :=
      ⟨⟨n * 1000000⟩, occasion, 10000, 1000, 0⟩
    let requests : List Request :=
      [ .setMode .boundedSequential ⟨0⟩ default, .setSpeed 10.0
      , .feedBatch .front [sent 1000 20 .acked, sent 1001 55 .naked]
      , .feedBatch .back
          [sent 1100 10 .acked, sent 1101 55 .naked, sent 1102 55 .naked]
      , .decide (query 1112 .data)
      , .setMode .sampleRate ⟨1113000000⟩ default
      , .feed .back (sent 1114 20 .acked), .feed .back (sent 1115 30 .acked)
      , .decide (query 12000 (.retransmission 2)) ]
    ∃ (f₀ f f' : Flow rates) (replies : List Reply),
      start rates { seed := some 1 } default = .ok f₀
        ∧ f₀.checksOf (requests.map (·.shift δ)) = f₀.checksOf requests
        ∧ (f₀.checksOf requests)[4]?
          = some { aligned := [true, true, true], back? := some true }
        ∧ f₀.run requests = .ok (f, replies)
        ∧ f.feasible = [10, 20]
        ∧ f₀.run (requests.map (·.shift δ)) = .ok (f', replies)
        ∧ SameAnswers δ f f' := by
  intro rates δ sent query requests
  obtain ⟨f₀, _, _, ⟨⟨f, replies⟩, ⟨f', replies'⟩⟩, hstart, hnone, hruns,
      hchecks, hscouted, hfeasible⟩ :=
    exists_step rates { seed := some 1 } default []
      (fun f => do
        return (← f.run requests, ← f.run (requests.map (·.shift δ))))
      (fun f p => f.checksOf (requests.map (·.shift δ)) = f.checksOf requests
        ∧ (f.checksOf requests)[4]?
          = some { aligned := [true, true, true], back? := some true }
        ∧ p.1.1.feasible = [10, 20])
      (by decide +kernel)
  cases hnone
  obtain ⟨_, hrun, hruns⟩ := bind_eq_ok.1 hruns
  obtain ⟨_, hrun', hruns⟩ := bind_eq_ok.1 hruns
  cases hruns
  obtain ⟨hreplies, hanswers⟩ := sessions_translate hstart hchecks
  rw [hrun, hrun'] at hreplies
  obtain rfl : replies' = replies := Except.ok.inj hreplies
  exact ⟨f₀, f, f', replies', hstart, hchecks, hscouted, hrun, hfeasible,
    hrun', hanswers f f' replies' replies' hrun hrun'⟩

end LinkAdaptation.Flow
