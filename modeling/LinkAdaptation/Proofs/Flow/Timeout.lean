/-
Batches that are flushed after a timeout. Such a batch goes out at the
candidate of the decision before: nothing is merged and nothing is chosen
for it, so a decision on one changes no more than assembling a batch does,
and one that finds no size changes nothing at all.

What it goes by was settled by the last decision that merged. Reports that
came in since then write the two sides of the flow, and outside a baseline's
modes a flush reads neither. Two runs that go on from the same flow without
merging again, and that differ in their reports only, therefore end in flows
that differ in their sides only, by induction on one of the runs; and such
flows flush alike.
-/
import LinkAdaptation.Proofs.Flow.Interleaving

namespace LinkAdaptation.Flow

variable {rates : RateSet} {config : Config} {entropy : Random.Key}
  {f₀ c f f' g g' : Flow rates}
  {query : Query} {result : Except Error Decision}
  {request : Request} {reply reply' : Reply}
  {since since' : List Request} {replies replies' : List Reply}

-- ============================================================== frames

theorem prepare_of_timeout (f : Flow rates)
    (hoccasion : query.occasion.isTimeout = true) : f.prepare query = .ok f :=
  if_pos hoccasion

/-- A flush that finds no size changes nothing, and one that does goes on to
assemble the batch. -/
theorem decide_of_timeout (hoccasion : query.occasion.isTimeout = true)
    (h : f.decide query = .ok (f', result)) :
    (∃ error, result = .error error ∧ f' = f
        ∧ f.size query = .error (.refused error))
      ∨ ∃ size d, result = .ok d ∧ f.size query = .ok size
        ∧ f.assemble query size = .ok (f', d) := by
  obtain ⟨f₁, hprepare, hresult⟩ := decide_eq_ok h
  rw [prepare_of_timeout f hoccasion] at hprepare
  cases hprepare
  exact hresult

theorem flush_changes (hoccasion : query.occasion.isTimeout = true)
    (h : f.decide query = .ok (f', result)) :
    ∃ probes generator baseline?,
      f' = { f with probes, generator, baseline? } := by
  obtain ⟨_, -, rfl, -⟩ | ⟨_, _, -, -, hassemble⟩ :=
    decide_of_timeout hoccasion h
  · exact ⟨_, _, _, rfl⟩
  · exact assemble_changes hassemble

-- =========================================================== the batch

/-- A flush is sized for the packets that it was asked for. -/
theorem size_of_timeout (hc : f.config.Accepted) {k : Nat}
    (hoccasion : query.occasion = .timeout k) {sized : BatchSize}
    (h : f.size query = .ok sized) : sized.k = k ∧ sized.k ≤ sized.n := by
  unfold size at h
  rw [hoccasion] at h
  have hkeeps := (Sizer.timeout_keeps (sizer_roomy hc) _ k).of_eq_ok h
  exact ⟨hkeeps.1, hkeeps.2.k_le_n⟩

/-- Without a baseline, all coded packets go out at the current rate. -/
theorem count_layOut (hmode : f.mode.baseline? = none) {coded : Nat}
    {now : Instant} {all : List Rate}
    (h : f.layOut coded now = .ok (f', all)) : coded ≤ all.count f.rate := by
  unfold layOut at h
  rw [hmode, if_neg (by decide)] at h
  split at h
  · cases h
    rw [List.count_replicate_self]
  · cases h
    have hperm := List.mergeSort_perm
      (List.replicate coded f.rate ++ f.probes) (· ≤ ·)
    rw [hperm.count_eq, List.count_append, List.count_replicate_self]
    exact Nat.le_add_right _ _

theorem count_assemble (hmode : f.mode.baseline? = none) {size : BatchSize}
    {d : Decision} (hsize : size.k ≤ size.n)
    (h : f.assemble query size = .ok (f', d)) :
    size.k ≤ d.rates.count f.rate := by
  obtain ⟨probes, generator, -, hlaid, -⟩ := assemble_eq_ok h
  have hcount := count_layOut (f := { f with probes, generator }) hmode hlaid
  have hcoded : size.k ≤ d.coded size := by
    unfold Decision.coded
    split
    · exact Nat.le_refl _
    · exact hsize
  exact hcoded.trans hcount

-- ======================================================== either side

/-- Without a baseline, a batch is laid out the same whatever either side
is. -/
theorem layOut_withSide (hmode : f.mode.baseline? = none) (g : Flow rates)
    (vantage : Vantage) (coded : Nat) (now : Instant) :
    (f.withSide vantage g).layOut coded now
      = besides vantage g <$> f.layOut coded now := by
  have hmode' : (f.withSide vantage g).mode = f.mode := by
    cases vantage <;> rfl
  have hnone : ¬ f.mode.baseline?.isSome = true := by simp [hmode]
  unfold layOut
  rw [hmode', if_neg hnone, if_neg hnone]
  split <;> cases vantage <;> rfl

/-- Without a baseline, a flush is the same whatever either side is. -/
theorem flush_withSide (hmode : f.mode.baseline? = none)
    (hoccasion : query.occasion.isTimeout = true) (g : Flow rates)
    (vantage : Vantage) :
    (f.withSide vantage g).decide query
      = besides vantage g <$> f.decide query := by
  apply decide_withSide
  · rw [prepare_of_timeout _ hoccasion, prepare_of_timeout _ hoccasion]
    rfl
  · intro f₁ hprepare probes generator coded
    rw [prepare_of_timeout _ hoccasion] at hprepare
    cases hprepare
    exact layOut_withSide (f := { f with probes, generator }) hmode g vantage
      coded query.now

theorem SidesOver.trans {g₁ : Flow rates} (h : SidesOver f g)
    (h' : SidesOver g g₁) : SidesOver f g₁ := by
  unfold SidesOver at h h'
  rw [h', h]
  rfl

/-- Flows that differ in their sides only flush alike. -/
theorem SidesOver.flush (h : SidesOver f g)
    (hmode : f.mode.baseline? = none)
    (hoccasion : query.occasion.isTimeout = true) :
    Prod.snd <$> g.decide query = Prod.snd <$> f.decide query := by
  have hmode' : (f.withSide .front g).mode.baseline? = none := hmode
  rw [h, flush_withSide hmode' hoccasion, flush_withSide hmode hoccasion]
  cases f.decide query <;> rfl

-- =============================================================== steps

/-- Whether a request has estimates merged. -/
def Request.merges : Request → Bool
  | .decide query => !query.occasion.isTimeout
  | _ => false

/-- A list of requests none of which has estimates merged. -/
def Quiet (requests : List Request) : Prop :=
  ∀ request ∈ requests, request.merges = false

instance (requests : List Request) : Decidable (Quiet requests) :=
  inferInstanceAs (Decidable (∀ _ ∈ requests, _))

/-- What is asked beside the reports, in its order. -/
def sansReports (requests : List Request) : List Request :=
  requests.filter (·.vantage?.isNone)

/-- In any mode, a flush has its probes found first, and then changes the
baseline only. -/
theorem flush_probed (hoccasion : query.occasion.isTimeout = true)
    (h : f.decide query = .ok (f', result)) :
    (f' = f ∧ ∃ error, f.size query = .error (.refused error))
      ∨ ∃ size f₁ baseline?, f.size query = .ok size
        ∧ f.probe (f.duplicates query.occasion) = .ok f₁
        ∧ f' = { f₁ with baseline? } := by
  obtain ⟨error, -, rfl, hsize⟩ | ⟨size, d, -, hsize, hassemble⟩ :=
    decide_of_timeout hoccasion h
  · exact .inl ⟨rfl, error, hsize⟩
  · obtain ⟨probes, generator, hprobe, hlaid, -, -, hduplicate⟩ :=
      assemble_eq_ok hassemble
    obtain ⟨baseline?, rfl⟩ := layOut_eq_ok hlaid
    rw [hduplicate] at hprobe
    exact .inr ⟨size, _, baseline?, hsize, hprobe, rfl⟩

/-- Flows that differ in their sides only still do after a flush, also in a
mode with a baseline. -/
theorem SidesOver.decide {result' : Except Error Decision}
    (hover : SidesOver f g) (hoccasion : query.occasion.isTimeout = true)
    (h : f.decide query = .ok (f', result))
    (h' : g.decide query = .ok (g', result')) : SidesOver f' g' := by
  have hsize : g.size query = f.size query := by
    rw [hover, size_withSide, size_withSide]
  have hduplicates : g.duplicates query.occasion
      = f.duplicates query.occasion := by
    rw [hover, duplicates_withSide, duplicates_withSide]
  obtain ⟨rfl, _, hrefused⟩ | ⟨_, f₁, _, hsized, hprobe, rfl⟩ :=
      flush_probed hoccasion h
    <;> obtain ⟨rfl, _, hrefused'⟩ | ⟨_, g₁, _, hsized', hprobe', rfl⟩ :=
      flush_probed hoccasion h'
  · exact hover
  · rw [hsize, hrefused] at hsized'
    cases hsized'
  · rw [← hsize, hrefused'] at hsized
    cases hsized
  · rw [hduplicates, hover, probe_withSide, probe_withSide, hprobe] at hprobe'
    cases hprobe'
    rfl

theorem SidesOver.setMode (hover : SidesOver f g) (mode : Mode)
    (now : Instant) (entropy : Random.Key) :
    SidesOver (f.setMode mode now entropy) (g.setMode mode now entropy) := by
  rw [hover]
  unfold Flow.setMode withSide
  dsimp only
  split
  · rfl
  · split <;> split <;> rfl

/-- Flows that differ in their sides only still do after a request that is
no report and has nothing merged. -/
theorem SidesOver.handle (hover : SidesOver f g)
    (hquiet : request.merges = false) (hbeside : request.vantage? = none)
    (h : f.handle request = .ok (f', reply))
    (h' : g.handle request = .ok (g', reply')) : SidesOver f' g' := by
  have hsetting (hsetting : request.isSetting = true) : SidesOver f' g' := by
    rw [hover, handle_setting_withSide hsetting,
      handle_setting_withSide hsetting, h] at h'
    cases h'
    rfl
  cases request with
  | feed vantage o => cases hbeside
  | feedBatch vantage outcomes => cases hbeside
  | refreshLoss vantage start stop => cases hbeside
  | window vantage request => cases hbeside
  | decide query =>
      have htimeout : query.occasion.isTimeout = true := by
        simpa [Request.merges] using hquiet
      obtain ⟨⟨f₁, result⟩, hdecide, h⟩ := bind_eq_ok.1 h
      obtain ⟨⟨g₁, result'⟩, hdecide', h'⟩ := bind_eq_ok.1 h'
      have hover₁ := hover.decide htimeout hdecide hdecide'
      cases result <;> cases h <;> cases result' <;> cases h' <;> exact hover₁
  | giveUp =>
      cases h
      cases h'
      rw [hover]
      rfl
  | setMode mode now entropy =>
      cases h
      cases h'
      exact hover.setMode mode now entropy
  | setSpeed speed =>
      cases h
      cases h'
      rw [hover]
      rfl
  | lossMap view request =>
      cases h
      cases h'
      rw [hover]
      cases view <;> rfl
  | setUseCoding _ => exact hsetting rfl
  | setMayDuplicate _ => exact hsetting rfl
  | setDuplicateThreshold _ => exact hsetting rfl
  | setLossBound _ => exact hsetting rfl
  | setRate _ => exact hsetting rfl

-- ================================================================ runs

theorem allReports_of_left_out {requests : List Request}
    (h : ∀ request ∈ requests, ¬ request.vantage?.isNone = true) :
    AllReports requests := by
  intro request hmem
  simpa [Option.isSome_iff_ne_none] using h request hmem

/-- Two runs that have nothing merged, and ask for the same beside their
reports, end in flows that differ in their sides only if they began so. -/
theorem SidesOver.run (hover : SidesOver f g)
    (hrun : f.run since = .ok (f', replies))
    (hrun' : g.run since' = .ok (g', replies'))
    (hquiet : Quiet since) (hquiet' : Quiet since')
    (hsame : sansReports since' = sansReports since) : SidesOver f' g' := by
  induction since generalizing f g since' replies replies' with
  | nil =>
      cases hrun
      have hreports := allReports_of_left_out (List.filter_eq_nil_iff.1 hsame)
      exact hover.trans (sidesOver_run hreports hrun')
  | cons request rest ih =>
      obtain ⟨hrequest, hrest⟩ := List.forall_mem_cons.1 hquiet
      obtain ⟨f₁, reply, later, hhandle, hlater, -⟩ := run_cons_eq_ok.1 hrun
      cases hfrom : request.vantage? with
      | some vantage =>
          have hskip : sansReports (request :: rest) = sansReports rest := by
            simp [sansReports, hfrom]
          exact ih (hover.of_sameBut (sameBut_handle hfrom hhandle)) hlater
            hrun' hrest hquiet' (hsame.trans hskip)
      | none =>
          have hkept : sansReports (request :: rest)
              = request :: sansReports rest := by
            simp [sansReports, hfrom]
          -- the other run reports something first, and then asks the same
          obtain ⟨reports, rest', rfl, hreports, -, hrest'⟩ :=
            List.filter_eq_cons_iff.1 (hsame.trans hkept)
          obtain ⟨g₀, _, _, hfirst, hsecond⟩ := run_of_append hrun'
          obtain ⟨g₁, _, _, hhandle', hlater', -⟩ := run_cons_eq_ok.1 hsecond
          obtain ⟨-, hquiet'⟩ := List.forall_mem_append.1 hquiet'
          have hover₀ := hover.trans
            (sidesOver_run (allReports_of_left_out hreports) hfirst)
          have hover₁ := hover₀.handle hrequest hfrom hhandle hhandle'
          exact ih hover₁ hlater hlater' hrest
            (List.forall_mem_cons.1 hquiet').2 hrest'

-- ============================================================== results

/-- Whatever a flow was asked before, a flush reuses the decision before it:
the probes, their generator and the baseline are all that it changes. When
it finds no size, it changes nothing. A batch that it sends is coded for the
packets it was asked for, and outside a baseline's modes it has at least as
many of them at the current rate. There, what either vantage point reported
since the last decision that merged has no part in it: from any flow on, two
runs that merge nothing and differ in their reports only are followed by the
same flush. -/
theorem timeout_reuses_decision {before : List Request}
    {earlier : List Reply} {k : Nat}
    (hstart : start rates config entropy = .ok f₀)
    (hbefore : f₀.run before = .ok (c, earlier))
    (hsince : c.run since = .ok (f, replies))
    (hoccasion : query.occasion = .timeout k)
    (hdecide : f.decide query = .ok (f', result)) :
    (∃ probes generator baseline?,
      f' = { f with probes, generator, baseline? })
    ∧ (∀ error, result = .error error → f' = f)
    ∧ (∀ d, result = .ok d → d.k = k
      ∧ (f.mode.baseline? = none → k ≤ d.rates.count f.rate))
    ∧ (f.mode.baseline? = none → Quiet since →
      ∀ since' g replies', c.run since' = .ok (g, replies') → Quiet since' →
        sansReports since' = sansReports since →
        Prod.snd <$> g.decide query = .ok result) := by
  have htimeout : query.occasion.isTimeout = true := by
    rw [hoccasion]
    rfl
  refine ⟨flush_changes htimeout hdecide, ?_, ?_, ?_⟩
  · intro error herror
    obtain ⟨_, -, hsame, -⟩ | ⟨_, _, hok, -, -⟩ :=
      decide_of_timeout htimeout hdecide
    · exact hsame
    · rw [hok] at herror
      cases herror
  · intro d hd
    obtain ⟨_, herror, -, -⟩ | ⟨sized, d', hok, hsize, hassemble⟩ :=
      decide_of_timeout htimeout hdecide
    · rw [herror] at hd
      cases hd
    · rw [hok] at hd
      cases hd
      have hc := accepted_of_start hstart
      have hsound := ((sound_start hstart).run hc (before ++ since)).of_eq_ok
        (run_append hbefore hsince)
      obtain ⟨rfl, hroom⟩ :=
        size_of_timeout (hsound.config_eq ▸ hc) hoccasion hsize
      obtain ⟨_, _, -, -, hk, -⟩ := assemble_eq_ok hassemble
      exact ⟨hk, fun hmode => count_assemble hmode hroom hassemble⟩
  · intro hmode hquiet since' g replies' hsince' hquiet' hsame
    have hover := (SidesOver.refl c).run hsince hsince' hquiet hquiet' hsame
    rw [hover.flush hmode htimeout, hdecide]
    rfl

/-- A batch flushed after the back lost everything, and the same flush with
nothing reported before it. -/
theorem timeout_reuses_decision_losing :
    let rates : RateSet := ⟨#[10, 20, 55], by decide, by decide⟩
    let sent (n : Int) (rate : Rate) (status : Status) : Outcome :=
      ⟨⟨n * 1000000⟩, 0, rate, 1000, status⟩
    let query (n : Int) (occasion : Occasion) : Query :=
      ⟨⟨n * 1000000⟩, occasion, 10000, 1000, 0⟩
    let before : List Request :=
      [ .setMode .scoutSequential ⟨0⟩ default
      , .feedBatch .back [sent 1 10 .acked, sent 2 20 .acked]
      , .decide (query 3 .data) ]
    let since : List Request :=
      [ .feedBatch .back [sent 4 20 .naked, sent 5 20 .naked]
      , .setMayDuplicate false
      , .feedBatch .front [sent 5 20 .naked, sent 5 10 .naked] ]
    let since' : List Request := [.setMayDuplicate false]
    let flush := query 6 (.timeout 4)
    ∃ (f₀ c f f' g : Flow rates) (earlier replies replies' : List Reply)
        (d : Decision),
      start rates {} default = .ok f₀ ∧ f₀.run before = .ok (c, earlier)
        ∧ c.run since = .ok (f, replies)
        ∧ f.decide flush = .ok (f', .ok d)
        ∧ f.rate = 20
        ∧ (∃ probes generator baseline?,
          f' = { f with probes, generator, baseline? })
        ∧ d.k = 4 ∧ 4 ≤ d.rates.count f.rate
        ∧ f.mode.baseline? = none ∧ Quiet since ∧ Quiet since'
        ∧ sansReports since' = sansReports since
        ∧ c.run since' = .ok (g, replies') ∧ g.backLoss ≠ f.backLoss
        ∧ Prod.snd <$> g.decide flush = .ok (.ok d) := by
  intro rates sent query before since since' flush
  obtain ⟨f₀, c, earlier, ⟨⟨f, replies⟩, ⟨f', result⟩, ⟨g, replies'⟩⟩,
      hstart, hbefore, hruns, hrate, hmode, hok, hlosses⟩ :=
    exists_step rates {} default before
      (fun c => do
        let p ← c.run since
        return (p, ← p.1.decide flush, ← c.run since'))
      (fun _ p => p.1.1.rate = 20 ∧ p.1.1.mode.baseline? = none
        ∧ p.2.1.2.toOption.isSome = true
        ∧ p.2.2.1.backLoss ≠ p.1.1.backLoss)
      (by decide +kernel)
  obtain ⟨_, hsince, hruns⟩ := bind_eq_ok.1 hruns
  obtain ⟨_, hdecide, hruns⟩ := bind_eq_ok.1 hruns
  obtain ⟨_, hsince', hruns⟩ := bind_eq_ok.1 hruns
  cases hruns
  obtain ⟨d, hd⟩ := Option.isSome_iff_exists.1 hok
  rw [toOption_eq_some_iff] at hd
  obtain rfl : result = .ok d := hd
  have hquiet : Quiet since := by decide
  have hquiet' : Quiet since' := by decide
  have hsame : sansReports since' = sansReports since := rfl
  obtain ⟨hchanges, -, hbatch, hflush⟩ :=
    timeout_reuses_decision hstart hbefore hsince rfl hdecide
  obtain ⟨hk, hcount⟩ := hbatch d rfl
  exact ⟨f₀, c, f, f', g, earlier, replies, replies', d, hstart, hbefore,
    hsince, hdecide, hrate, hchanges, hk, hcount hmode, hmode, hquiet, hquiet',
    hsame, hsince', hlosses,
    hflush hmode hquiet since' g replies' hsince' hquiet' hsame⟩

end LinkAdaptation.Flow
