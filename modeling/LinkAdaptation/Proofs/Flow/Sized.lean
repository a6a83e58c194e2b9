/-
Decisions end. An accepted configuration is enough for a decision to find
its way: the estimates are merged, a candidate is chosen, the batch is sized
or refused for the reason that belongs to its occasion, and its probes are
found. The modes that go by a baseline are left aside; what a baseline
selects is counted by counters of its own.

Two things can still stop a decision, and neither is checked when a flow is
set up. A window can hold more outcomes than a counter can count. And the
numbers of packets are computed in signed words and in doubles, so a limit
that uses the sign bit, or a flush of more packets than doubles can count,
is not the number that the configuration names.
-/
import LinkAdaptation.Proofs.Flow.Told

namespace LinkAdaptation

/-- The refusals of a batch that cannot be sized. -/
def Query.Refuses (query : Query) (error : Error) : Prop :=
  match query.occasion with
  | .data => ∃ packetUs, error = .coherenceTooShort query.coherenceUs packetUs
  | .timeout k | .retransmission k => ∃ most, error = .invalidBatch k most

namespace Flow

variable {rates : RateSet} {config : Config} {entropy : Random.Key}
  {f₀ f f' : Flow rates}
  {query : Query}

/-- Every window holds fewer outcomes than a counter can count. -/
def HasRoom (f : Flow rates) : Prop :=
  ∀ vantage, (f.window vantage).records.length < counterLimit

/-- The packets of a coded batch can be computed with: the limit of fresh
data is spelled without a sign, and a flush has no more packets than doubles
can count. Packets that are sent again are never too many. -/
def Countable (f : Flow rates) (query : Query) : Prop :=
  f.useCoding = true →
    match query.occasion with
    | .data => f.config.maxK < 9223372036854775808
    | .timeout k => k ≤ f.config.maxK → k ≤ 9007199254740992
    | .retransmission _ => True

-- ========================================================== preparing

theorem scoutedLosses_succeeds (h : f.HasRoom) (now : Instant) :
    ∃ losses, f.scoutedLosses now = .ok losses := by
  unfold scoutedLosses
  split
  · next start stop _ =>
      obtain ⟨table?, htally, -⟩ :=
        (Window.tally?_succeeds (h .front) start stop).exists_ok
      have htally : f.front.tally? start stop = .ok table? := htally
      rw [htally]
      cases table? <;> exact ⟨_, rfl⟩
  · exact ⟨_, rfl⟩

theorem feasibleAt_succeeds (h : f.HasRoom) (now : Instant) :
    ∃ feasible, f.feasibleAt now = .ok feasible := by
  obtain ⟨table?, htally, -⟩ := (Window.tally?_succeeds (h .back)
    ((now.sub? f.config.backWindow).getD now) now).exists_ok
  exact ⟨_, bind_eq_ok.2 ⟨_, bind_eq_ok.2 ⟨table?, htally, rfl⟩, rfl⟩⟩

theorem scout_succeeds (h : f.HasRoom) (hmeaning : f.Meaningful)
    (now : Instant) : ∃ f', f.scout now = .ok f' := by
  obtain ⟨losses, hlosses⟩ := scoutedLosses_succeeds h now
  obtain ⟨m, hm, -⟩ := (hmeaning .scout).replaceAll
    ((f.scoutedLosses_upholds now).of_eq_ok hlosses)
  obtain ⟨feasible, hfeasible⟩ := feasibleAt_succeeds h now
  exact ⟨_, bind_eq_ok.2 ⟨losses, hlosses, bind_eq_ok.2 ⟨m, hm,
    bind_eq_ok.2 ⟨feasible, hfeasible, rfl⟩⟩⟩⟩

theorem merge_succeeds (h : f.HasRoom) (hmeaning : f.Meaningful)
    (now : Instant) : ∃ f', f.merge now = .ok f' := by
  unfold merge
  dsimp only
  split
  · obtain ⟨f₁, hscout⟩ := scout_succeeds h hmeaning now
    have hmeaning₁ := ((scout_upholds hmeaning now).of_eq_ok hscout).2
    obtain ⟨m, hm, -⟩ := hmeaning₁.replaceMerged f.mode.merging
    exact ⟨_, bind_eq_ok.2 ⟨f₁, hscout, bind_eq_ok.2 ⟨m, hm, rfl⟩⟩⟩
  · obtain ⟨m, hm, -⟩ := hmeaning.replaceMerged f.mode.merging
    exact ⟨_, bind_eq_ok.2 ⟨f, rfl, bind_eq_ok.2 ⟨m, hm, rfl⟩⟩⟩

theorem choose_succeeds (hmode : f.mode.baseline? = none) (now : Instant) :
    ∃ f', f.choose now = .ok f' := by
  unfold choose
  rw [hmode]
  split
  · contradiction
  · split <;> exact ⟨_, rfl⟩

/-- With room in the counters, a decision gets to its candidate. -/
theorem prepare_succeeds (h : f.HasRoom) (hmeaning : f.Meaningful)
    (hmode : f.mode.baseline? = none) (query : Query) :
    ∃ f', f.prepare query = .ok f' := by
  unfold prepare
  split
  · exact ⟨f, rfl⟩
  · obtain ⟨f₁, hmerge⟩ := merge_succeeds h hmeaning query.now
    have hsame := ((merge_upholds hmeaning query.now).of_eq_ok hmerge).1
    obtain ⟨f₂, hchoose⟩ := choose_succeeds (f := f₁)
      (by rw [hsame.mode]; exact hmode) query.now
    exact ⟨f₂, bind_eq_ok.2 ⟨f₁, hmerge, hchoose⟩⟩

-- ============================================================= sizing

/-- A batch is sized, or refused for the reason of its occasion. -/
theorem size_succeeds (hc : f.config.Accepted)
    (hword : f.config.fieldSize ≤ wordMax) (hmeaning : f.Meaningful)
    (hcount : f.Countable query) :
    (∃ size, f.size query = .ok size)
      ∨ ∃ error, f.size query = .error (.refused error)
        ∧ query.Refuses error := by
  have hs := sizer_roomy hc
  have hl := hmeaning .combined f.current
  have hfield : f.sizer.fieldSize ≤ wordMax := (Nat.sub_le _ _).trans hword
  unfold size Query.Refuses
  unfold Countable at hcount
  dsimp only
  cases hoccasion : query.occasion with
  | data =>
      rw [hoccasion] at hcount
      by_cases hroom : Sizer.fit query.coherenceUs
          (packetTime f.rate query.packetSize query.overheadUs) = 0
      · exact .inr ⟨_, Sizer.data_refused hroom .., _, rfl⟩
      · exact .inl (Sizer.data_ok hs hcount hl hroom)
  | timeout k =>
      rw [hoccasion] at hcount
      by_cases hlimits : k = 0 ∨ f.sizer.maxK < k
      · exact .inr ⟨_, Sizer.timeout_refused hlimits _, _, rfl⟩
      · have hle : k ≤ f.sizer.maxK := by omega
        exact .inl (Sizer.timeout_ok hs hfield hl (by omega) hle
          fun coding => hcount coding hle)
  | retransmission k =>
      by_cases hlimits : k = 0 ∨ min (Sizer.fit query.coherenceUs
          (packetTime f.rate query.packetSize query.overheadUs))
            f.sizer.fieldSize < k ∨ f.sizer.maxK < k
      · exact .inr ⟨_, Sizer.retransmission_refused hlimits _, _, rfl⟩
      · exact .inl (Sizer.retransmission_ok hl (by omega) (by omega)
          (by omega))

-- =========================================================== assembling

theorem probe_succeeds (hc : f.config.Accepted) (duplicate : Bool) :
    ∃ probes generator, f.probe duplicate = .ok { f with probes, generator } := by
  have hcount : f.config.probeCount ≤ f.config.probeBound := hc.probeCount_le
  cases duplicate with
  | true =>
      have hfew : min f.config.probeCount duplicateProbes ≤ duplicateBound :=
        (Nat.min_le_right _ _).trans (by decide)
      obtain ⟨p, hp⟩ := Probing.probes_succeed f.mode.probing hfew f.current
        f.feasible f.generator
      exact ⟨p.1, p.2, bind_eq_ok.2 ⟨p, hp, rfl⟩⟩
  | false =>
      obtain ⟨p, hp⟩ := Probing.probes_succeed f.mode.probing hcount f.current
        f.feasible f.generator
      exact ⟨p.1, p.2, bind_eq_ok.2 ⟨p, hp, rfl⟩⟩

theorem layOut_succeeds (hmode : f.mode.baseline? = none) (coded : Nat)
    (now : Instant) : ∃ p, f.layOut coded now = .ok p := by
  unfold layOut
  rw [hmode]
  split
  · contradiction
  · split <;> exact ⟨_, rfl⟩

theorem assemble_succeeds (hc : f.config.Accepted)
    (hmode : f.mode.baseline? = none) (query : Query) (size : BatchSize) :
    ∃ p, f.assemble query size = .ok p := by
  obtain ⟨probes, generator, hprobe⟩ :=
    probe_succeeds hc (f.duplicates query.occasion)
  obtain ⟨p, hlaid⟩ := layOut_succeeds (f := { f with probes, generator }) hmode
    (if f.duplicates query.occasion then size.k else size.n) query.now
  exact ⟨_, bind_eq_ok.2 ⟨_, hprobe, bind_eq_ok.2 ⟨p, hlaid, rfl⟩⟩⟩

-- =========================================================== decisions

/-- A decision that gets to its candidate ends with a batch or a refusal. -/
theorem decide_of_prepare (hc : f.config.Accepted)
    (hword : f.config.fieldSize ≤ wordMax) (hmode : f.mode.baseline? = none)
    (hcount : f.Countable query) (hmeaning : f.Meaningful)
    (hprepare : f.prepare query = .ok f') :
    ∃ after result, f.decide query = .ok (after, result)
      ∧ ∀ error, result = .error error → query.Refuses error := by
  obtain ⟨hsame, hmeaning'⟩ :=
    (prepare_upholds hmeaning query).of_eq_ok hprepare
  have hc' : f'.config.Accepted := by
    rw [hsame.config]
    exact hc
  have hcount' : f'.Countable query := by
    unfold Countable
    rw [hsame.useCoding, hsame.config]
    exact hcount
  rcases size_succeeds hc' (by rw [hsame.config]; exact hword) hmeaning'
    hcount' with ⟨size, hsize⟩ | ⟨error, hsize, hrefuses⟩
  · obtain ⟨⟨after, d⟩, hassemble⟩ := assemble_succeeds hc'
      (by rw [hsame.mode]; exact hmode) query size
    refine ⟨after, .ok d, bind_eq_ok.2 ⟨f', hprepare, ?_⟩, nofun⟩
    rw [hsize]
    exact bind_eq_ok.2 ⟨_, hassemble, rfl⟩
  · refine ⟨f', .error error, bind_eq_ok.2 ⟨f', hprepare, ?_⟩, ?_⟩
    · rw [hsize]
      rfl
    · intro other hother
      cases hother
      exact hrefuses

/-- Whatever a flow was asked before, a decision in a mode without a
baseline ends with a batch or with the refusal of its occasion, as long as
its packets can be computed with. Only a window of more outcomes than can be
counted stops it. -/
theorem decisions_end {requests : List Request} {replies : List Reply}
    (hstart : start rates config entropy = .ok f₀)
    (hrun : f₀.run requests = .ok (f, replies))
    (hword : config.fieldSize ≤ wordMax) (hmode : f.mode.baseline? = none)
    (hcount : f.Countable query) :
    (∃ after result, f.decide query = .ok (after, result)
        ∧ ∀ error, result = .error error → query.Refuses error)
      ∨ (f.decide query = .error .counterOverflow ∧ ¬ f.HasRoom) := by
  have hc := accepted_of_start hstart
  obtain ⟨rfl, hmeaning⟩ := ((sound_start hstart).run hc requests).of_eq_ok hrun
  cases hprepare : f.prepare query with
  | ok f' => exact .inl (decide_of_prepare hc hword hmode hcount hmeaning hprepare)
  | error fault =>
      right
      have hfault : fault = .counterOverflow :=
        (prepare_upholds hmeaning query).of_eq_error hprepare
      refine ⟨?_, ?_⟩
      · unfold Flow.decide
        rw [hprepare, hfault]
        rfl
      · intro hroom
        obtain ⟨f', h⟩ := prepare_succeeds hroom hmeaning hmode query
        cases hprepare.symm.trans h

/-- The widest limits that fresh data can be computed with, after the back
antenna reported a loss. -/
theorem decisions_end_widest :
    let rates : RateSet := ⟨#[10, 20], by decide, by decide⟩
    let config : Config :=
      { fieldSize := 18446744073709551615, maxK := 9223372036854775807 }
    let requests : List Request :=
      [.feedBatch .back [⟨⟨0⟩, 0, 10, 1000, .acked⟩, ⟨⟨1⟩, 0, 10, 1000, .naked⟩]]
    let query : Query := ⟨⟨1000000⟩, .data, 100000, 1000, 0⟩
    ∃ (f₀ f : Flow rates) (replies : List Reply),
      start rates config default = .ok f₀ ∧ f₀.run requests = .ok (f, replies)
        ∧ config.fieldSize ≤ wordMax ∧ f.mode.baseline? = none
        ∧ f.Countable query
        ∧ ((∃ after result, f.decide query = .ok (after, result)
            ∧ ∀ error, result = .error error → query.Refuses error)
          ∨ (f.decide query = .error .counterOverflow ∧ ¬ f.HasRoom)) := by
  intro rates config requests query
  obtain ⟨f₀, f, replies, _, hstart, hrun, -, hmode, hmaxK⟩ :=
    exists_step rates config default requests (fun f => f.decide query)
      (fun f _ => f.mode.baseline? = none
        ∧ f.config.maxK < 9223372036854775808)
      (by decide +kernel)
  have hword : config.fieldSize ≤ wordMax := by decide
  have hcount : f.Countable query := fun _ => hmaxK
  exact ⟨f₀, f, replies, hstart, hrun, hword, hmode, hcount,
    decisions_end hstart hrun hword hmode hcount⟩

/-- One data packet more, and the limit is read as the least of the signed
words: the configuration is accepted, and the first batch of fresh data
breaks the bounds of its size. -/
theorem decision_broken :
    let rates : RateSet := ⟨#[10], by decide, by decide⟩
    let config : Config :=
      { fieldSize := 18446744073709551615, maxK := 9223372036854775808 }
    let query : Query := ⟨⟨0⟩, .data, 10000, 1000, 0⟩
    ∃ f₀ : Flow rates, start rates config default = .ok f₀
      ∧ config.fieldSize ≤ wordMax ∧ f₀.mode.baseline? = none
      ∧ f₀.decide query = .error .sizeOutOfBounds := by
  intro rates config query
  obtain ⟨f₀, _, _, _, hstart, hrun, -, hmode, hbroken⟩ :=
    exists_step rates config default [] (fun f => .ok f)
      (fun f _ => f.mode.baseline? = none
        ∧ f.decide query = .error .sizeOutOfBounds)
      (by decide +kernel)
  cases hrun
  exact ⟨f₀, hstart, by decide, hmode, hbroken⟩

end Flow

end LinkAdaptation
