/-
What the steps of a decision change. Merging changes estimates and the
feasible candidates, choosing the candidate and the baseline, assembling a
batch the probes and the baseline; the windows and the settings stay.

While a mode with a baseline is active, the baseline leads: the first rate
of a batch is drawn from it when the candidate is chosen, and the others
when the batch is laid out. A batch after a timeout has no candidate chosen
for it, so its first rate is the one of the decision before.
-/
import LinkAdaptation.Proofs.Flow.Decision
import LinkAdaptation.Proofs.Selector.Run

namespace LinkAdaptation.Flow

variable {rates : RateSet} {f f' : Flow rates} {b : Baseline rates}
  {query : Query}

-- ========================================================== inversions

theorem scout_eq_ok {now : Instant} (h : f.scout now = .ok f') :
    ∃ losses scoutLoss feasible, f' = { f with scoutLoss, feasible }
      ∧ f.scoutedLosses now = .ok losses
      ∧ f.scoutLoss.replaceAll losses = .ok scoutLoss
      ∧ f.feasibleAt now = .ok feasible := by
  obtain ⟨losses, hlosses, h⟩ := bind_eq_ok.1 h
  obtain ⟨scoutLoss, hreplaced, h⟩ := bind_eq_ok.1 h
  obtain ⟨feasible, hfeasible, h⟩ := bind_eq_ok.1 h
  cases h
  exact ⟨losses, scoutLoss, feasible, rfl, hlosses, hreplaced, hfeasible⟩

theorem merge_eq_ok {now : Instant} (h : f.merge now = .ok f') :
    ∃ scoutLoss feasible combinedLoss,
      f' = { f with scoutLoss, feasible, combinedLoss }
      ∧ (f.mode.merging = .scouted → f.feasibleAt now = .ok feasible) := by
  unfold merge at h
  dsimp only at h
  split at h
  · obtain ⟨f₁, hscout, h⟩ := bind_eq_ok.1 h
    obtain ⟨combinedLoss, -, h⟩ := bind_eq_ok.1 h
    cases h
    obtain ⟨_, scoutLoss, feasible, rfl, -, -, hfeasible⟩ :=
      scout_eq_ok hscout
    exact ⟨scoutLoss, feasible, combinedLoss, rfl, fun _ => hfeasible⟩
  · next hhow =>
      obtain ⟨f₁, hsame, h⟩ := bind_eq_ok.1 h
      obtain ⟨combinedLoss, -, h⟩ := bind_eq_ok.1 h
      cases hsame
      cases h
      exact ⟨f.scoutLoss, f.feasible, combinedLoss, rfl,
        fun h => absurd h hhow⟩

theorem choose_eq_ok {now : Instant} (h : f.choose now = .ok f') :
    ∃ baseline? current, f' = { f with baseline?, current } := by
  unfold choose at h
  split at h
  · split at h
    · obtain ⟨⟨after, rate⟩, -, h⟩ := bind_eq_ok.1 h
      cases h
      exact ⟨some after, _, rfl⟩
    · cases h
      exact ⟨f.baseline?, f.current, rfl⟩
  · split at h
    · cases h
      exact ⟨f.baseline?, f.current, rfl⟩
    · cases h
      exact ⟨f.baseline?, _, rfl⟩

theorem layOut_eq_ok {coded : Nat} {now : Instant} {all : List Rate}
    (h : f.layOut coded now = .ok (f', all)) :
    ∃ baseline?, f' = { f with baseline? } := by
  unfold layOut at h
  split at h
  · split at h
    · obtain ⟨⟨after, rest⟩, -, h⟩ := bind_eq_ok.1 h
      cases h
      exact ⟨some after, rfl⟩
    · cases h
      exact ⟨f.baseline?, rfl⟩
  · split at h <;> cases h <;> exact ⟨f.baseline?, rfl⟩

/-- What assembling does: it finds probes, and lays out the coded packets
with them. -/
theorem assemble_eq_ok {size : BatchSize} {d : Decision}
    (h : f.assemble query size = .ok (f', d)) :
    ∃ probes generator, f.probe d.duplicate = .ok { f with probes, generator }
      ∧ layOut { f with probes, generator } (d.coded size) query.now
        = .ok (f', d.rates)
      ∧ d.k = size.k ∧ d.n = d.rates.length
      ∧ d.duplicate = f.duplicates query.occasion := by
  obtain ⟨f₁, hprobe, h⟩ := bind_eq_ok.1 h
  obtain ⟨⟨f₂, all⟩, hlaid, h⟩ := bind_eq_ok.1 h
  cases h
  obtain ⟨⟨probes, generator⟩, hfound, hprobe'⟩ := bind_eq_ok.1 hprobe
  cases hprobe'
  exact ⟨probes, generator, hprobe, hlaid, rfl, rfl, rfl⟩

/-- Assembling changes the probes, their generator and the baseline. -/
theorem assemble_changes {size : BatchSize} {d : Decision}
    (h : f.assemble query size = .ok (f', d)) :
    ∃ probes generator baseline?,
      f' = { f with probes, generator, baseline? } := by
  obtain ⟨probes, generator, -, hlaid, -⟩ := assemble_eq_ok h
  obtain ⟨baseline?, rfl⟩ := layOut_eq_ok hlaid
  exact ⟨probes, generator, baseline?, rfl⟩

/-- A decision prepares, and then finds out that no batch can be sized, or
assembles one. -/
theorem decide_eq_ok {result : Except Error Decision}
    (h : f.decide query = .ok (f', result)) :
    ∃ f₁, f.prepare query = .ok f₁
      ∧ ((∃ error, result = .error error ∧ f' = f₁
          ∧ f₁.size query = .error (.refused error))
        ∨ ∃ size d, result = .ok d ∧ f₁.size query = .ok size
          ∧ f₁.assemble query size = .ok (f', d)) := by
  obtain ⟨f₁, hprepare, h⟩ := bind_eq_ok.1 h
  refine ⟨f₁, hprepare, ?_⟩
  split at h
  · next error hsize =>
      cases h
      exact .inl ⟨error, rfl, rfl, hsize⟩
  · cases h
  · next size hsize =>
      obtain ⟨⟨f₂, d⟩, hassemble, h⟩ := bind_eq_ok.1 h
      cases h
      exact .inr ⟨size, d, rfl, hsize, hassemble⟩

/-- A decision that merges chooses next, and after that changes only what
assembling does. -/
theorem decide_merged (hoccasion : query.occasion.isTimeout = false)
    {result : Except Error Decision}
    (h : f.decide query = .ok (f', result)) :
    ∃ f₁ f₂ probes generator baseline?, f.merge query.now = .ok f₁
      ∧ f₁.choose query.now = .ok f₂
      ∧ f' = { f₂ with probes, generator, baseline? } := by
  obtain ⟨f₂, hprepare, hresult⟩ := decide_eq_ok h
  unfold prepare at hprepare
  rw [hoccasion] at hprepare
  obtain ⟨f₁, hmerge, hchoose⟩ := bind_eq_ok.1 hprepare
  obtain ⟨_, -, rfl, -⟩ | ⟨_, _, -, -, hassemble⟩ := hresult
  · exact ⟨f₁, _, _, _, _, hmerge, hchoose, rfl⟩
  · obtain ⟨probes, generator, baseline?, rfl⟩ := assemble_changes hassemble
    exact ⟨f₁, f₂, probes, generator, baseline?, hmerge, hchoose, rfl⟩

-- ========================================================= what stays

theorem prepare_same (h : f.prepare query = .ok f') : SameSettings f f' := by
  unfold prepare at h
  split at h
  · cases h
    exact .rfl
  · obtain ⟨f₁, hmerge, hchoose⟩ := bind_eq_ok.1 h
    obtain ⟨_, _, _, rfl, -⟩ := merge_eq_ok hmerge
    obtain ⟨_, _, rfl⟩ := choose_eq_ok hchoose
    exact ⟨rfl, rfl, rfl, rfl, rfl, rfl, rfl, rfl, rfl⟩

theorem assemble_same {size : BatchSize} {d : Decision}
    (h : f.assemble query size = .ok (f', d)) :
    SameSettings f f' ∧ f'.feasible = f.feasible := by
  obtain ⟨_, _, -, hlaid, -⟩ := assemble_eq_ok h
  obtain ⟨_, rfl⟩ := layOut_eq_ok hlaid
  exact ⟨⟨rfl, rfl, rfl, rfl, rfl, rfl, rfl, rfl, rfl⟩, rfl⟩

/-- A decision leaves the windows and the settings alone. -/
theorem decide_same {result : Except Error Decision}
    (h : f.decide query = .ok (f', result)) : SameSettings f f' := by
  obtain ⟨f₁, hprepare, ⟨_, -, rfl, -⟩ | ⟨_, _, -, -, hassemble⟩⟩ :=
    decide_eq_ok h
  · exact prepare_same hprepare
  · exact (prepare_same hprepare).trans (assemble_same hassemble).1

-- ============================================================= leading

/-- A mode with a baseline is active, and this is the baseline. -/
structure Led (f : Flow rates) (b : Baseline rates) : Prop where
  mode : f.mode.baseline?.isSome = true
  baseline : f.baseline? = some b

/-- What a decision answers when it drew rates from the baseline: a batch
after a timeout keeps the rate of the decision before and draws the others;
any other batch is what was drawn. A decision that fails has drawn the rate
that it tried, unless it kept the one before. -/
def Answers (f : Flow rates) (query : Query) (drawn : List Rate) :
    Except Error Decision → Prop
  | .ok d => d.n = d.rates.length
      ∧ d.rates = if query.occasion.isTimeout then f.rate :: drawn else drawn
  | .error _ => drawn.length = if query.occasion.isTimeout then 0 else 1

theorem Led.choose (h : f.Led b) {now : Instant}
    (hchoose : f.choose now = .ok f') :
    ∃ b', f'.Led b' ∧ b.Draws now [f'.rate] b' := by
  unfold Flow.choose at hchoose
  rw [if_pos h.mode, h.baseline] at hchoose
  obtain ⟨⟨b', rate⟩, hselect, hchoose⟩ := bind_eq_ok.1 hchoose
  cases hchoose
  -- the selector names a candidate, so its index is found again
  obtain ⟨i, rfl⟩ := RateSet.mem_toList_iff.1
    ((b.select_upholds now).of_eq_ok hselect)
  refine ⟨b', ⟨h.mode, rfl⟩, ?_⟩
  show b.Draws now [rates.get ((rates.index? (rates.get i)).getD f.current)] b'
  rw [RateSet.index?_eq_some_iff.2 rfl]
  exact Baseline.draws_singleton hselect

theorem Led.prepare (h : f.Led b) (hprepare : f.prepare query = .ok f') :
    ∃ b' drawn, f'.Led b' ∧ b.Draws query.now drawn b'
      ∧ [f'.rate] = if query.occasion.isTimeout then f.rate :: drawn
        else drawn := by
  unfold Flow.prepare at hprepare
  by_cases htimeout : query.occasion.isTimeout = true
  · rw [if_pos htimeout] at hprepare
    cases hprepare
    exact ⟨b, [], h, b.draws_nil query.now, (if_pos htimeout).symm⟩
  · rw [if_neg htimeout] at hprepare
    obtain ⟨f₁, hmerge, hchoose⟩ := bind_eq_ok.1 hprepare
    obtain ⟨scoutLoss, feasible, combinedLoss, rfl, -⟩ := merge_eq_ok hmerge
    have hled₁ : Led { f with scoutLoss, feasible, combinedLoss } b :=
      ⟨h.mode, h.baseline⟩
    obtain ⟨b', hled, hdraws⟩ := hled₁.choose hchoose
    exact ⟨b', [f'.rate], hled, hdraws, (if_neg htimeout).symm⟩

theorem Led.layOut (h : f.Led b) {coded : Nat} {now : Instant}
    {all : List Rate} (hlaid : f.layOut coded now = .ok (f', all)) :
    ∃ b' rest, f'.Led b' ∧ b.Draws now rest b' ∧ all = f.rate :: rest := by
  unfold Flow.layOut at hlaid
  rw [if_pos h.mode, h.baseline] at hlaid
  obtain ⟨⟨b', rest⟩, hselect, hlaid⟩ := bind_eq_ok.1 hlaid
  cases hlaid
  exact ⟨b', rest, ⟨h.mode, rfl⟩, Baseline.draws_selectMany hselect, rfl⟩

theorem Led.assemble (h : f.Led b) {size : BatchSize} {d : Decision}
    (hassemble : f.assemble query size = .ok (f', d)) :
    ∃ b' rest, f'.Led b' ∧ b.Draws query.now rest b'
      ∧ d.rates = f.rate :: rest ∧ d.n = d.rates.length := by
  obtain ⟨probes, generator, -, hlaid, -, hn, -⟩ :=
    assemble_eq_ok hassemble
  have hled : Led { f with probes, generator } b := ⟨h.mode, h.baseline⟩
  obtain ⟨b', rest, hled', hdraws, hrates⟩ := hled.layOut hlaid
  exact ⟨b', rest, hled', hdraws, hrates, hn⟩

/-- A decision is what the baseline that leads it draws. -/
theorem Led.decide (h : f.Led b) {result : Except Error Decision}
    (hdecide : f.decide query = .ok (f', result)) :
    ∃ b' drawn, f'.Led b' ∧ b.Draws query.now drawn b'
      ∧ f.Answers query drawn result := by
  obtain ⟨f₁, hprepare, hresult⟩ := decide_eq_ok hdecide
  obtain ⟨b₁, drawn, hled, hdraws, hfirst⟩ := h.prepare hprepare
  obtain ⟨error, rfl, rfl, -⟩ | ⟨size, d, rfl, -, hassemble⟩ := hresult
  · refine ⟨b₁, drawn, hled, hdraws, ?_⟩
    show drawn.length = if query.occasion.isTimeout then 0 else 1
    split at hfirst
    · next htimeout =>
        rw [(List.cons.inj hfirst).2.symm, if_pos htimeout, List.length_nil]
    · next htimeout =>
        rw [← hfirst, if_neg htimeout, List.length_singleton]
  · obtain ⟨b₂, rest, hled', hdraws', hrates, hn⟩ := hled.assemble hassemble
    refine ⟨b₂, drawn ++ rest, hled', hdraws.append hdraws', hn, ?_⟩
    rw [hrates, ← List.singleton_append, hfirst]
    split <;> rfl

-- ========================================================= not leading

theorem choose_unled (h : f.mode.baseline? = none) {now : Instant}
    (hchoose : f.choose now = .ok f') : f'.baseline? = f.baseline? := by
  unfold choose at hchoose
  rw [if_neg (by simp [h])] at hchoose
  split at hchoose <;> cases hchoose <;> rfl

theorem layOut_unled (h : f.mode.baseline? = none) {coded : Nat}
    {now : Instant} {all : List Rate}
    (hlaid : f.layOut coded now = .ok (f', all)) :
    f'.baseline? = f.baseline? := by
  unfold layOut at hlaid
  rw [if_neg (by simp [h])] at hlaid
  split at hlaid <;> cases hlaid <;> rfl

theorem prepare_unled (h : f.mode.baseline? = none)
    (hprepare : f.prepare query = .ok f') : f'.baseline? = f.baseline? := by
  unfold prepare at hprepare
  split at hprepare
  · cases hprepare
    rfl
  · obtain ⟨f₁, hmerge, hchoose⟩ := bind_eq_ok.1 hprepare
    obtain ⟨scoutLoss, feasible, combinedLoss, rfl, -⟩ := merge_eq_ok hmerge
    exact choose_unled (f := { f with scoutLoss, feasible, combinedLoss }) h
      hchoose

/-- In a mode without a baseline, none is asked. -/
theorem decide_unled (h : f.mode.baseline? = none)
    {result : Except Error Decision}
    (hdecide : f.decide query = .ok (f', result)) :
    f'.baseline? = f.baseline? := by
  obtain ⟨f₁, hprepare, hresult⟩ := decide_eq_ok hdecide
  have hprepared := prepare_unled h hprepare
  have hmode : f₁.mode.baseline? = none := by
    rw [(prepare_same hprepare).mode]
    exact h
  obtain ⟨_, -, rfl, -⟩ | ⟨size, d, -, -, hassemble⟩ := hresult
  · exact hprepared
  · obtain ⟨probes, generator, -, hlaid, -⟩ := assemble_eq_ok hassemble
    exact (layOut_unled (f := { f₁ with probes, generator }) hmode
      hlaid).trans hprepared

end LinkAdaptation.Flow
