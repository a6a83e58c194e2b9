/-
How far above the current candidate a batch probes. The band that probes
come from begins right above the candidate, so a probe lies as far above as
the band is wide at the most: probes in order use no more of it than they
are many, drawn probes use all of it.

A batch that is sent twice has a band of its own, of two candidates. This is
never wider than a configured band of two or more. Only where the
configuration names a single candidate can a drawn probe lie outside of it,
and then it is the one right after.
-/
import LinkAdaptation.Proofs.Batch.Band
import LinkAdaptation.Proofs.Flow.Run
import LinkAdaptation.Proofs.Flow.Sized

namespace LinkAdaptation

variable {rates : RateSet}

-- ========================================================== the probes

namespace Probing

open LinkAdaptation.Random (Generator)

variable {current : rates.Index} {count bound width : Nat}
  {feasible found above : List Rate} {rate : Rate}

/-- A rate is that of a candidate above the current one, by no more places
than a width. -/
def Reaches (current : rates.Index) (width : Nat) (rate : Rate) : Prop :=
  ∃ i : rates.Index, rates.get i = rate ∧ current < i
    ∧ i.val ≤ current.val + width

instance : Decidable (Reaches current width rate) :=
  inferInstanceAs (Decidable (∃ _ : rates.Index, _))

theorem Reaches.mono {width' : Nat} (h : Reaches current width rate)
    (hle : width ≤ width') : Reaches current width' rate := by
  obtain ⟨i, hrate, habove, hnear⟩ := h
  exact ⟨i, hrate, habove, by omega⟩

theorem NextUp.reaches (h : NextUp current width feasible found)
    (hrate : rate ∈ found) : Reaches current width rate := by
  obtain ⟨i, habove, hnear, hget, -⟩ := (h.mem_iff rate).1 hrate
  exact ⟨i, hget, habove, hnear⟩

/-- What a list is filled up with is not above the current candidate. -/
theorem mem_of_mem_fill (habove : rates.get current < rate)
    (hrate : rate ∈ fill count (rates.get (stepDown current)) above) :
    rate ∈ above := by
  rcases List.mem_append.1 hrate with hrate | hrate
  · exact hrate
  · exfalso
    rw [List.eq_of_mem_replicate hrate] at habove
    have hdown : ¬ current.val < (stepDown current).val :=
      Nat.not_lt.2 (Nat.sub_le _ _)
    rcases Nat.lt_or_eq_of_le (Nat.not_lt.1 hdown) with hlt | heq
    · exact UInt16.lt_irrefl _ (UInt16.lt_trans habove
        (RateSet.get_lt_get (i := stepDown current) hlt))
    · rw [Fin.ext heq] at habove
      exact UInt16.lt_irrefl _ habove

/-- The candidates that probes of a kind are taken from. -/
def widthOf (how : Probing) (count bound : Nat) : Nat :=
  match how with
  | off => 0
  | sequential => count
  | random => bound

theorem widthOf_le {how : Probing} (h : count ≤ bound) :
    widthOf how count bound ≤ bound := by
  cases how with
  | off => exact Nat.zero_le _
  | sequential => exact h
  | random => exact Nat.le_refl _

/-- A batch that has probes was to have some. -/
theorem asked_of_probes {how : Probing} {g g' : Generator}
    (h : probes rates how current.val count bound feasible g = .ok (found, g'))
    (hrate : rate ∈ found) : how ≠ off ∧ 0 < count := by
  by_cases hnone : how = off ∨ count = 0
  · unfold probes at h
    rw [if_neg (not_wordMax_le current), if_pos hnone] at h
    cases h
    cases hrate
  · obtain ⟨hhow, hcount⟩ := not_or.1 hnone
    exact ⟨hhow, Nat.pos_of_ne_zero hcount⟩

/-- A probe above the current candidate lies within the band. -/
theorem reaches_of_probes {how : Probing} {g g' : Generator}
    (hbound : count ≤ bound)
    (h : probes rates how current.val count bound feasible g = .ok (found, g'))
    (hrate : rate ∈ found) (habove : rates.get current < rate) :
    Reaches current (widthOf how count bound) rate := by
  obtain ⟨hhow, hcount⟩ := asked_of_probes h hrate
  cases how with
  | off => exact absurd rfl hhow
  | sequential =>
      rw [probes_sequential hcount] at h
      cases h
      exact (nextUp_band current count feasible).reaches
        (mem_of_mem_fill habove hrate)
  | random =>
      obtain ⟨g₁, hfound⟩ := probes_random hcount hbound current feasible g
      rw [hfound] at h
      cases h
      have hdrawn := Generator.chooseMany_subperm
        (band rates (current.val + 1) bound feasible) count g
      exact (nextUp_band current bound feasible).reaches
        (hdrawn.subset (mem_of_mem_fill habove hrate))

end Probing

-- ============================================================ the batch

namespace Flow

open Probing (Reaches widthOf_le asked_of_probes reaches_of_probes)

variable {config : Config} {entropy : Random.Key} {f₀ f f' : Flow rates}
  {query : Query}

/-- How many probes a batch has, and how wide the band is that they are
drawn from. -/
def probeLimits (c : Config) (duplicate : Bool) : Nat × Nat :=
  if duplicate then (min c.probeCount duplicateProbes, duplicateBound)
  else (c.probeCount, c.probeBound)

theorem probeLimits_ordered (hc : config.Accepted) (duplicate : Bool) :
    (probeLimits config duplicate).1 ≤ (probeLimits config duplicate).2 := by
  cases duplicate with
  | true =>
      have hown : duplicateProbes ≤ duplicateBound := by decide
      exact (Nat.min_le_right _ _).trans hown
  | false => exact hc.probeCount_le

/-- A batch has the probes of its limits. -/
theorem probe_eq_ok {duplicate : Bool} (h : f.probe duplicate = .ok f') :
    ∃ probes generator, f' = { f with probes, generator }
      ∧ Probing.probes rates f.mode.probing f.current.val
          (probeLimits f.config duplicate).1 (probeLimits f.config duplicate).2
          f.feasible f.generator
        = .ok (probes, generator) := by
  obtain ⟨⟨probes, generator⟩, hfound, h⟩ := bind_eq_ok.1 h
  cases h
  exact ⟨probes, generator, rfl, hfound⟩

/-- The probes of a batch lie in the configured band; only if that is a
single candidate can one that is drawn for a batch sent twice lie one place
further. -/
theorem reaches_of_probe (hc : f.config.Accepted) {duplicate : Bool}
    (h : f.probe duplicate = .ok f') {rate : Rate} (hrate : rate ∈ f'.probes)
    (habove : f.rate < rate) :
    Reaches f.current f.config.probeBound rate
      ∨ f.config.probeBound = 1 ∧ duplicate = true
        ∧ f.mode.probing = .random ∧ Reaches f.current 2 rate := by
  obtain ⟨found, g, rfl, hfound⟩ := probe_eq_ok h
  have hreach := reaches_of_probes (probeLimits_ordered hc duplicate) hfound
    hrate habove
  have hcount : f.config.probeCount ≤ f.config.probeBound := hc.probeCount_le
  cases duplicate with
  | false => exact .inl (hreach.mono (widthOf_le hcount))
  | true =>
      cases hhow : f.mode.probing with
      | off => exact absurd hhow (asked_of_probes hfound hrate).1
      | sequential =>
          rw [hhow] at hreach
          exact .inl (hreach.mono ((Nat.min_le_left _ _).trans hcount))
      | random =>
          rw [hhow] at hreach
          have hreach : Reaches f.current 2 rate := hreach
          have hasked : 0 < min f.config.probeCount 1 :=
            (asked_of_probes hfound hrate).2
          rcases Nat.lt_or_ge 1 f.config.probeBound with hwide | hnarrow
          · exact .inl (hreach.mono hwide)
          · exact .inr ⟨by omega, rfl, rfl, hreach⟩

-- ========================================================= the decision

theorem layOut_keepsBand (coded : Nat) (now : Instant) :
    Upholds (f.layOut coded now) (fun _ => True) (· ≠ .probesOutOfBand) := by
  unfold layOut
  split
  · split
    · next baseline _ =>
        apply ((baseline.selectMany_upholds now (coded - 1)).weaken ?_).bind
        · intro p _
          exact trivial
        · intro fault hfault
          rw [hfault]
          decide
    · exact trivial
  · split <;> exact trivial

/-- No batch asks for more probes than its band is wide. -/
theorem decide_keepsBand (h : Sound config f) (hc : config.Accepted)
    (query : Query) :
    Upholds (f.decide query) (fun _ => True) (· ≠ .probesOutOfBand) := by
  obtain ⟨rfl, hmeaning⟩ := h
  apply ((prepare_upholds hmeaning query).weaken ?_).bind
  · intro f' hf'
    obtain ⟨hsame, -⟩ := hf'
    have hc' : f'.config.Accepted := by
      rw [hsame.config]
      exact hc
    split
    · exact trivial
    · next fault hsize =>
        have hfault := (size_keeps hc' query).of_eq_error hsize fault rfl
        intro hband
        rw [hband] at hfault
        simp at hfault
    · next size _ =>
        obtain ⟨probes, generator, hprobe⟩ :=
          probe_succeeds hc' (f'.duplicates query.occasion)
        have hassemble : Upholds (f'.assemble query size) (fun _ => True)
            (· ≠ .probesOutOfBand) := by
          unfold assemble
          dsimp only
          rw [hprobe]
          apply (layOut_keepsBand (f := { f' with probes, generator }) _
            query.now).bind
          intro p _
          exact trivial
        apply hassemble.bind
        intro p _
        exact trivial
  · intro fault hfault
    rw [hfault]
    decide

/-- Whatever a flow was asked before, a decision asks for no more probes than
the band is wide that they are drawn from, and every probe that lies above
the current candidate is one of the configured number of candidates right
above it. There is one exception: with a band of a single candidate, a drawn
probe of a batch that is sent twice can be the candidate after that one. -/
theorem probes_within_band {requests : List Request} {replies : List Reply}
    (hstart : start rates config entropy = .ok f₀)
    (hrun : f₀.run requests = .ok (f, replies)) (query : Query) :
    f.decide query ≠ .error .probesOutOfBand
      ∧ ∀ f' d, f.decide query = .ok (f', .ok d) →
        ∀ rate ∈ f'.probes, f'.rate < rate →
          Reaches f'.current config.probeBound rate
            ∨ config.probeBound = 1 ∧ d.duplicate = true
              ∧ f'.mode.probing = .random ∧ Reaches f'.current 2 rate := by
  have hc := accepted_of_start hstart
  have hsound := ((sound_start hstart).run hc requests).of_eq_ok hrun
  constructor
  · intro hfault
    exact (decide_keepsBand hsound hc query).of_eq_error hfault rfl
  · intro f' d hdecide rate hrate habove
    obtain ⟨f₁, hprepare, ⟨_, hrefused, -⟩ | ⟨size, d', hd', -, hassemble⟩⟩ :=
      decide_eq_ok hdecide
    · cases hrefused
    · cases hd'
      obtain ⟨rfl, -⟩ := hsound
      have hconfig : f₁.config = f.config := (prepare_same hprepare).config
      obtain ⟨probes, generator, hprobe, hlaid, -⟩ := assemble_eq_ok hassemble
      obtain ⟨baseline?, rfl⟩ := layOut_eq_ok hlaid
      rw [← hconfig] at hc ⊢
      exact reaches_of_probe hc hprobe hrate habove

/-- Two probes drawn from a band of three candidates. -/
theorem probes_within_band_drawn :
    let rates : RateSet := ⟨#[10, 20, 55, 110, 180], by decide, by decide⟩
    let config : Config := { Config.aggressive with seed := some 0 }
    let requests : List Request :=
      [.setMode .scoutRandom ⟨0⟩ default, .setMayDuplicate false]
    let query : Query := ⟨⟨0⟩, .data, 10000, 1000, 0⟩
    ∃ (f₀ f f' : Flow rates) (replies : List Reply) (d : Decision),
      start rates config default = .ok f₀ ∧ f₀.run requests = .ok (f, replies)
        ∧ f.decide query = .ok (f', .ok d)
        ∧ f'.probes = [110, 55] ∧ f'.rate = 10
        ∧ f.decide query ≠ .error .probesOutOfBand
        ∧ ∀ rate ∈ f'.probes, f'.rate < rate →
          Reaches f'.current config.probeBound rate
            ∨ config.probeBound = 1 ∧ d.duplicate = true
              ∧ f'.mode.probing = .random ∧ Reaches f'.current 2 rate := by
  intro rates config requests query
  obtain ⟨f₀, f, replies, ⟨f', result⟩, hstart, hrun, hdecide, hdecided,
      hprobes, hrate⟩ :=
    exists_step rates config default requests (·.decide query)
      (fun _ p => p.2.isOk = true ∧ p.1.probes = [110, 55] ∧ p.1.rate = 10)
      (by decide +kernel)
  obtain ⟨d, rfl⟩ : ∃ d, result = .ok d := by
    cases result with
    | error error => cases hdecided
    | ok d => exact ⟨d, rfl⟩
  obtain ⟨hasked, hwithin⟩ := probes_within_band hstart hrun query
  exact ⟨f₀, f, f', replies, d, hstart, hrun, hdecide, hprobes, hrate, hasked,
    hwithin f' d hdecide⟩

/-- A band of a single candidate, and a batch that is sent twice before
anything is known: the probe is the second candidate above. -/
theorem probe_beyond_band :
    let rates : RateSet := ⟨#[10, 20, 55], by decide, by decide⟩
    let config : Config := { probeBound := 1, seed := some 0 }
    let requests : List Request := [.setMode .scoutRandom ⟨0⟩ default]
    let query : Query := ⟨⟨0⟩, .data, 10000, 1000, 0⟩
    ∃ (f₀ f f' : Flow rates) (replies : List Reply) (d : Decision),
      start rates config default = .ok f₀ ∧ f₀.run requests = .ok (f, replies)
        ∧ f.decide query = .ok (f', .ok d)
        ∧ d.duplicate = true ∧ f'.probes = [55] ∧ f'.rate < 55
        ∧ ¬ Reaches f'.current config.probeBound 55 := by
  intro rates config requests query
  obtain ⟨f₀, f, replies, ⟨f', result⟩, hstart, hrun, hdecide, hdecided,
      hprobes, habove, hbeyond⟩ :=
    exists_step rates config default requests (·.decide query)
      (fun _ p => p.2.toOption.map (·.duplicate) = some true
        ∧ p.1.probes = [55] ∧ p.1.rate < 55
        ∧ ¬ Reaches p.1.current config.probeBound 55)
      (by decide +kernel)
  obtain ⟨d, hd, hduplicate⟩ := Option.map_eq_some_iff.1 hdecided
  rw [toOption_eq_some_iff] at hd
  obtain rfl : result = .ok d := hd
  exact ⟨f₀, f, f', replies, d, hstart, hrun, hdecide, hduplicate, hprobes,
    habove, hbeyond⟩

end Flow

end LinkAdaptation
