/-
What a decision hands out. Before the batch is sized, the estimates are
merged and a candidate is chosen; after that only the probes, their
generator and the baseline change. So the size of the batch can be read off
the flow that the decision leaves, and the rates of the packets are those
of the coded packets and of the probes it leaves.

The configuration keeps room for the probes: a coded batch fits the field
without them, and with them it fits the whole field.
-/
import LinkAdaptation.Flow.Decision
import LinkAdaptation.Proofs.Batch.Probe
import LinkAdaptation.Proofs.Batch.Size
import LinkAdaptation.Proofs.Flow.Feedback
import Mathlib.Data.List.Sort

namespace LinkAdaptation

/-- The packets of a batch that are not probes. A batch that is sent twice
has no redundancy. -/
def Decision.coded (d : Decision) (size : BatchSize) : Nat :=
  if d.duplicate then size.k else size.n

/-- Sorted rates ascend. -/
theorem ascending_mergeSort (l : List Rate) :
    (l.mergeSort (· ≤ ·)).Pairwise (· ≤ ·) := by
  have htrans : ∀ a b c : Rate, decide (a ≤ b) = true →
      decide (b ≤ c) = true → decide (a ≤ c) = true := by
    intro a b c hab hbc
    rw [decide_eq_true_iff] at hab hbc ⊢
    exact UInt16.le_trans hab hbc
  have htotal : ∀ a b : Rate,
      (decide (a ≤ b) || decide (b ≤ a)) = true := by
    intro a b
    rw [Bool.or_eq_true, decide_eq_true_iff, decide_eq_true_iff]
    exact UInt16.le_total a b
  exact (List.pairwise_mergeSort htrans htotal l).imp of_decide_eq_true

namespace Flow

variable {rates : RateSet} {config : Config} {f f' : Flow rates}

-- ============================================================= merging

/-- The settings are the same, and all estimates are estimates. -/
def Keeps (f f' : Flow rates) : Prop := SameSettings f f' ∧ f'.Meaningful

theorem scoutedLosses_upholds (f : Flow rates) (now : Instant) :
    Upholds (f.scoutedLosses now)
      (fun losses => ∀ i, isEstimate (losses.get i) = true)
      (· = .counterOverflow) := by
  unfold scoutedLosses
  split
  · apply (f.front.tally?_sound _ _).bind
    intro table? htable
    cases table? with
    | none => exact LossMap.isEstimate_fill_unknown
    | some table => exact LossMap.isEstimate_map_loss (htable table rfl)
  · exact LossMap.isEstimate_fill_unknown

theorem feasibleAt_upholds (f : Flow rates) (now : Instant) :
    Upholds (f.feasibleAt now) (fun _ => True) (· = .counterOverflow) := by
  have hfeasible (start stop : Instant) :
      Upholds (f.back.feasible? start stop) (fun _ => True)
        (· = .counterOverflow) :=
    (f.back.tally?_sound start stop).bind fun _ _ => trivial
  apply (hfeasible _ _).bind
  intro feasible? _
  exact trivial

theorem scout_upholds (h : f.Meaningful) (now : Instant) :
    Upholds (f.scout now) (Keeps f) (· = .counterOverflow) := by
  apply (f.scoutedLosses_upholds now).bind
  intro losses hlosses
  obtain ⟨m, hm, hmeaning⟩ := (h .scout).replaceAll hlosses
  have hm : f.scoutLoss.replaceAll losses = .ok m := hm
  rw [hm]
  apply (f.feasibleAt_upholds now).bind
  intro feasible _
  refine ⟨⟨rfl, rfl, rfl, rfl, rfl, rfl, rfl, rfl, rfl⟩, ?_⟩
  intro view
  cases view with
  | front => exact h .front
  | back => exact h .back
  | scout => exact hmeaning
  | combined => exact h .combined

theorem isEstimate_mergedLoss (h : f.Meaningful) (how : Merging)
    (i : rates.Index) : isEstimate (f.mergedLoss how i) = true := by
  cases how with
  | frontOnly => exact h .front i
  | backOnly => exact h .back i
  | delayed => exact isEstimate_mergeLosses (h .front i) (h .back i)
  | scouted =>
      exact isEstimate_mergeLosses
        (isEstimate_maxNum (h .scout i) (h .front i)) (h .back i)

/-- The merged losses are stored. -/
theorem Meaningful.replaceMerged (h : f.Meaningful) (how : Merging) :
    ∃ m, f.combinedLoss.replaceAll (Vector.ofFn (f.mergedLoss how)) = .ok m
      ∧ m.Meaningful := by
  have hmerged : ∀ i, isEstimate (Table.get
      (Vector.ofFn (f.mergedLoss how)) i) = true := by
    intro i
    rw [Table.get_ofFn]
    exact isEstimate_mergedLoss h how i
  exact (h .combined).replaceAll hmerged

theorem merge_upholds (h : f.Meaningful) (now : Instant) :
    Upholds (f.merge now) (Keeps f) (· = .counterOverflow) := by
  have hstore : ∀ f' : Flow rates, Keeps f f' →
      Upholds (do
        let combinedLoss ← f'.combinedLoss.replaceAll
          (Vector.ofFn (f'.mergedLoss f.mode.merging))
        return { f' with combinedLoss } : Checked (Flow rates))
        (Keeps f) (· = .counterOverflow) := by
    intro f' hf'
    obtain ⟨hsame, h'⟩ := hf'
    obtain ⟨m, hm, hmeaning⟩ := h'.replaceMerged f.mode.merging
    rw [hm]
    refine ⟨hsame.trans ⟨rfl, rfl, rfl, rfl, rfl, rfl, rfl, rfl, rfl⟩, ?_⟩
    intro view
    cases view with
    | front => exact h' .front
    | back => exact h' .back
    | scout => exact h' .scout
    | combined => exact hmeaning
  unfold merge
  dsimp only
  split
  · exact (scout_upholds h now).bind hstore
  · exact hstore f ⟨.rfl, h⟩

theorem choose_upholds (h : f.Meaningful) (now : Instant) :
    Upholds (f.choose now) (Keeps f) (· = .counterOverflow) := by
  unfold choose
  split
  · split
    · next baseline _ =>
        apply (baseline.select_upholds now).bind
        intro p _
        exact ⟨⟨rfl, rfl, rfl, rfl, rfl, rfl, rfl, rfl, rfl⟩, h⟩
    · exact ⟨.rfl, h⟩
  · split
    · exact ⟨.rfl, h⟩
    · exact ⟨⟨rfl, rfl, rfl, rfl, rfl, rfl, rfl, rfl, rfl⟩, h⟩

theorem prepare_upholds (h : f.Meaningful) (query : Query) :
    Upholds (f.prepare query) (Keeps f) (· = .counterOverflow) := by
  unfold prepare
  split
  · exact ⟨.rfl, h⟩
  · apply (merge_upholds h query.now).bind
    intro f' hf'
    obtain ⟨hsame, h'⟩ := hf'
    apply (choose_upholds h' query.now).imp
    intro f'' hf''
    obtain ⟨hsame', h''⟩ := hf''
    exact ⟨hsame.trans hsame', h''⟩

-- ============================================================== sizing

/-- An accepted configuration leaves room for redundancy. -/
theorem sizer_roomy (hc : f.config.Accepted) : f.sizer.Roomy :=
  ⟨hc.maxK_pos, hc.maxK_lt⟩

theorem size_keeps (hc : f.config.Accepted) (query : Query) :
    Upholds (f.size query) (f.sizer.Keeps f.config.codedField)
      Sizer.Expected := by
  unfold size
  dsimp only
  split
  · exact Sizer.data_keeps (sizer_roomy hc) _ _ _
  · next k _ =>
      exact (Sizer.timeout_keeps (sizer_roomy hc) _ k).imp fun _ h => h.2
  · next k _ =>
      apply (Sizer.retransmission_keeps f.sizer _ k _ _).imp
      intro size hsize
      obtain ⟨-, hk⟩ := hsize
      exact ⟨hk.k_pos, hk.k_le, hk.k_le_n,
        hk.n_le.trans (Nat.min_le_right _ _), hk.plain⟩

-- ============================================================== layout

/-- What the probes of a batch are. -/
structure Probed (f : Flow rates) (duplicate : Bool) (probes : List Rate) :
    Prop where
  length_le : probes.length ≤ f.config.probeCount
  few : duplicate = true → probes.length ≤ 1
  candidates : ∀ rate ∈ probes, rate ∈ rates.toList
  off : f.mode.probing = .off → probes = []

theorem probe_upholds (f : Flow rates) (duplicate : Bool) :
    Upholds (f.probe duplicate)
      (fun f' => ∃ probes generator, f' = { f with probes, generator }
        ∧ f.Probed duplicate probes) Fault.NotLoss := by
  have hfound (count bound : Nat) (hcount : count ≤ f.config.probeCount)
      (hfew : duplicate = true → count ≤ 1) :
      Upholds (Probing.probes rates f.mode.probing f.current.val count bound
          f.feasible f.generator)
        (fun p => f.Probed duplicate p.1) Fault.NotLoss := by
    apply (Probing.probes_upholds _ _ _ _ _).mono
    · intro p hp
      obtain ⟨hlength, hcandidates, hoff⟩ := hp
      exact ⟨hlength.trans hcount, fun hdup => hlength.trans (hfew hdup),
        hcandidates, hoff⟩
    · intro fault hfault hloss
      rw [hloss] at hfault
      revert hfault
      decide
  cases duplicate with
  | true =>
      exact (hfound (min f.config.probeCount duplicateProbes) duplicateBound
        (Nat.min_le_left _ _) fun _ => Nat.min_le_right _ _).bind
        fun p hp => ⟨p.1, p.2, rfl, hp⟩
  | false =>
      exact (hfound f.config.probeCount f.config.probeBound (Nat.le_refl _)
        nofun).bind fun p hp => ⟨p.1, p.2, rfl, hp⟩

/-- The modes without probes. -/
def plainModes : List Mode := [.fixed, .sampleRate, .rraa]

theorem probing_off_iff (mode : Mode) :
    mode.probing = .off ↔ mode ∈ plainModes := by
  cases mode <;> decide

theorem merging_of_plain {mode : Mode} (h : mode ∈ plainModes) :
    mode.merging = .backOnly := by
  revert h
  cases mode <;> decide

/-- What the rates of a batch of `coded` packets are. -/
structure LaidOut (f : Flow rates) (coded : Nat) (all : List Rate) :
    Prop where
  length : all.length = coded + f.probes.length
  candidates : ∀ rate ∈ all, rate ∈ rates.toList
  sorted : f.mode ∉ plainModes → all.Pairwise (· ≤ ·)
    ∧ all.Perm (List.replicate coded f.rate ++ f.probes)

theorem layOut_upholds {coded : Nat} (hcoded : 1 ≤ coded) (now : Instant)
    (hprobes : ∀ rate ∈ f.probes, rate ∈ rates.toList)
    (hoff : f.mode ∈ plainModes → f.probes = []) :
    Upholds (f.layOut coded now)
      (fun p => (∃ baseline?, p.1 = { f with baseline? })
        ∧ p.1.LaidOut coded p.2) Fault.NotLoss := by
  have hrate : f.rate ∈ rates.toList := RateSet.get_mem _
  have hplain (n : Nat) :
      ∀ rate ∈ List.replicate n f.rate, rate ∈ rates.toList := by
    intro rate h
    rw [List.eq_of_mem_replicate h]
    exact hrate
  unfold layOut
  split
  · next hbase =>
      have hmode : f.mode ∈ plainModes := by
        revert hbase
        cases f.mode <;> decide
      split
      · next baseline _ =>
          apply ((baseline.selectMany_upholds now (coded - 1)).weaken
            Fault.notLoss_of_counter).bind
          intro p hp
          refine ⟨⟨_, rfl⟩, ?_, List.forall_mem_cons.2 ⟨hrate, hp.2⟩,
            fun h => absurd hmode h⟩
          show p.2.length + 1 = coded + f.probes.length
          rw [hp.1, hoff hmode, List.length_nil]
          omega
      · refine ⟨⟨f.baseline?, rfl⟩, ?_, hplain _, fun h => absurd hmode h⟩
        show (List.replicate (max coded 1) f.rate).length
          = coded + f.probes.length
        rw [hoff hmode, List.length_nil, List.length_replicate]
        omega
  · split
    · next hbase hfixed =>
        have hmode : f.mode ∈ plainModes := by
          rw [hfixed]
          decide
        refine ⟨⟨f.baseline?, rfl⟩, ?_, hplain _, fun h => absurd hmode h⟩
        show (List.replicate coded f.rate).length = coded + f.probes.length
        rw [hoff hmode, List.length_nil, List.length_replicate]
        omega
    · have hperm := List.mergeSort_perm
        (List.replicate coded f.rate ++ f.probes) (· ≤ ·)
      refine ⟨⟨f.baseline?, rfl⟩, ?_, ?_, ?_⟩
      · show ((List.replicate coded f.rate ++ f.probes).mergeSort (· ≤ ·)).length
          = coded + f.probes.length
        rw [hperm.length_eq, List.length_append, List.length_replicate]
      · intro rate h
        rcases List.mem_append.1 (hperm.mem_iff.1 h) with h | h
        · exact hplain _ rate h
        · exact hprobes rate h
      · intro _
        exact ⟨ascending_mergeSort _, hperm⟩

-- =========================================================== decisions

/-- What a decision is, next to the flow that it leaves and the size of its
batch. -/
structure WellFormed (f : Flow rates) (size : BatchSize) (d : Decision) :
    Prop where
  k_eq : d.k = size.k
  n_eq : d.n = d.rates.length
  k_pos : 1 ≤ d.k
  k_le : d.k ≤ f.config.maxK
  k_le_n : d.k ≤ d.n
  n_le : d.n ≤ f.config.fieldSize
  candidates : ∀ rate ∈ d.rates, rate ∈ rates.toList
  plain : f.mode ∈ plainModes → f.probes = [] ∧ d.n = d.coded size
  goodput : f.mode ∉ plainModes → d.rates.Pairwise (· ≤ ·)
    ∧ d.rates.Perm (List.replicate (d.coded size) f.rate ++ f.probes)
    ∧ (d.duplicate = true → f.probes.length ≤ 1)

/-- A size within its limits becomes a decision within its own. -/
theorem assemble_upholds (hc : f.config.Accepted) (query : Query)
    {size : BatchSize} (hsize : f.sizer.Keeps f.config.codedField size) :
    Upholds (f.assemble query size)
      (fun p => (∃ probes generator baseline?,
          p.1 = { f with probes, generator, baseline? })
        ∧ p.1.WellFormed size p.2) Fault.NotLoss := by
  obtain ⟨hk, hkm, hkn, hn, -⟩ := hsize
  unfold assemble
  generalize f.duplicates query.occasion = duplicate
  apply (f.probe_upholds duplicate).bind
  intro f' hf'
  obtain ⟨probes, generator, rfl, hcount, hfew, hcandidates, hoff⟩ := hf'
  generalize hcoded : (if duplicate = true then size.k else size.n) = coded
  have hbounds : size.k ≤ coded ∧ coded ≤ f.config.codedField := by
    rw [← hcoded]
    split
    · exact ⟨Nat.le_refl _, hkn.trans hn⟩
    · exact ⟨hkn, hn⟩
  have hplain : f.mode ∈ plainModes → probes = [] := by
    intro h
    exact hoff ((probing_off_iff f.mode).2 h)
  apply (layOut_upholds (f := { f with probes, generator })
    (hk.trans hbounds.1) query.now hcandidates hplain).bind
  intro p hp
  obtain ⟨f'', all⟩ := p
  obtain ⟨⟨baseline?, rfl⟩, hlength, hall, hsorted⟩ := hp
  have hlength : all.length = coded + probes.length := hlength
  have hfield : coded + probes.length ≤ f.config.fieldSize := by
    have hroom := hc.maxK_lt
    have hfield := hbounds.2
    unfold Config.codedField at hroom hfield
    omega
  refine ⟨⟨probes, generator, baseline?, rfl⟩, rfl, rfl, hk, hkm, ?_, ?_, hall,
    ?_, ?_⟩
  · show size.k ≤ all.length
    omega
  · show all.length ≤ f.config.fieldSize
    omega
  · intro h
    refine ⟨hplain h, ?_⟩
    show all.length = if duplicate = true then size.k else size.n
    rw [hlength, hplain h, hcoded]
    rfl
  · intro h
    obtain ⟨hascending, hperm⟩ := hsorted h
    refine ⟨hascending, ?_, hfew⟩
    show all.Perm (List.replicate (if duplicate = true then size.k
      else size.n) f.rate ++ probes)
    rw [hcoded]
    exact hperm

/-- A decision is well formed, at the size that can be read off the flow it
leaves; and it leaves a flow as sound as it was. -/
theorem decide_upholds (h : Sound config f) (hc : config.Accepted)
    (query : Query) :
    Upholds (f.decide query)
      (fun p => Sound config p.1 ∧ p.1.mode = f.mode
        ∧ ∀ d, p.2 = .ok d →
          ∃ size, p.1.size query = .ok size ∧ p.1.WellFormed size d)
      Fault.NotLoss := by
  obtain ⟨rfl, hmeaning⟩ := h
  apply ((prepare_upholds hmeaning query).weaken
    Fault.notLoss_of_counter).bind
  intro f' hf'
  obtain ⟨hsame, hmeaning'⟩ := hf'
  have hc' : f'.config.Accepted := by
    rw [hsame.config]
    exact hc
  have hsize := size_keeps hc' query
  have hsound : Sound f.config f' := ⟨hsame.config, hmeaning'⟩
  split
  · exact ⟨hsound, hsame.mode, nofun⟩
  · next fault heq =>
      have hfault := hsize.of_eq_error heq fault rfl
      intro hloss
      rw [hloss] at hfault
      simp at hfault
  · next size heq =>
      apply (assemble_upholds hc' query (hsize.of_eq_ok heq)).bind
      intro p hp
      obtain ⟨f'', d⟩ := p
      obtain ⟨⟨probes, generator, baseline?, rfl⟩, hformed⟩ := hp
      refine ⟨⟨hsound.config_eq, hsound.meaningful⟩, hsame.mode, ?_⟩
      intro d' hd'
      cases hd'
      exact ⟨size, heq, hformed⟩

end Flow

end LinkAdaptation
