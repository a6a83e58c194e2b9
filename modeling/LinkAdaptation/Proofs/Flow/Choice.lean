/-
Which candidate a decision goes to. In the modes that go by the expected
goodput, the candidates are compared one after another, and a later one is
taken only for promising more: so the choice is the first of those that
promise the most. An excluded candidate stays in the comparison with a
promise of nothing. As long as some candidate that is not excluded promises
anything, this keeps the excluded ones from being chosen. When none does,
all promises are equal, and the first candidate is taken, excluded or not.
-/
import LinkAdaptation.Proofs.Flow.Goodput
import LinkAdaptation.Proofs.Flow.Run
import LinkAdaptation.Proofs.Flow.Steps

namespace LinkAdaptation

variable {rates : RateSet}

-- ============================================================ greatest

/-- The first candidate of the greatest value among those that were seen. -/
structure Leads (value : rates.Index → Rat) (seen : List rates.Index)
    (best : rates.Index) : Prop where
  most : ∀ i ∈ seen, value i ≤ value best
  first : ∀ i ∈ seen, i < best → value i < value best

namespace Leads

variable {value : rates.Index → Rat} {seen : List rates.Index}
  {best i : rates.Index}

theorem singleton (value : rates.Index → Rat) (i : rates.Index) :
    Leads value [i] i := by
  constructor
  · intro j hj
    rw [List.mem_singleton.1 hj]
  · intro j hj hlt
    rw [List.mem_singleton.1 hj] at hlt
    exact absurd hlt (lt_irrefl i)

/-- A candidate after all that were seen takes the lead with a greater
value only. -/
theorem step (h : Leads value seen best) (hafter : ∀ j ∈ seen, j < i)
    (hbest : best ∈ seen) :
    Leads value (seen ++ [i]) (if value best < value i then i else best) := by
  split
  · next hgreater =>
      constructor
      · intro j hj
        rcases List.mem_append.1 hj with hj | hj
        · exact (h.most j hj).trans hgreater.le
        · rw [List.mem_singleton.1 hj]
      · intro j hj hlt
        rcases List.mem_append.1 hj with hj | hj
        · exact lt_of_le_of_lt (h.most j hj) hgreater
        · rw [List.mem_singleton.1 hj] at hlt
          exact absurd hlt (lt_irrefl i)
  · next hnot =>
      constructor
      · intro j hj
        rcases List.mem_append.1 hj with hj | hj
        · exact h.most j hj
        · rw [List.mem_singleton.1 hj]
          exact not_lt.1 hnot
      · intro j hj hlt
        rcases List.mem_append.1 hj with hj | hj
        · exact h.first j hj hlt
        · rw [List.mem_singleton.1 hj] at hlt
          exact absurd (hafter best hbest) (not_lt.2 hlt.le)

/-- The comparison of all candidates in a list, as it is computed. -/
theorem foldl {score : rates.Index → Float} {l : List rates.Index}
    (hscore : ∀ i, value? (score i) = some (value i))
    (h : Leads value seen best) (hbest : best ∈ seen)
    (hascending : (seen ++ l).Pairwise (· < ·)) :
    Leads value (seen ++ l) (l.foldl (fun (p : rates.Index × Float) i =>
      if p.2 < score i then (i, score i) else p) (best, score best)).1 := by
  induction l generalizing seen best with
  | nil =>
      rw [List.append_nil]
      exact h
  | cons i rest ih =>
      have hafter : ∀ j ∈ seen, j < i := fun j hj =>
        (List.pairwise_append.1 hascending).2.2 j hj i (List.mem_cons_self ..)
      have hstep := h.step hafter hbest
      rw [List.append_cons] at hascending ⊢
      rw [List.foldl_cons]
      dsimp only
      simp only [lt_iff_of_value? (hscore best) (hscore i)]
      by_cases hgreater : value best < value i
      · rw [if_pos hgreater] at hstep ⊢
        exact ih hstep (by simp) hascending
      · rw [if_neg hgreater] at hstep ⊢
        exact ih hstep (by simp [hbest]) hascending

end Leads

-- ============================================================ choosing

namespace Flow

variable {config : Config} {entropy : Random.Key} {f₀ f f' : Flow rates}
  {query : Query}

/-- Negative infinity is below every number. -/
theorem negInfinity_lt {x : Float} {q : Rat} (h : value? x = some q) :
    -1.0 / 0.0 < x := by
  have hinfinity : unpack (-1.0 / 0.0) = .infinity .negative := rfl
  rw [lt_iff_compare, hinfinity]
  rcases unpack_of_value? h with ⟨s, hu, -⟩ | ⟨s, _, _, _, hu, -⟩ <;>
    rw [hu] <;> rfl

/-- The choice is the first of the candidates that promise the most. -/
theorem bestCandidate_leads {limit? : Option Float}
    {value : rates.Index → Rat}
    (hvalue : ∀ i, value? (f.goodput limit? i) = some (value i)) :
    Leads value rates.indices (f.bestCandidate limit?) := by
  have hascending : rates.indices.Pairwise (· < ·) :=
    List.pairwise_lt_finRange _
  have hbottom : rates.bottom ∈ rates.indices := List.mem_finRange _
  unfold bestCandidate
  dsimp only
  cases hindices : rates.indices with
  | nil =>
      rw [hindices] at hbottom
      cases hbottom
  | cons first rest =>
      rw [hindices] at hascending
      -- whatever comes first beats the infinity that the comparison starts at
      rw [List.foldl_cons, if_pos (negInfinity_lt (hvalue first))]
      exact (Leads.singleton value first).foldl hvalue
        (List.mem_singleton.2 rfl) hascending

/-- The bound that is in force. -/
def bound? (f : Flow rates) : Option Float :=
  if f.mode.isBounded then some f.lossBound else none

theorem isGoodput_iff {mode : Mode} :
    mode.isGoodput = true ↔ mode ≠ .fixed ∧ mode.baseline? = none := by
  unfold Mode.isGoodput
  rw [Bool.and_eq_true, bne_iff_ne, Option.isNone_iff_eq_none]

theorem choose_goodput (hmode : f.mode.isGoodput = true) {now : Instant}
    (h : f.choose now = .ok f') :
    f' = { f with current := f.bestCandidate f.bound? } := by
  obtain ⟨hmoving, hunled⟩ := isGoodput_iff.1 hmode
  unfold choose at h
  rw [hunled, if_neg (by decide), if_neg hmoving] at h
  cases h
  rfl

/-- After the merge, a decision that goes by the goodput chooses, and then
changes no estimate. -/
theorem decide_goodput (hmode : f.mode.isGoodput = true)
    (hoccasion : query.occasion.isTimeout = false)
    {result : Except Error Decision}
    (hdecide : f.decide query = .ok (f', result)) :
    ∃ f₁ probes generator baseline?, f.merge query.now = .ok f₁
      ∧ f' = { f₁ with
        current := f₁.bestCandidate f₁.bound?, probes, generator, baseline? } := by
  obtain ⟨f₁, f₂, probes, generator, baseline?, hmerge, hchoose, rfl⟩ :=
    decide_merged hoccasion hdecide
  have hmode₁ : f₁.mode.isGoodput = true := by
    obtain ⟨_, _, _, rfl, -⟩ := merge_eq_ok hmerge
    exact hmode
  have hchosen := choose_goodput hmode₁ hchoose
  subst hchosen
  exact ⟨f₁, probes, generator, baseline?, hmerge, rfl⟩

-- =========================================================== admission

/-- Whether a candidate may be chosen: it is feasible, and where losses are
bounded, its merged loss is not above the bound. -/
def Admissible (f : Flow rates) (i : rates.Index) : Prop :=
  f.isFeasible (rates.get i) = true
    ∧ (f.mode.isBounded = true → ¬ f.lossBound < f.combinedLoss.lossAt i)

instance (f : Flow rates) (i : rates.Index) : Decidable (f.Admissible i) :=
  inferInstanceAs (Decidable (_ ∧ (_ → ¬ _)))

theorem isExcluded_eq_false_iff {i : rates.Index} :
    f.isExcluded f.bound? i = false ↔ f.Admissible i := by
  unfold isExcluded bound? Admissible
  cases f.mode.isBounded <;> simp

/-- Whatever a flow was asked before, a decision that goes by the goodput
goes to an admissible candidate that promises something, if there is one.
If there is none, it goes to the slowest candidate, admissible or not. -/
theorem selected_admissible {requests : List Request} {replies : List Reply}
    {result : Except Error Decision}
    (hstart : start rates config entropy = .ok f₀)
    (hrun : f₀.run requests = .ok (f, replies))
    (hmode : f.mode.isGoodput = true)
    (hoccasion : query.occasion.isTimeout = false)
    (hdecide : f.decide query = .ok (f', result)) :
    ((∃ i, f'.Admissible i ∧ f'.Promises f.current i) →
      f'.Admissible f'.current ∧ f'.Promises f.current f'.current)
    ∧ ((¬ ∃ i, f'.Admissible i ∧ f'.Promises f.current i) →
      f'.current = rates.bottom) := by
  have hc := accepted_of_start hstart
  have hsound := ((sound_start hstart).run hc requests).of_eq_ok hrun
  have hmeaning := ((decide_upholds hsound hc query).of_eq_ok
    hdecide).1.meaningful .combined
  obtain ⟨f₁, _, _, _, hmerge, rfl⟩ := decide_goodput hmode hoccasion hdecide
  have hcurrent : f₁.current = f.current := by
    obtain ⟨_, _, _, rfl, -⟩ := merge_eq_ok hmerge
    rfl
  choose value hvalue hnonneg hpos using
    value?_goodput (f := f₁) hmeaning f₁.bound?
  have hpromising (i : rates.Index) :
      0 < value i ↔ f₁.Admissible i ∧ f₁.Promises f.current i := by
    rw [hpos i, isExcluded_eq_false_iff, hcurrent]
  have hleads := bestCandidate_leads hvalue
  constructor
  · intro h
    obtain ⟨i, hi⟩ := h
    have hsome : 0 < value i := (hpromising i).2 hi
    exact (hpromising _).1
      (lt_of_lt_of_le hsome (hleads.most i (List.mem_finRange i)))
  · intro hnone
    have hzero (i : rates.Index) : ¬ 0 < value i :=
      fun hi => hnone ⟨i, (hpromising i).1 hi⟩
    -- otherwise the slowest candidate would promise less than nothing
    by_contra hother
    have hbelow : rates.bottom < f₁.bestCandidate f₁.bound? := by
      rw [Fin.lt_def]
      have hne : (f₁.bestCandidate f₁.bound?).val ≠ 0 :=
        fun h => hother (Fin.ext h)
      exact Nat.pos_of_ne_zero hne
    have hlt := hleads.first _ (List.mem_finRange _) hbelow
    exact hzero _ (lt_of_le_of_lt (hnonneg rates.bottom) hlt)

/-- The slowest candidate was lost twice, and the next one acknowledged. -/
theorem selected_admissible_above :
    let rates : RateSet := ⟨#[10, 20, 55], by decide, by decide⟩
    let sent (n : Int) (rate : Rate) (status : Status) : Outcome :=
      ⟨⟨n * 1000000⟩, 0, rate, 1000, status⟩
    let requests : List Request :=
      [ .setMode .boundedSequential ⟨0⟩ default
      , .feedBatch .back [sent 1 10 .naked, sent 2 10 .naked, sent 3 20 .acked] ]
    let query : Query := ⟨⟨100000000⟩, .data, 10000, 1000, 0⟩
    ∃ (f₀ f f' : Flow rates) (replies : List Reply)
      (result : Except Error Decision),
      start rates {} default = .ok f₀ ∧ f₀.run requests = .ok (f, replies)
        ∧ f.mode.isGoodput = true ∧ query.occasion.isTimeout = false
        ∧ f.decide query = .ok (f', result)
        ∧ (∃ i, f'.Admissible i ∧ f'.Promises f.current i)
        ∧ f'.Admissible f'.current ∧ f'.Promises f.current f'.current
        ∧ ¬ f'.Admissible rates.bottom := by
  intro rates sent requests query
  obtain ⟨f₀, f, replies, ⟨f', result⟩, hstart, hrun, hdecide, hmode, hsome,
      hbottom⟩ :=
    exists_step rates {} default requests (·.decide query)
      (fun f p => f.mode.isGoodput = true
        ∧ (∃ i, p.1.Admissible i ∧ p.1.Promises f.current i)
        ∧ ¬ p.1.Admissible rates.bottom)
      (by decide +kernel)
  obtain ⟨hadmissible, hpromises⟩ :=
    (selected_admissible hstart hrun hmode rfl hdecide).1 hsome
  exact ⟨f₀, f, f', replies, result, hstart, hrun, hmode, rfl, hdecide, hsome,
    hadmissible, hpromises, hbottom⟩

/-- Where the only admissible candidate was never tried and lies above, it
promises as little as an excluded one, and the excluded one is chosen. -/
theorem excluded_selected_on_tie :
    let rates : RateSet := ⟨#[10, 20], by decide, by decide⟩
    let requests : List Request :=
      [ .setMode .boundedSequential ⟨0⟩ default
      , .feedBatch .back [⟨⟨1000000⟩, 1, 10, 1000, .naked⟩] ]
    let query : Query := ⟨⟨2000000⟩, .data, 10000, 1000, 0⟩
    ∃ (f₀ f f' : Flow rates) (replies : List Reply)
      (result : Except Error Decision),
      start rates {} default = .ok f₀ ∧ f₀.run requests = .ok (f, replies)
        ∧ f.mode.isGoodput = true ∧ query.occasion.isTimeout = false
        ∧ f.decide query = .ok (f', result)
        ∧ f'.Admissible rates.top ∧ ¬ f'.Admissible f'.current := by
  intro rates requests query
  obtain ⟨f₀, f, replies, ⟨f', result⟩, hstart, hrun, hdecide, hmode, htop,
      hexcluded⟩ :=
    exists_step rates {} default requests (·.decide query)
      (fun f p => f.mode.isGoodput = true ∧ p.1.Admissible rates.top
        ∧ ¬ p.1.Admissible p.1.current)
      (by decide +kernel)
  exact ⟨f₀, f, f', replies, result, hstart, hrun, hmode, rfl, hdecide, htop,
    hexcluded⟩

-- ============================================================== scores

/-- What candidates are compared by when the flow was on the candidate
`before`. An inadmissible one scores nothing; a known loss leaves its share
of the rate; and while nothing is known, a rate scores in full up to the
candidate `before`, and nothing above it. -/
def score (f : Flow rates) (before i : rates.Index) : Float :=
  let loss := f.combinedLoss.lossAt i
  if ¬ f.Admissible i then 0.0
  else if isKnown loss then mbps (rates.get i) * (1.0 - loss)
  else if i ≤ before then mbps (rates.get i)
  else 0.0

theorem goodput_eq_score (f : Flow rates) (i : rates.Index) :
    f.goodput f.bound? i = f.score f.current i := by
  unfold goodput score
  dsimp only
  cases hexcluded : f.isExcluded f.bound? i with
  | true =>
      have hout : ¬ f.Admissible i := by
        rw [← isExcluded_eq_false_iff, hexcluded]
        decide
      rw [if_pos rfl, if_pos hout]
  | false =>
      rw [if_neg Bool.false_ne_true,
        if_neg (not_not.2 (isExcluded_eq_false_iff.1 hexcluded))]
      by_cases habove : f.current < i
      · rw [if_pos habove, if_neg (not_le.2 habove)]
      · rw [if_neg habove, if_pos (not_lt.1 habove)]

/-- After a decision that goes by the goodput, every score is a number, not
negative, and positive exactly for an admissible candidate that promises
something; and the decision went to the first one of the greatest. -/
theorem decide_leads (h : Sound config f) (hc : config.Accepted)
    (hmode : f.mode.isGoodput = true)
    (hoccasion : query.occasion.isTimeout = false)
    {result : Except Error Decision}
    (hdecide : f.decide query = .ok (f', result)) :
    ∃ value : rates.Index → Rat,
      (∀ i, value? (f'.score f.current i) = some (value i) ∧ 0 ≤ value i
        ∧ (0 < value i ↔ f'.Admissible i ∧ f'.Promises f.current i))
      ∧ Leads value rates.indices f'.current := by
  have hmeaning := ((decide_upholds h hc query).of_eq_ok
    hdecide).1.meaningful .combined
  obtain ⟨f₁, _, _, _, hmerge, rfl⟩ := decide_goodput hmode hoccasion hdecide
  have hcurrent : f₁.current = f.current := by
    obtain ⟨_, _, _, rfl, -⟩ := merge_eq_ok hmerge
    rfl
  choose value hvalue hnonneg hpos using
    value?_goodput (f := f₁) hmeaning f₁.bound?
  refine ⟨value, ?_, bestCandidate_leads hvalue⟩
  intro i
  refine ⟨?_, hnonneg i, ?_⟩
  · rw [← hvalue i, goodput_eq_score, hcurrent]
    rfl
  · rw [hpos i, isExcluded_eq_false_iff, hcurrent]
    rfl

/-- Whatever a flow was asked before, a decision that goes by the goodput
goes to the first candidate of the greatest score. So it goes to an
admissible one as long as any score is positive, and never to one above the
candidate before of which nothing is known. -/
theorem selected_first_of_best {requests : List Request}
    {replies : List Reply} {result : Except Error Decision}
    (hstart : start rates config entropy = .ok f₀)
    (hrun : f₀.run requests = .ok (f, replies))
    (hmode : f.mode.isGoodput = true)
    (hoccasion : query.occasion.isTimeout = false)
    (hdecide : f.decide query = .ok (f', result)) :
    (∀ i, 0.0 ≤ f'.score f.current i
      ∧ f'.score f.current i ≤ f'.score f.current f'.current)
    ∧ (∀ i, i < f'.current →
      f'.score f.current i < f'.score f.current f'.current)
    ∧ ((∃ i, 0.0 < f'.score f.current i) → f'.Admissible f'.current)
    ∧ ¬ (f.current < f'.current
      ∧ f'.combinedLoss.lossAt f'.current = unknownLoss) := by
  have hc := accepted_of_start hstart
  have hsound := ((sound_start hstart).run hc requests).of_eq_ok hrun
  obtain ⟨value, hvalue, hleads⟩ :=
    decide_leads hsound hc hmode hoccasion hdecide
  refine ⟨?_, ?_, ?_, ?_⟩
  · intro i
    obtain ⟨hi, hnonneg, -⟩ := hvalue i
    exact ⟨(le_iff_of_value? value?_zero hi).2 hnonneg,
      (le_iff_of_value? hi (hvalue _).1).2 (hleads.most i (List.mem_finRange i))⟩
  · intro i hbelow
    exact (lt_iff_of_value? (hvalue i).1 (hvalue _).1).2
      (hleads.first i (List.mem_finRange i) hbelow)
  · intro hsome
    obtain ⟨i, hi⟩ := hsome
    have hpos := (lt_iff_of_value? value?_zero (hvalue i).1).1 hi
    exact ((hvalue _).2.2.1
      (lt_of_lt_of_le hpos (hleads.most i (List.mem_finRange i)))).1
  · intro h
    obtain ⟨habove, hunknown⟩ := h
    -- a later candidate is taken only for a score above those before it
    have hbetter := hleads.first f.current (List.mem_finRange _) habove
    have hpos := lt_of_le_of_lt (hvalue f.current).2.1 hbetter
    have hpromises := ((hvalue _).2.2.1 hpos).2.2
    rw [if_neg (by rw [isKnown_eq_false_iff.2 hunknown]; decide)] at hpromises
    exact absurd habove (not_lt.2 hpromises)

/-- Two candidates of the same score, one that is ruled out, and one above
of which nothing is known. -/
theorem selected_first_of_best_tie :
    let rates : RateSet := ⟨#[10, 20, 55, 110], by decide, by decide⟩
    let sent (n : Int) (rate : Rate) (status : Status) : Outcome :=
      ⟨⟨n * 1000000⟩, 0, rate, 1000, status⟩
    let requests : List Request :=
      [ .setMode .boundedSequential ⟨0⟩ default, .setRate 20
      , .feedBatch .back [sent 1 10 .acked, sent 2 20 .acked, sent 3 20 .naked
        , sent 4 55 .naked, sent 5 55 .naked] ]
    let query : Query := ⟨⟨100000000⟩, .data, 10000, 1000, 0⟩
    ∃ (f₀ f f' : Flow rates) (replies : List Reply)
      (result : Except Error Decision),
      start rates {} default = .ok f₀ ∧ f₀.run requests = .ok (f, replies)
        ∧ f.mode.isGoodput = true ∧ query.occasion.isTimeout = false
        ∧ f.decide query = .ok (f', result)
        ∧ f'.score f.current rates.bottom = f'.score f.current f.current
        ∧ (∃ i, 0.0 < f'.score f.current i)
        ∧ (∀ i, 0.0 ≤ f'.score f.current i
          ∧ f'.score f.current i ≤ f'.score f.current f'.current)
        ∧ (∀ i, i < f'.current →
          f'.score f.current i < f'.score f.current f'.current)
        ∧ f'.Admissible f'.current
        ∧ ¬ (f.current < f'.current
          ∧ f'.combinedLoss.lossAt f'.current = unknownLoss)
        ∧ f'.current = rates.bottom := by
  intro rates sent requests query
  obtain ⟨f₀, f, replies, ⟨f', result⟩, hstart, hrun, hdecide, hmode, htie,
      hsome, hbottom⟩ :=
    exists_step rates {} default requests (·.decide query)
      (fun f p => f.mode.isGoodput = true
        ∧ p.1.score f.current rates.bottom = p.1.score f.current f.current
        ∧ (∃ i, 0.0 < p.1.score f.current i)
        ∧ p.1.current = rates.bottom)
      (by decide +kernel)
  obtain ⟨hmost, hfirst, hadmissible, hknown⟩ :=
    selected_first_of_best hstart hrun hmode rfl hdecide
  exact ⟨f₀, f, f', replies, result, hstart, hrun, hmode, rfl, hdecide, htie,
    hsome, hmost, hfirst, hadmissible hsome, hknown, hbottom⟩

end Flow

end LinkAdaptation
