/-
A burst amounts to its outcomes. Recorded as a whole, a burst is checked
first, then all of it is stored, then all of it is taught to the baseline,
and at last the range that holds it is blended in. Given one at a time, its
outcomes are stored and taught in turns. Both come to the same: storing an
outcome reads and writes a window only, teaching one the baseline only, so
the turns can be told apart again; and the one thing that reads a window,
the refresh, comes after all of them in either case.

A burst that is refused is refused for the first of its outcomes that is
not accepted, and leaves the flow as it was.
-/
import LinkAdaptation.Proofs.Flow.Told

namespace LinkAdaptation

open Window (Accepts)

variable {rates : RateSet} {o : Outcome} {outcomes : List Outcome}

-- =========================================================== refusals

/-- Why an outcome that is not accepted is refused: its status is looked at
before its rate. -/
theorem rejection?_of_not_accepts (ho : ¬ Accepts rates o) :
    Window.rejection? rates o = some (if o.status = .sent
      then .invalidStatus .sent else .unknownRate o.rate) := by
  unfold Window.rejection?
  by_cases hstatus : o.status = .sent
  · rw [if_pos hstatus, hstatus]
    rfl
  · have hrate : rates.contains o.rate = false := by
      rw [← Bool.not_eq_true, RateSet.contains_iff]
      exact fun hmem => ho ⟨hstatus, hmem⟩
    rw [if_neg hstatus, (Window.isFeedback_iff _).2 hstatus, hrate]
    rfl

namespace Flow

variable {config : Config} {entropy : Random.Key} {f₀ f f' : Flow rates}
  {vantage : Vantage}

theorem burstRejection?_eq_none (h : ∀ o ∈ outcomes, Accepts rates o) :
    burstRejection? rates outcomes = none := by
  unfold burstRejection?
  rw [List.findSome?_eq_none_iff]
  exact fun o ho => Window.rejection?_eq_none_iff.2 (h o ho)

/-- A burst is refused for the first outcome that is not accepted. -/
theorem burstRejection?_of_find?
    (h : outcomes.find? (fun o => ¬ Accepts rates o) = some o) :
    burstRejection? rates outcomes = some (if o.status = .sent
      then .invalidStatus .sent else .unknownRate o.rate) := by
  obtain ⟨ho, before, after, rfl, hbefore⟩ := List.find?_eq_some_iff_append.1 h
  have hnone : burstRejection? rates before = none :=
    burstRejection?_eq_none fun a ha => by simpa using hbefore a ha
  unfold burstRejection? at hnone ⊢
  rw [List.findSome?_append, hnone, List.findSome?_cons,
    rejection?_of_not_accepts (by simpa using ho)]
  rfl

-- ============================================================== turns

theorem setWindow_window (f : Flow rates) (vantage : Vantage) :
    f.setWindow vantage (f.window vantage) = f := by
  cases vantage <;> rfl

theorem setWindow_setWindow (f : Flow rates) (vantage : Vantage)
    (w w' : Window rates) :
    (f.setWindow vantage w).setWindow vantage w' = f.setWindow vantage w' := by
  cases vantage <;> rfl

theorem teachFrom_nil (f : Flow rates) (vantage : Vantage) :
    f.teachFrom vantage [] = .ok f := by
  cases vantage with
  | front => rfl
  | back =>
      unfold teachFrom teach
      dsimp only
      split
      · next b _ hb =>
          show Except.ok { f with baseline? := some b } = Except.ok f
          rw [← hb]
      · rfl

/-- Outcomes are taught one after another. -/
theorem teachFrom_cons (f : Flow rates) (vantage : Vantage) (o : Outcome)
    (rest : List Outcome) :
    f.teachFrom vantage (o :: rest)
      = f.teachFrom vantage [o] >>= (·.teachFrom vantage rest) := by
  cases vantage with
  | front => rfl
  | back =>
      unfold teachFrom teach
      dsimp only
      cases hmode : f.mode.baseline? with
      | none => simp [bind, Except.bind, hmode]
      | some kind =>
          cases hb : f.baseline? with
          | none => simp [bind, Except.bind, hmode, hb]
          | some b =>
              simp only [List.foldlM_cons, List.foldlM_nil]
              cases b.insert o <;> simp [bind, Except.bind, pure, Except.pure, hmode]

/-- Teaching neither reads nor writes a window. -/
theorem teachFrom_setWindow (f : Flow rates) (vantage : Vantage)
    (w : Window rates) (outcomes : List Outcome) :
    (f.setWindow vantage w).teachFrom vantage outcomes
      = (·.setWindow vantage w) <$> f.teachFrom vantage outcomes := by
  cases vantage with
  | front => rfl
  | back =>
      unfold teachFrom teach setWindow
      dsimp only
      split
      · next b _ hb =>
          cases outcomes.foldlM Baseline.insert b <;> rfl
      · rfl

-- ================================================================ runs

/-- The flow after some requests, without the answers. -/
def after (f : Flow rates) (requests : List Request) : Checked (Flow rates) :=
  Prod.fst <$> f.run requests

theorem after_nil (f : Flow rates) : f.after [] = .ok f := rfl

theorem after_cons (f : Flow rates) (request : Request)
    (rest : List Request) :
    f.after (request :: rest) = f.handle request >>= fun p => p.1.after rest := by
  unfold after
  rw [run]
  cases f.handle request with
  | error fault => rfl
  | ok p =>
      show Prod.fst <$> (p.1.run rest >>= fun q => pure (q.1, p.2 :: q.2))
        = Prod.fst <$> p.1.run rest
      cases p.1.run rest <;> rfl

theorem after_append (f : Flow rates) (first second : List Request) :
    f.after (first ++ second) = f.after first >>= (·.after second) := by
  induction first generalizing f with
  | nil => rfl
  | cons request rest ih =>
      rw [List.cons_append, after_cons, after_cons, bind_assoc]
      congr 1
      funext p
      exact ih p.1

/-- An accepted outcome is stored and taught. -/
theorem after_feed (ho : Accepts rates o) (f : Flow rates) (vantage : Vantage)
    (rest : List Request) :
    f.after (.feed vantage o :: rest)
      = (f.setWindow vantage ((f.window vantage).push o)).teachFrom vantage [o]
        >>= (·.after rest) := by
  rw [after_cons]
  unfold handle
  dsimp only
  rw [feed_of_accepts ho]
  cases (f.setWindow vantage ((f.window vantage).push o)).teachFrom vantage [o]
    <;> rfl

theorem after_refreshLoss (f : Flow rates) (vantage : Vantage)
    (start stop : Instant) :
    f.after [.refreshLoss vantage start stop]
      = f.refreshLoss vantage start stop := by
  rw [after_cons]
  show (do return (← f.refreshLoss vantage start stop, Reply.done))
    >>= (fun p => after p.1 []) = _
  cases f.refreshLoss vantage start stop <;> rfl

/-- Accepted outcomes, one at a time: all that is stored and all that is
taught can be told apart. -/
theorem after_feeds (h : ∀ o ∈ outcomes, Accepts rates o) (f : Flow rates)
    (vantage : Vantage) :
    f.after (outcomes.map (.feed vantage))
      = (f.setWindow vantage
        (outcomes.foldl .push (f.window vantage))).teachFrom vantage outcomes := by
  induction outcomes generalizing f with
  | nil =>
      rw [List.map_nil, after_nil, List.foldl_nil, setWindow_window,
        teachFrom_nil]
  | cons o rest ih =>
      obtain ⟨ho, hrest⟩ := List.forall_mem_cons.1 h
      let stored := f.setWindow vantage ((f.window vantage).push o)
      let all := rest.foldl .push ((f.window vantage).push o)
      have hall : f.setWindow vantage all = stored.setWindow vantage all :=
        (f.setWindow_setWindow vantage _ all).symm
      calc f.after ((o :: rest).map (.feed vantage))
          = stored.teachFrom vantage [o]
            >>= (·.after (rest.map (.feed vantage))) := after_feed ho f vantage _
        _ = stored.teachFrom vantage [o]
            >>= fun taught => (taught.setWindow vantage all).teachFrom vantage
              rest := by
          apply bind_congr_ok
          intro taught hteach
          -- the window that the others are pushed to is still the stored one
          obtain ⟨baseline?, rfl⟩ := teachFrom_eq_ok hteach
          have hwindow : window { stored with baseline? } vantage
              = (f.window vantage).push o := by
            cases vantage <;> rfl
          rw [ih hrest, hwindow]
        _ = (·.setWindow vantage all) <$> stored.teachFrom vantage [o]
            >>= (·.teachFrom vantage rest) :=
          (bind_map_left (·.setWindow vantage all)
            (stored.teachFrom vantage [o]) (·.teachFrom vantage rest)).symm
        _ = (stored.setWindow vantage all).teachFrom vantage (o :: rest) := by
          rw [teachFrom_cons (stored.setWindow vantage all),
            teachFrom_setWindow stored]
        _ = (f.setWindow vantage all).teachFrom vantage (o :: rest) := by
          rw [hall]

-- ============================================================== bursts

/-- A burst as single requests: its outcomes one at a time, and then a
refresh of the range that holds them. -/
def singles (vantage : Vantage) (outcomes : List Outcome) : List Request :=
  outcomes.map (.feed vantage)
    ++ (burstRange? outcomes).toList.map fun (start, stop) =>
      .refreshLoss vantage start stop

/-- An instant that has one after it ends a range. -/
theorem burstRange_of_add? (first : Instant) {last : Instant}
    (h : (last.add? .tick).isSome = true) :
    burstRange first last
      = .ok ((first.sub? .tick).getD first, ⟨last.nanos + 1⟩) := by
  obtain ⟨stop, hstop⟩ := Option.isSome_iff_exists.1 h
  have hrange : burstRange first last
      = .ok ((first.sub? .tick).getD first, stop) := by
    unfold burstRange
    rw [hstop]
  rw [hrange, (burstRange_eq_ok hrange).2]

theorem attemptChecked_mapError (f : Flow rates) (x : Checked (Flow rates)) :
    f.attemptChecked (x.mapError .broken) = (·, .done) <$> x := by
  cases x <;> rfl

/-- An accepted burst comes to the same as its single requests. -/
theorem handle_feedBatch (h : ∀ o ∈ outcomes, Accepts rates o)
    (hstop : ∀ last ∈ (outcomes.map (·.time)).max?,
      (last.add? .tick).isSome = true) (f : Flow rates) (vantage : Vantage) :
    f.handle (.feedBatch vantage outcomes)
      = (·, .done) <$> f.after (singles vantage outcomes) := by
  unfold handle feedBatch
  dsimp only
  rw [burstRejection?_eq_none h]
  cases outcomes with
  | nil => rfl
  | cons o rest =>
      have hrange := burstRange_of_add? ((rest.map (·.time)).foldl min o.time)
        (hstop _ rfl)
      dsimp only
      rw [attemptChecked_mapError, singles, after_append, after_feeds h,
        hrange]
      congr 2
      funext taught
      exact (taught.after_refreshLoss vantage _ _).symm

/-- With room for its outcomes, an accepted burst is recorded. -/
theorem Told.handle_feedBatch {n : Nat} (htold : f.Told n)
    (hroom : n + outcomes.length < counterLimit) (hsound : Sound config f)
    (hc : config.Accepted) (h : ∀ o ∈ outcomes, Accepts rates o)
    (hstop : ∀ last ∈ (outcomes.map (·.time)).max?,
      (last.add? .tick).isSome = true) :
    ∃ f', f.handle (.feedBatch vantage outcomes) = .ok (f', .done) := by
  rw [Flow.handle_feedBatch h hstop, singles, after_append, after_feeds h]
  obtain ⟨taught, hteach, htold'⟩ := (htold.record vantage outcomes hroom).exists_ok
  have hsound' := ((hsound.setWindow vantage _).teachFrom vantage
    outcomes).of_eq_ok hteach
  rw [hteach]
  cases burstRange? outcomes with
  | none => exact ⟨taught, rfl⟩
  | some range =>
      obtain ⟨f', hrefresh⟩ := htold'.refreshLoss_succeeds hroom hsound' hc
        vantage range.1 range.2
      refine ⟨f', ?_⟩
      show (·, Reply.done) <$> taught.after [.refreshLoss vantage range.1 range.2]
        = _
      rw [after_refreshLoss, hrefresh]
      rfl

/-- Whatever a flow was asked before, a burst is refused for the first of
its outcomes that is not accepted, and then leaves the flow as it was. One
that is accepted as a whole comes to the same as its outcomes one at a time
and a refresh of the range that holds them; and it is recorded, as long as
fewer outcomes were ever brought than a counter can count. -/
theorem burst_comes_to_singles {requests : List Request}
    {replies : List Reply} (vantage : Vantage)
    (hstart : start rates config entropy = .ok f₀)
    (hrun : f₀.run requests = .ok (f, replies))
    (hstop : ∀ last ∈ (outcomes.map (·.time)).max?,
      (last.add? .tick).isSome = true) :
    (∀ o, outcomes.find? (fun o => ¬ Accepts rates o) = some o →
      f.handle (.feedBatch vantage outcomes) = .ok (f, .refused
        (if o.status = .sent then .invalidStatus .sent
          else .unknownRate o.rate)))
    ∧ ((∀ o ∈ outcomes, Accepts rates o) →
      f.handle (.feedBatch vantage outcomes)
        = (fun p => (p.1, .done)) <$> f.run (singles vantage outcomes)
      ∧ ((requests.map Request.brings).sum + outcomes.length < counterLimit →
        ∃ f', f.handle (.feedBatch vantage outcomes) = .ok (f', .done))) := by
  constructor
  · intro o ho
    unfold handle feedBatch
    dsimp only
    rw [burstRejection?_of_find? ho]
    rfl
  · intro h
    constructor
    · rw [handle_feedBatch h hstop]
      unfold after
      rw [Functor.map_map]
    · intro hroom
      have hc := accepted_of_start hstart
      have htold := (told_start hstart).run (follows_start hstart)
        (by omega) hrun
      have hsound := ((sound_start hstart).run hc requests).of_eq_ok hrun
      exact htold.handle_feedBatch (by omega) hsound hc h hstop

/-- A burst for a baseline, the first outcome of which has aged for the
second and for the window, and one with an outcome at no candidate. -/
theorem burst_comes_to_singles_aging :
    let rates : RateSet := ⟨#[10, 20], by decide, by decide⟩
    let sent (n : Int) (rate : Rate) (status : Status) : Outcome :=
      ⟨⟨n * 1000000000⟩, 0, rate, 1000, status⟩
    let requests : List Request :=
      [.setMode .sampleRate ⟨0⟩ default, .feed .back (sent 0 10 .acked)]
    let burst : List Outcome := [sent 1 20 .naked, sent 15 10 .acked]
    let mixed : List Outcome := [sent 1 20 .naked, sent 2 30 .acked]
    ∃ (f₀ f : Flow rates) (replies : List Reply),
      start rates { seed := some 1 } default = .ok f₀
        ∧ f₀.run requests = .ok (f, replies)
        ∧ (∀ last ∈ (burst.map (·.time)).max?,
          (last.add? .tick).isSome = true)
        ∧ f.handle (.feedBatch .back burst)
          = (fun p => (p.1, .done)) <$> f.run (singles .back burst)
        ∧ (∃ f', f.handle (.feedBatch .back burst) = .ok (f', .done))
        ∧ f.handle (.feedBatch .back mixed)
          = .ok (f, .refused (.unknownRate 30)) := by
  intro rates sent requests burst mixed
  have hran : ((start rates { seed := some 1 } default).toOption.bind fun f₀ =>
      (f₀.run requests).toOption).isSome = true := by decide +kernel
  obtain ⟨⟨f, replies⟩, hran⟩ := Option.isSome_iff_exists.1 hran
  obtain ⟨f₀, hstart, hrun⟩ := Option.bind_eq_some_iff.1 hran
  rw [toOption_eq_some_iff] at hstart hrun
  have hstop : ∀ last ∈ (burst.map (·.time)).max?,
      (last.add? .tick).isSome = true := by decide
  have hstop' : ∀ last ∈ (mixed.map (·.time)).max?,
      (last.add? .tick).isSome = true := by decide
  obtain ⟨-, haccepted⟩ := burst_comes_to_singles .back hstart hrun hstop
  obtain ⟨hsame, hrecorded⟩ := haccepted (by decide)
  obtain ⟨hrefused, -⟩ := burst_comes_to_singles .back hstart hrun hstop'
  exact ⟨f₀, f, replies, hstart, hrun, hstop, hsame, hrecorded (by decide),
    hrefused (sent 2 30 .acked) (by decide)⟩

end Flow

end LinkAdaptation
