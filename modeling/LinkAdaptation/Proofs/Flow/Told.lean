/-
How much a flow was told. Every outcome that reaches a flow comes with a
request, so the requests of a run say how many a window can hold and how
many the baseline can have recorded. Decisions and settings add none. While
that number stays below what a counter can count, feedback does not fail
for want of a counter: the baseline records it, and a range is tallied.
-/
import LinkAdaptation.Proofs.Flow.Refresh
import LinkAdaptation.Proofs.Flow.Standalone
import LinkAdaptation.Proofs.Selector.Recorded
import LinkAdaptation.Proofs.Window.Retention

namespace LinkAdaptation

variable {rates : RateSet} {n n' : Nat} {o : Outcome}

-- ============================================================= tallies

/-- No count of a tally is above a number. -/
structure Tally.Within (n : Nat) (t : Tally) : Prop where
  sent : t.sent ≤ n
  acked : t.acked ≤ n

theorem Tally.Within.add {t : Tally} (h : t.Within n)
    (hroom : n + 1 < counterLimit) (status : Status) :
    Upholds (t.add status) (Within (n + 1)) fun _ => False := by
  obtain ⟨hsent, hacked⟩ := h
  apply (increment_succeeds hsent hroom).bind
  rintro _ rfl
  have hsent' := Nat.succ_le_succ hsent
  split
  · apply (increment_succeeds hacked hroom).bind
    rintro _ rfl
    exact ⟨hsent', Nat.succ_le_succ hacked⟩
  · exact ⟨hsent', Nat.le_succ_of_le hacked⟩

/-- Fewer outcomes than a counter can count are tallied. -/
theorem tallyOutcomes_succeeds {outcomes : List Outcome}
    (hroom : outcomes.length < counterLimit) :
    Upholds (tallyOutcomes rates outcomes) (fun _ => True)
      fun _ => False := by
  have hempty : ∀ i, ((Table.fill rates {}).get i : Tally).Within 0 := by
    intro i
    rw [Table.get_fill]
    exact ⟨Nat.le_refl 0, Nat.le_refl 0⟩
  refine Upholds.imp (Upholds.foldlM_counting (n := 0)
    (R := fun n (table : Table rates Tally) => ∀ i, (table.get i).Within n)
    hempty (by simpa using hroom) ?_) fun _ _ => trivial
  intro n table o htable hroom
  have hmore (i : rates.Index) : (table.get i).Within (n + 1) :=
    ⟨Nat.le_succ_of_le (htable i).sent, Nat.le_succ_of_le (htable i).acked⟩
  split
  · next i _ =>
      apply ((htable i).add hroom o.status).bind
      intro t ht
      exact Table.forall_get_set (fun j _ => hmore j) ht
  · exact hmore

namespace Window

variable {w : Window rates} {outcomes : List Outcome}

theorem tally?_succeeds (hroom : w.records.length < counterLimit)
    (start stop : Instant) :
    Upholds (w.tally? start stop) (fun _ => True) fun _ => False := by
  unfold tally?
  split
  · apply (tallyOutcomes_succeeds ?_).map fun _ _ => trivial
    have hsub : (w.between start stop).Sublist w.records :=
      (List.take_sublist _ _).trans (List.drop_sublist _ _)
    exact Nat.lt_of_le_of_lt hsub.length_le hroom
  · exact trivial

-- ============================================================= windows

theorem length_push_le (w : Window rates) (o : Outcome) :
    (w.push o).records.length ≤ w.records.length + 1 := by
  have hsub := (List.dropWhile_sublist (w.isStale o.time)
    (l := w.records ++ [o])).length_le
  rw [List.length_append, List.length_singleton] at hsub
  exact hsub

theorem length_pushes_le (w : Window rates) (outcomes : List Outcome) :
    (outcomes.foldl push w).records.length
      ≤ w.records.length + outcomes.length := by
  induction outcomes generalizing w with
  | nil => exact Nat.le_refl _
  | cons o rest ih =>
      have hpush := w.length_push_le o
      have hrest := ih (w.push o)
      rw [List.foldl_cons, List.length_cons]
      omega

/-- How many outcomes a request to a window brings. -/
def Request.brings : Request → Nat
  | .insert _ => 1
  | .setRetention _ | .clear => 0

theorem length_handle_le (w : Window rates) (request : Request) :
    (w.handle request).1.records.length
      ≤ w.records.length + request.brings := by
  cases request with
  | insert o =>
      unfold handle insert
      dsimp only
      cases rejection? rates o with
      | none => exact w.length_push_le o
      | some error => exact Nat.le_succ _
  | setRetention retention => exact Nat.le_refl _
  | clear => exact Nat.zero_le _

end Window

namespace Flow

variable {config : Config} {entropy : Random.Key} {f₀ f f' : Flow rates}
  {a : Account}
  {vantage : Vantage} {outcomes : List Outcome}

-- =========================================================== accepting

theorem feed_of_accepts (ho : Window.Accepts rates o) :
    f.feed vantage o
      = ((f.setWindow vantage ((f.window vantage).push o)).teachFrom vantage
        [o]).mapError .broken := by
  unfold feed
  rw [Window.insert_of_accepts ho]

theorem feed_of_not_accepts (ho : ¬ Window.Accepts rates o) (f : Flow rates)
    (vantage : Vantage) :
    ∃ error, f.feed vantage o = .error (.refused error) := by
  obtain ⟨error, hrefused⟩ := Window.insert_of_not_accepts
    (w := f.window vantage) ho
  refine ⟨error, ?_⟩
  unfold feed
  rw [hrefused]

theorem window_setWindow (f : Flow rates) (vantage other : Vantage)
    (w : Window rates) :
    (f.setWindow vantage w).window other
      = if other = vantage then w else f.window other := by
  cases vantage <;> cases other <;> rfl

-- ============================================================= telling

/-- How many outcomes a request brings. -/
def Request.brings : Request → Nat
  | .feed _ _ => 1
  | .feedBatch _ outcomes => outcomes.length
  | .window _ request => request.brings
  | _ => 0

/-- A flow that was told at most `n` outcomes. -/
structure Told (n : Nat) (f : Flow rates) : Prop where
  stored : ∀ vantage, (f.window vantage).records.length ≤ n
  recorded : ∀ b ∈ f.baseline?, b.selector.Recorded n

theorem told_start (h : start rates config entropy = .ok f) :
    f.Told 0 := by
  unfold start at h
  split at h
  · cases h
  · cases h
    refine ⟨?_, nofun⟩
    intro vantage
    cases vantage <;> exact Nat.le_refl 0

theorem Told.same (h : f.Told n) (hfront : f'.front = f.front)
    (hback : f'.back = f.back) (hbaseline : f'.baseline? = f.baseline?) :
    f'.Told n := by
  refine ⟨?_, by rw [hbaseline]; exact h.recorded⟩
  intro vantage
  cases vantage with
  | front => exact (congrArg (·.records.length) hfront).trans_le (h.stored .front)
  | back => exact (congrArg (·.records.length) hback).trans_le (h.stored .back)

theorem Told.setWindow (h : f.Told n) (hle : n ≤ n') (vantage : Vantage)
    {w : Window rates} (hw : w.records.length ≤ n') :
    (f.setWindow vantage w).Told n' := by
  refine ⟨?_, ?_⟩
  · intro other
    rw [window_setWindow]
    split
    · exact hw
    · exact (h.stored other).trans hle
  · intro b hb
    refine (h.recorded b ?_).mono hle
    cases vantage <;> exact hb

theorem Told.setLossMap (h : f.Told n) (view : View) (m : LossMap rates) :
    (f.setLossMap view m).Told n := by
  cases view <;> exact h.same rfl rfl rfl

theorem Told.refreshLoss (h : f.Told n) {start stop : Instant}
    (hrefresh : f.refreshLoss vantage start stop = .ok f') : f'.Told n := by
  obtain ⟨_, m, -, -, rfl⟩ := refreshLoss_eq_ok hrefresh
  exact h.setLossMap _ m

/-- With room for them, outcomes are stored and taught. -/
theorem Told.record (h : f.Told n) (vantage : Vantage)
    (outcomes : List Outcome) (hroom : n + outcomes.length < counterLimit) :
    Upholds ((f.setWindow vantage
        (outcomes.foldl .push (f.window vantage))).teachFrom vantage outcomes)
      (Told (n + outcomes.length)) fun _ => False := by
  have hwindow := (f.window vantage).length_pushes_le outcomes
  have hstored := h.setWindow (Nat.le_add_right n outcomes.length) vantage
    (hwindow.trans (Nat.add_le_add_right (h.stored vantage) _))
  cases vantage with
  | front => exact hstored
  | back =>
      unfold teachFrom teach
      dsimp only
      split
      · next b _ hb =>
          apply (Baseline.inserts_recorded (h.recorded b hb) hroom).bind
          intro b' hb'
          refine ⟨hstored.stored, ?_⟩
          intro b hb
          cases hb
          exact hb'
      · exact hstored

theorem Told.feed (h : f.Told n) (hroom : n + 1 < counterLimit)
    (hfeed : f.feed vantage o = .ok f') : f'.Told (n + 1) := by
  by_cases ho : Window.Accepts rates o
  · rw [feed_of_accepts ho, mapError_eq_ok] at hfeed
    exact (h.record vantage [o] hroom).of_eq_ok hfeed
  · obtain ⟨error, hrefused⟩ := feed_of_not_accepts ho f vantage
    cases hrefused.symm.trans hfeed

theorem Told.feedBatch (h : f.Told n)
    (hroom : n + outcomes.length < counterLimit)
    (hfeed : f.feedBatch vantage outcomes = .ok f') :
    f'.Told (n + outcomes.length) := by
  unfold Flow.feedBatch at hfeed
  split at hfeed
  · cases hfeed
  · cases hfeed
    exact h
  · obtain ⟨f₁, hteach, hfeed⟩ := bind_eq_ok.1 (mapError_eq_ok.1 hfeed)
    obtain ⟨_, -, hfeed⟩ := bind_eq_ok.1 hfeed
    exact ((h.record vantage _ hroom).of_eq_ok hteach).refreshLoss hfeed

theorem Told.mono (h : f.Told n) (hle : n ≤ n') : f.Told n' :=
  ⟨fun vantage => (h.stored vantage).trans hle,
    fun b hb => (h.recorded b hb).mono hle⟩

/-- What a decision draws from the baseline counts no outcome. -/
theorem Told.decide (h : f.Told n) (hfollows : Follows config a f)
    {query : Query} {result : Except Error Decision}
    (hdecide : f.decide query = .ok (f', result)) : f'.Told n := by
  have hsame := decide_same hdecide
  cases hmode : f.mode.baseline? with
  | none =>
      exact h.same hsame.front hsame.back (decide_unled hmode hdecide)
  | some kind =>
      obtain ⟨s, b, -, -, hled, -⟩ := hfollows.led (by rw [hmode]; rfl)
      obtain ⟨b', drawn, hled', hdraws, -⟩ := hled.decide hdecide
      have hkept : Told n { f' with baseline? := f.baseline? } :=
        h.same hsame.front hsame.back rfl
      refine ⟨hkept.stored, ?_⟩
      intro b₁ hb₁
      obtain rfl : b' = b₁ := Option.some.inj (hled'.baseline.symm.trans hb₁)
      exact hdraws.recorded (h.recorded b hled.baseline)

theorem Told.setMode (h : f.Told n) (mode : Mode) (now : Instant)
    (entropy : Random.Key) : (f.setMode mode now entropy).Told n := by
  unfold Flow.setMode
  dsimp only
  split
  · exact h.same rfl rfl rfl
  · split
    · exact h.same rfl rfl rfl
    · refine ⟨h.stored, ?_⟩
      intro b hb
      cases hb
      exact Selector.recorded_start ..

-- ================================================================ runs

/-- A request tells a flow no more than it brings. -/
theorem Told.handle (h : f.Told n) (hfollows : Follows config a f)
    {request : Request} {reply : Reply}
    (hroom : n + request.brings < counterLimit)
    (hhandle : f.handle request = .ok (f', reply)) :
    f'.Told (n + request.brings) := by
  have hmore : f.Told (n + request.brings) := h.mono (Nat.le_add_right _ _)
  cases request with
  | feed vantage o =>
      obtain ⟨-, hfeed⟩ | ⟨_, -, rfl⟩ := attemptChecked_eq_ok hhandle
      · exact h.feed hroom hfeed
      · exact hmore
  | feedBatch vantage outcomes =>
      obtain ⟨-, hfeed⟩ | ⟨_, -, rfl⟩ := attemptChecked_eq_ok hhandle
      · exact h.feedBatch hroom hfeed
      · exact hmore
  | refreshLoss vantage start stop =>
      obtain ⟨f₁, hrefresh, hhandle⟩ := bind_eq_ok.1 hhandle
      cases hhandle
      exact h.refreshLoss hrefresh
  | giveUp =>
      cases hhandle
      exact h.same rfl rfl rfl
  | decide query =>
      obtain ⟨⟨f₁, result⟩, hdecide, hhandle⟩ := bind_eq_ok.1 hhandle
      cases result <;> cases hhandle <;> exact h.decide hfollows hdecide
  | setMode mode now entropy =>
      cases hhandle
      exact h.setMode mode now entropy
  | setUseCoding on =>
      cases hhandle
      exact h.same rfl rfl rfl
  | setMayDuplicate on =>
      cases hhandle
      exact h.same rfl rfl rfl
  | setSpeed speed =>
      cases hhandle
      exact h.same rfl rfl rfl
  | setDuplicateThreshold threshold =>
      obtain ⟨-, hset⟩ | ⟨_, -, rfl⟩ := attempt_eq_ok hhandle
      · unfold setDuplicateThreshold at hset
        split at hset <;> cases hset
        exact h.same rfl rfl rfl
      · exact h
  | setLossBound bound =>
      obtain ⟨-, hset⟩ | ⟨_, -, rfl⟩ := attempt_eq_ok hhandle
      · unfold setLossBound at hset
        split at hset <;> cases hset
        exact h.same rfl rfl rfl
      · exact h
  | setRate rate =>
      obtain ⟨-, hset⟩ | ⟨_, -, rfl⟩ := attempt_eq_ok hhandle
      · unfold setRate at hset
        split at hset <;> cases hset
        exact h.same rfl rfl rfl
      · exact h
  | window vantage request =>
      cases hhandle
      exact h.setWindow (Nat.le_add_right _ _) vantage
        (((f.window vantage).length_handle_le request).trans
          (Nat.add_le_add_right (h.stored vantage) _))
  | lossMap view request =>
      cases hhandle
      exact h.setLossMap view _

/-- A run tells a flow no more than its requests bring. -/
theorem Told.run (h : f.Told n) (hfollows : Follows config a f)
    {requests : List Request} {replies : List Reply}
    (hroom : n + (requests.map Request.brings).sum < counterLimit)
    (hrun : f.run requests = .ok (f', replies)) :
    f'.Told (n + (requests.map Request.brings).sum) := by
  induction requests generalizing f n a replies with
  | nil =>
      cases hrun
      exact h
  | cons request rest ih =>
      obtain ⟨⟨f₁, reply⟩, hhandle, hrun⟩ := bind_eq_ok.1 hrun
      obtain ⟨⟨f₂, later⟩, hrest, hrun⟩ := bind_eq_ok.1 hrun
      cases hrun
      rw [List.map_cons, List.sum_cons, ← Nat.add_assoc] at hroom ⊢
      have htold := h.handle hfollows (by omega) hhandle
      exact ih htold (hfollows.handle hhandle) hroom hrest

-- ========================================================== refreshing

/-- With room in the counters, a range is blended in. -/
theorem refreshLoss_succeeds
    (hroom : (f.window vantage).records.length < counterLimit)
    (hsound : Sound config f) (hc : config.Accepted) (start stop : Instant) :
    ∃ f', f.refreshLoss vantage start stop = .ok f' := by
  obtain ⟨table?, htally, -⟩ :=
    (Window.tally?_succeeds hroom start stop).exists_ok
  have htable := ((f.window vantage).tally?_sound start stop).of_eq_ok htally
  have hw : ¬ 1.0 < f.config.backLossWeight := by
    rw [hsound.config_eq]
    exact hc.weight
  obtain ⟨m, hm, -⟩ := (hsound.meaningful vantage.view).absorb htable hw
  exact ⟨_, bind_eq_ok.2 ⟨table?, htally, bind_eq_ok.2 ⟨m, hm, rfl⟩⟩⟩

theorem Told.refreshLoss_succeeds (h : f.Told n) (hroom : n < counterLimit)
    (hsound : Sound config f) (hc : config.Accepted) (vantage : Vantage)
    (start stop : Instant) :
    ∃ f', f.refreshLoss vantage start stop = .ok f' :=
  Flow.refreshLoss_succeeds (Nat.lt_of_le_of_lt (h.stored vantage) hroom)
    hsound hc start stop

end Flow

end LinkAdaptation
