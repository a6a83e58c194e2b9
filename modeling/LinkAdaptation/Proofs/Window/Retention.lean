/-
What a window retains, said without a window. Beside the stored outcomes
stands the history they come from: every outcome recorded since the last
time the window was cleared, each with the retention in force at its
arrival. An outcome is spared when it was recent enough at its own arrival
and at every later one; the window holds exactly the spared outcomes, in
the order of their arrival, as long as the arrivals come in the order of
time.

Outcomes are dropped from the front only, up to the first one that is
recent enough. Nothing stale can stand behind that one: the stored outcomes
ascend in time, and how long they are kept may have changed from one
arrival to the next, but is the same for all of them at any one arrival.
-/
import LinkAdaptation.Proofs.Outcome
import LinkAdaptation.Proofs.RateSet
import LinkAdaptation.Window

namespace LinkAdaptation.Window

variable {rates : RateSet}

-- ========================================================== histories

/-- Whether an outcome is recorded: it reports on a delivery, at a
candidate rate. -/
def Accepts (rates : RateSet) (o : Outcome) : Prop :=
  o.status ≠ .sent ∧ o.rate ∈ rates.toList

instance (o : Outcome) : Decidable (Accepts rates o) :=
  inferInstanceAs (Decidable (_ ∧ _))

/-- A recorded outcome, and how long outcomes were kept when it arrived. -/
structure Arrival where
  outcome : Outcome
  retention : Duration
  deriving DecidableEq

/-- Whether an outcome is recent enough to be kept at an arrival. -/
def Arrival.Spares (a : Arrival) (o : Outcome) : Prop :=
  a.outcome.time.nanos - o.time.nanos ≤ a.retention.nanos

instance (a : Arrival) (o : Outcome) : Decidable (a.Spares o) :=
  Int.decLe _ _

/-- What a window was asked: the retention now in force, and the arrivals
since it was last cleared. -/
structure History where
  retention : Duration
  arrivals : List Arrival

/-- The history after a request. -/
def History.note (rates : RateSet) (h : History) : Request → History
  | .insert o =>
      if Accepts rates o then
        { h with arrivals := h.arrivals ++ [⟨o, h.retention⟩] }
      else
        h
  | .setRetention retention => { h with retention }
  | .clear => { h with arrivals := [] }

/-- The history of a new window after some requests. -/
def history (rates : RateSet) (retention : Duration)
    (requests : List Request) : History :=
  requests.foldl (History.note rates) ⟨retention, []⟩

/-- The outcomes that their own arrival and every later one spare. -/
def spared : List Arrival → List Outcome
  | [] => []
  | a :: later =>
      if ∀ b ∈ a :: later, b.Spares a.outcome then a.outcome :: spared later
      else spared later

/-- Whether arrivals come in the order of time. -/
def Ordered (arrivals : List Arrival) : Prop :=
  arrivals.Pairwise fun a b => a.outcome.time.nanos ≤ b.outcome.time.nanos

instance (arrivals : List Arrival) : Decidable (Ordered arrivals) :=
  inferInstanceAs (Decidable (List.Pairwise _ _))

/-- The window after some requests. -/
def run (w : Window rates) (requests : List Request) : Window rates :=
  requests.foldl (fun w request => (w.handle request).1) w

-- ========================================================= acceptance

theorem isFeedback_iff (status : Status) :
    status.isFeedback = true ↔ status ≠ .sent := by
  cases status <;> simp [Status.isFeedback]

/-- An outcome is refused exactly when it is not accepted. -/
theorem rejection?_eq_none_iff {o : Outcome} :
    rejection? rates o = none ↔ Accepts rates o := by
  unfold rejection? Accepts
  rw [← isFeedback_iff, ← RateSet.contains_iff]
  cases o.status.isFeedback <;> cases rates.contains o.rate <;> simp

theorem insert_of_accepts {w : Window rates} {o : Outcome}
    (h : Accepts rates o) :
    w.insert o = .ok (w.push o,
      (w.push o).records.length ≤ w.records.length) := by
  unfold insert
  rw [rejection?_eq_none_iff.2 h]

theorem insert_of_not_accepts {w : Window rates} {o : Outcome}
    (h : ¬ Accepts rates o) : ∃ error, w.insert o = .error error := by
  cases hr : rejection? rates o with
  | none => exact absurd (rejection?_eq_none_iff.1 hr) h
  | some error =>
      refine ⟨error, ?_⟩
      unfold insert
      rw [hr]

-- =========================================================== dropping

theorem spared_sublist (arrivals : List Arrival) :
    (spared arrivals).Sublist (arrivals.map (·.outcome)) := by
  induction arrivals with
  | nil => exact List.Sublist.refl _
  | cons a later ih =>
      unfold spared
      split
      · exact ih.cons_cons a.outcome
      · exact ih.cons a.outcome

/-- One more arrival spares some of the outcomes that were spared so far,
and itself. -/
theorem spared_concat (arrivals : List Arrival) (b : Arrival) :
    spared (arrivals ++ [b])
      = (spared arrivals ++ [b.outcome]).filter (b.Spares ·) := by
  induction arrivals with
  | nil =>
      by_cases h : b.Spares b.outcome <;> simp [spared, h]
  | cons a later ih =>
      have hsplit : (∀ c ∈ a :: (later ++ [b]), c.Spares a.outcome)
          ↔ (∀ c ∈ a :: later, c.Spares a.outcome) ∧ b.Spares a.outcome := by
        rw [← List.cons_append, List.forall_mem_append,
          List.forall_mem_singleton]
      rw [List.cons_append, spared, spared, ih]
      simp only [hsplit]
      by_cases hold : ∀ c ∈ a :: later, c.Spares a.outcome
      · by_cases hnew : b.Spares a.outcome
        · rw [if_pos ⟨hold, hnew⟩, if_pos hold, List.cons_append,
            List.filter_cons_of_pos (by simpa using hnew)]
        · rw [if_neg fun h => hnew h.2, if_pos hold, List.cons_append,
            List.filter_cons_of_neg (by simpa using hnew)]
      · rw [if_neg fun h => hold h.1, if_neg hold]

/-- An outcome is stale at an arrival exactly when it is not spared. -/
theorem isStale_eq (w : Window rates) (o o' : Outcome) :
    w.isStale o.time o' = !decide (Arrival.Spares ⟨o, w.retention⟩ o') := by
  have hiff : w.retention < o.time.since o'.time
      ↔ ¬ Arrival.Spares ⟨o, w.retention⟩ o' := by
    show w.retention.nanos < (o.time.nanos - o'.time.nanos).toNat
      ↔ ¬ o.time.nanos - o'.time.nanos ≤ w.retention.nanos
    omega
  unfold isStale
  rw [← decide_not]
  exact decide_eq_decide.2 hiff

/-- Recording an outcome keeps what its arrival spares. -/
theorem push_records {w : Window rates} {o : Outcome}
    (h : (w.records ++ [o]).Pairwise fun a b => a.time.nanos ≤ b.time.nanos) :
    (w.push o).records
      = (w.records ++ [o]).filter (Arrival.Spares ⟨o, w.retention⟩ ·) := by
  show (w.records ++ [o]).dropWhile (w.isStale o.time) = _
  rw [dropWhile_eq_filter]
  · simp only [isStale_eq, Bool.not_not]
  · apply h.imp
    intro a b hab hb
    rw [isStale_eq, Bool.not_eq_true', decide_eq_false_iff_not] at hb ⊢
    unfold Arrival.Spares at hb ⊢
    dsimp only at hb ⊢
    omega

-- =========================================================== retaining

/-- A window that holds what its history spares. -/
structure Holds (w : Window rates) (h : History) : Prop where
  retention : w.retention = h.retention
  records : Ordered h.arrivals → w.records = spared h.arrivals

theorem Holds.handle {w : Window rates} {h : History} (hw : Holds w h)
    (request : Request) : Holds (w.handle request).1 (h.note rates request) := by
  cases request with
  | insert o =>
      unfold History.note Window.handle
      dsimp only
      by_cases ho : Accepts rates o
      · rw [insert_of_accepts ho, if_pos ho]
        refine ⟨hw.retention, ?_⟩
        intro hordered
        have hrecords := hw.records (List.pairwise_append.1 hordered).1
        show (w.push o).records = spared (h.arrivals ++ [⟨o, h.retention⟩])
        rw [spared_concat, ← hrecords, ← hw.retention]
        apply push_records
        have hsub : (w.records ++ [o]).Sublist
            ((h.arrivals ++ [Arrival.mk o h.retention]).map (·.outcome)) := by
          rw [hrecords, List.map_append]
          exact (spared_sublist h.arrivals).append (List.Sublist.refl _)
        exact List.Pairwise.sublist hsub (List.pairwise_map.2 hordered)
      · obtain ⟨error, hrefused⟩ := insert_of_not_accepts (w := w) ho
        rw [hrefused, if_neg ho]
        exact hw
  | setRetention retention => exact ⟨rfl, hw.records⟩
  | clear => exact ⟨hw.retention, fun _ => rfl⟩

/-- A run keeps a window and its history together. -/
theorem Holds.run {w : Window rates} {h : History} (hw : Holds w h)
    (requests : List Request) :
    Holds (w.run requests) (requests.foldl (History.note rates) h) := by
  induction requests generalizing w h with
  | nil => exact hw
  | cons request rest ih => exact ih (hw.handle request)

/-- What an accepted outcome does to a window. -/
theorem handle_insert {w : Window rates} {o : Outcome}
    (ho : Accepts rates o) :
    ∃ dropped kept any, w.records ++ [o] = dropped ++ kept
      ∧ w.handle (.insert o) = ({ w with records := kept }, .evicted any)
      ∧ (any = true ↔ dropped ≠ []) := by
  have hsplit := List.takeWhile_append_dropWhile (p := w.isStale o.time)
    (l := w.records ++ [o])
  have hlength := congrArg List.length hsplit
  rw [List.length_append, List.length_append, List.length_singleton] at hlength
  refine ⟨_, _, (w.push o).records.length ≤ w.records.length, hsplit.symm,
    ?_, ?_⟩
  · unfold handle
    dsimp only
    rw [insert_of_accepts ho]
    rfl
  · rw [decide_eq_true_iff, ← List.length_pos_iff]
    show ((w.records ++ [o]).dropWhile (w.isStale o.time)).length ≤ _ ↔ _
    omega

/-- After any requests a new window holds exactly the outcomes that were
spared at every arrival since their own, as long as the arrivals since it
was last cleared come in the order of time. In whatever state it then is,
the answer to an outcome tells whether any was dropped, a refused outcome
changes nothing, and another retention alone drops nothing. -/
theorem retains_exactly_spared (rates : RateSet) (retention : Duration)
    (requests : List Request)
    (hordered : Ordered (history rates retention requests).arrivals) :
    let w := run (empty rates retention) requests
    w.records = spared (history rates retention requests).arrivals
      ∧ (∀ o, Accepts rates o →
        ∃ dropped kept any, w.records ++ [o] = dropped ++ kept
          ∧ w.handle (.insert o) = ({ w with records := kept }, .evicted any)
          ∧ (any = true ↔ dropped ≠ []))
      ∧ (∀ o, ¬ Accepts rates o →
        ∃ error, w.handle (.insert o) = (w, .refused error))
      ∧ ∀ retention, w.handle (.setRetention retention)
        = ({ w with retention }, .done) := by
  intro w
  have hstart : Holds (empty rates retention) ⟨retention, []⟩ :=
    ⟨rfl, fun _ => rfl⟩
  refine ⟨(hstart.run requests).records hordered, ?_, ?_, ?_⟩
  · intro o ho
    exact handle_insert ho
  · intro o ho
    obtain ⟨error, hrefused⟩ := insert_of_not_accepts (w := w) ho
    refine ⟨error, ?_⟩
    unfold handle
    dsimp only
    rw [hrefused]
  · intro retention
    rfl

/-- A retention that shrank and grew back does not bring back what was
dropped in between. -/
theorem retains_exactly_spared_regrown :
    let rates : RateSet := ⟨#[10, 20], by decide, by decide⟩
    let sentAt (n : Int) : Request := .insert ⟨⟨n⟩, 0, 10, 0, .acked⟩
    let requests := [sentAt 0, sentAt 4, .setRetention ⟨1⟩, sentAt 5,
      .setRetention ⟨9⟩, sentAt 9]
    Ordered (history rates ⟨9⟩ requests).arrivals
      ∧ (run (empty rates ⟨9⟩) requests).records
        = spared (history rates ⟨9⟩ requests).arrivals
      ∧ (run (empty rates ⟨9⟩) requests).records.map (·.time)
        = [⟨4⟩, ⟨5⟩, ⟨9⟩] := by
  intro rates sentAt requests
  have hordered : Ordered (history rates ⟨9⟩ requests).arrivals := by decide
  have hrecords := (retains_exactly_spared rates ⟨9⟩ requests hordered).1
  refine ⟨hordered, hrecords, ?_⟩
  rw [hrecords]
  decide

end LinkAdaptation.Window
