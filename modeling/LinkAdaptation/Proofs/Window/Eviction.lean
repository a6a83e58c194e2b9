/-
What a window drops when outcomes arrive in any order. Outcomes are dropped
from the front, up to the first one that is recent enough, and what stands
behind that one is not looked at. So an outcome that is too old can stay
only behind a recent one, that is, only when it arrived late. Where the
arrivals come in the order of time, none does.
-/
import LinkAdaptation.Proofs.Window.Retention

namespace LinkAdaptation.Window

variable {rates : RateSet} {w : Window rates} {o x : Outcome}
  {before later : List Outcome}

-- ============================================================ trailing

/-- A window that holds the last part of its arrivals, in the order in
which they came. -/
def Trails (w : Window rates) (h : History) : Prop :=
  w.records <:+ h.arrivals.map (·.outcome)

theorem handle_insert_of_accepts (ho : Accepts rates o) :
    (w.handle (.insert o)).1 = w.push o := by
  unfold handle
  dsimp only
  rw [insert_of_accepts ho]

theorem Trails.handle {h : History} (hw : Trails w h) (request : Request) :
    Trails (w.handle request).1 (h.note rates request) := by
  cases request with
  | insert o =>
      unfold History.note
      dsimp only
      by_cases ho : Accepts rates o
      · rw [handle_insert_of_accepts ho, if_pos ho]
        obtain ⟨gone, hgone⟩ := hw
        have hall : w.records ++ [o]
            <:+ (h.arrivals ++ [Arrival.mk o h.retention]).map (·.outcome) :=
          ⟨gone, by rw [List.map_append, ← hgone, List.append_assoc]; rfl⟩
        exact (List.dropWhile_suffix _).trans hall
      · obtain ⟨error, hrefused⟩ := insert_of_not_accepts (w := w) ho
        unfold Window.handle
        dsimp only
        rw [hrefused, if_neg ho]
        exact hw
  | setRetention retention => exact hw
  | clear => exact List.suffix_refl []

/-- In whatever order outcomes arrive, a window holds the last of them. -/
theorem Trails.run {h : History} (hw : Trails w h) (requests : List Request) :
    Trails (w.run requests) (requests.foldl (History.note rates) h) := by
  induction requests generalizing w h with
  | nil => exact hw
  | cons request rest ih => exact ih (hw.handle request)

-- ============================================================ dropping

/-- What stands at the front once an outcome is recorded is recent. -/
theorem spares_head_push {kept : List Outcome}
    (h : (w.push o).records = x :: kept) :
    Arrival.Spares ⟨o, w.retention⟩ x := by
  have hkept : (w.records ++ [o]).dropWhile (w.isStale o.time) = x :: kept := h
  have hfresh := List.head?_dropWhile_not (w.isStale o.time) (w.records ++ [o])
  rw [hkept, List.head?_cons] at hfresh
  dsimp only at hfresh
  rw [isStale_eq, Bool.not_eq_false', decide_eq_true_eq] at hfresh
  exact hfresh

/-- An outcome that is too old when another is recorded, and stays, stands
behind a recent one. -/
theorem recent_before_stale (h : (w.push o).records = before ++ x :: later)
    (hx : ¬ Arrival.Spares ⟨o, w.retention⟩ x) :
    ∃ y ∈ before, Arrival.Spares ⟨o, w.retention⟩ y := by
  cases before with
  | nil => exact absurd (spares_head_push h) hx
  | cons y rest =>
      exact ⟨y, List.mem_cons_self .., spares_head_push h⟩

/-- After any requests to a new window, recording an outcome leaves the last
part of the arrivals since it was last cleared, and in it an outcome that is
older than the retention only behind one that came before it and is not. As
long as these arrivals come in the order of time, it leaves none that is
older. -/
theorem stale_only_behind_recent (rates : RateSet) (retention : Duration)
    (requests : List Request) (ho : Accepts rates o) :
    let w := run (empty rates retention) requests
    let arrivals := (history rates retention (requests ++ [.insert o])).arrivals
    let oldest := o.time.nanos - w.retention.nanos
    let stored := (w.handle (.insert o)).1.records
    stored <:+ arrivals.map (·.outcome)
      ∧ (∀ before x later, stored = before ++ x :: later →
        x.time.nanos < oldest → ∃ y ∈ before, oldest ≤ y.time.nanos)
      ∧ (Ordered arrivals → ∀ x ∈ stored, oldest ≤ x.time.nanos) := by
  intro w arrivals oldest stored
  have hspares (y : Outcome) : Arrival.Spares ⟨o, w.retention⟩ y
      ↔ oldest ≤ y.time.nanos := by
    show o.time.nanos - y.time.nanos ≤ w.retention.nanos
      ↔ o.time.nanos - w.retention.nanos ≤ y.time.nanos
    omega
  have htrails : Trails (w.handle (.insert o)).1
      (history rates retention (requests ++ [.insert o])) := by
    have hnew : Trails (empty rates retention) ⟨retention, []⟩ :=
      List.suffix_refl []
    unfold history
    rw [List.foldl_append]
    exact (hnew.run requests).handle (.insert o)
  have hbehind (before : List Outcome) (x : Outcome) (later : List Outcome)
      (h : stored = before ++ x :: later) (hx : x.time.nanos < oldest) :
      ∃ y ∈ before, oldest ≤ y.time.nanos := by
    have hpushed : (w.push o).records = before ++ x :: later := by
      rw [← handle_insert_of_accepts ho]
      exact h
    obtain ⟨y, hy, hrecent⟩ := recent_before_stale hpushed
      fun hx' => by have := (hspares x).1 hx'; omega
    exact ⟨y, hy, (hspares y).1 hrecent⟩
  refine ⟨htrails, hbehind, ?_⟩
  intro hordered x hx
  rw [← Int.not_lt]
  intro hold
  obtain ⟨before, later, hsplit⟩ := List.append_of_mem hx
  obtain ⟨y, hy, hrecent⟩ := hbehind before x later hsplit hold
  -- the recent one came first, and so it cannot be later in time
  have hinOrder : InOrder stored :=
    List.Pairwise.sublist htrails.sublist (List.pairwise_map.2 hordered)
  rw [hsplit] at hinOrder
  have hle : y.time.nanos ≤ x.time.nanos :=
    (List.pairwise_append.1 hinOrder).2.2 y hy x (List.mem_cons_self ..)
  omega

/-- A window that was cleared and whose retention shrank, with an outcome
that arrives late and one that finds it too old. -/
theorem stale_only_behind_recent_late :
    let rates : RateSet := ⟨#[10, 20], by decide, by decide⟩
    let sentAt (n : Int) : Outcome := ⟨⟨n⟩, 0, 10, 0, .acked⟩
    let requests : List Request := [.insert (sentAt 900), .clear
      , .insert (sentAt 50), .insert (sentAt 100), .insert (sentAt 0)
      , .setRetention ⟨50⟩]
    let o := sentAt 150
    let w := run (empty rates ⟨100⟩) requests
    let arrivals := (history rates ⟨100⟩ (requests ++ [.insert o])).arrivals
    let oldest := o.time.nanos - w.retention.nanos
    let stored := (w.handle (.insert o)).1.records
    Accepts rates o ∧ stored = [sentAt 100, sentAt 0, sentAt 150]
      ∧ stored <:+ arrivals.map (·.outcome)
      ∧ (∀ before x later, stored = before ++ x :: later →
        x.time.nanos < oldest → ∃ y ∈ before, oldest ≤ y.time.nanos)
      ∧ (Ordered arrivals → ∀ x ∈ stored, oldest ≤ x.time.nanos) := by
  intro rates sentAt requests o
  have ho : Accepts rates o := by decide
  exact ⟨ho, by decide +kernel, stale_only_behind_recent rates ⟨100⟩ requests ho⟩

/-- Where an outcome arrives late, one older than the retention can stay:
the one before it in the window is recent enough, and hides it. -/
theorem late_arrival_outlives_retention :
    let rates : RateSet := ⟨#[10], by decide, by decide⟩
    let sentAt (n : Int) : Outcome := ⟨⟨n⟩, 0, 10, 0, .acked⟩
    let w := run (empty rates ⟨100⟩)
      [.insert (sentAt 100), .insert (sentAt 0)]
    Accepts rates (sentAt 150) ∧ w.retention = ⟨100⟩
      ∧ ∃ x ∈ (w.handle (.insert (sentAt 150))).1.records,
        x.time.nanos < 150 - 100 := by
  decide +kernel

end LinkAdaptation.Window
