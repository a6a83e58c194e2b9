/-
Windows and the origin of time. A window compares instants with each other
and takes the time between two of them, and it does nothing else with an
instant. So a window whose outcomes are all moved by the same amount answers
as before, when what it is asked is moved by that amount too, and what it
becomes is what it would have become, moved. Each operation is an equation
to that effect.

Adding a duration to an instant is different: an instant has a range. It
moves along as long as the range lets it succeed at both ends of the move,
or at neither.
-/
import LinkAdaptation.Proofs.Window.Range

namespace LinkAdaptation

-- ============================================================ instants

namespace Instant

variable {δ : Int}

/-- The instant `δ` nanoseconds on. -/
def shift (t : Instant) (δ : Int) : Instant := ⟨t.nanos + δ⟩

@[simp]
theorem shift_lt_shift {t u : Instant} :
    t.shift δ < u.shift δ ↔ t < u :=
  Int.add_lt_add_iff_right δ

@[simp]
theorem shift_le_shift {t u : Instant} :
    t.shift δ ≤ u.shift δ ↔ t ≤ u :=
  Int.add_le_add_iff_right δ

@[simp]
theorem since_shift (t u : Instant) :
    (t.shift δ).since (u.shift δ) = t.since u := by
  have hdiff : t.nanos + δ - (u.nanos + δ) = t.nanos - u.nanos := by omega
  exact congrArg (fun n : Int => Duration.mk n.toNat) hdiff

@[simp]
theorem since?_shift (t u : Instant) :
    (t.shift δ).since? (u.shift δ) = t.since? u := by
  simp [since?]

theorem min_shift (t u : Instant) :
    min (t.shift δ) (u.shift δ) = (min t u).shift δ := by
  show (if t.shift δ ≤ u.shift δ then t.shift δ else u.shift δ)
    = (if t ≤ u then t else u).shift δ
  simp only [shift_le_shift]
  split <;> rfl

theorem max_shift (t u : Instant) :
    max (t.shift δ) (u.shift δ) = (max t u).shift δ := by
  show (if t.shift δ ≤ u.shift δ then u.shift δ else t.shift δ)
    = (if t ≤ u then u else t).shift δ
  simp only [shift_le_shift]
  split <;> rfl

/-- What picks the same of two instants once they are moved picks the same
of many. -/
theorem foldl_shift {pick : Instant → Instant → Instant}
    (hpick : ∀ t u, pick (t.shift δ) (u.shift δ) = (pick t u).shift δ)
    (t : Instant) (times : List Instant) :
    (times.map (·.shift δ)).foldl pick (t.shift δ)
      = (times.foldl pick t).shift δ := by
  rw [List.foldl_map]
  exact List.foldl_hom (fun t : Instant => t.shift δ) hpick

/-- Counts of nanoseconds that are `δ` apart are instants that are, if both
are instants or neither is. -/
theorem ofNanos?_shift {n : Int}
    (h : (ofNanos? (n + δ)).isSome = (ofNanos? n).isSome) :
    ofNanos? (n + δ) = (ofNanos? n).map (·.shift δ) := by
  cases hmoved : ofNanos? (n + δ) <;> cases hn : ofNanos? n
  · rfl
  · rw [hmoved, hn] at h
    cases h
  · rw [hmoved, hn] at h
    cases h
  · rw [ofNanos?_eq_some hmoved, ofNanos?_eq_some hn]
    rfl

theorem add?_shift {t : Instant} {d : Duration}
    (h : ((t.shift δ).add? d).isSome = (t.add? d).isSome) :
    (t.shift δ).add? d = (t.add? d).map (·.shift δ) := by
  have hmove : t.nanos + δ + d.nanos = t.nanos + d.nanos + δ := by omega
  unfold add? shift at h ⊢
  dsimp only at h ⊢
  rw [hmove] at h ⊢
  exact ofNanos?_shift h

theorem sub?_shift {t : Instant} {d : Duration}
    (h : ((t.shift δ).sub? d).isSome = (t.sub? d).isSome) :
    (t.shift δ).sub? d = (t.sub? d).map (·.shift δ) := by
  have hmove : t.nanos + δ - d.nanos = t.nanos - d.nanos + δ := by omega
  unfold sub? shift at h ⊢
  dsimp only at h ⊢
  rw [hmove] at h ⊢
  exact ofNanos?_shift h

end Instant

-- ============================================================ outcomes

/-- The outcome of a packet sent `δ` nanoseconds on. -/
def Outcome.shift (o : Outcome) (δ : Int) : Outcome :=
  { o with time := o.time.shift δ }

/-- Counting does not look at times. -/
theorem tallyOutcomes_shift (rates : RateSet) (outcomes : List Outcome)
    (δ : Int) :
    tallyOutcomes rates (outcomes.map (·.shift δ))
      = tallyOutcomes rates outcomes := by
  unfold tallyOutcomes
  rw [List.foldlM_map]
  rfl

namespace Window

variable {rates : RateSet} {δ : Int}

/-- The window with every outcome `δ` nanoseconds on. -/
def shift (w : Window rates) (δ : Int) : Window rates :=
  { w with records := w.records.map (·.shift δ) }

-- ============================================================= changes

theorem isStale_shift (w : Window rates) (now : Instant) (o : Outcome) :
    (w.shift δ).isStale (now.shift δ) (o.shift δ) = w.isStale now o :=
  congrArg (fun age => decide (w.retention < age))
    (Instant.since_shift now o.time)

theorem push_shift (w : Window rates) (o : Outcome) :
    (w.shift δ).push (o.shift δ) = (w.push o).shift δ := by
  have hstale : (w.shift δ).isStale (o.time.shift δ) ∘ (·.shift δ)
      = w.isStale o.time := funext (w.isStale_shift o.time)
  have hrecords : ((w.records ++ [o]).map (·.shift δ)).dropWhile
        ((w.shift δ).isStale (o.time.shift δ))
      = ((w.records ++ [o]).dropWhile (w.isStale o.time)).map
        (·.shift δ) := by
    rw [List.dropWhile_map, hstale]
  rw [List.map_append] at hrecords
  exact congrArg (Window.mk w.retention) hrecords

theorem foldl_push_shift (w : Window rates) (outcomes : List Outcome) :
    (outcomes.map (·.shift δ)).foldl .push (w.shift δ)
      = (outcomes.foldl .push w).shift δ := by
  rw [List.foldl_map]
  exact List.foldl_hom (fun w : Window rates => w.shift δ) push_shift

theorem insert_shift (w : Window rates) (o : Outcome) :
    (w.shift δ).insert (o.shift δ)
      = (fun p => (p.1.shift δ, p.2)) <$> w.insert o := by
  have hrejection : rejection? rates (o.shift δ) = rejection? rates o := rfl
  unfold insert
  rw [hrejection, push_shift]
  split
  · rfl
  · simp [shift, Functor.map, Except.map]

/-- A request with its outcome `δ` nanoseconds on. -/
def Request.shift (request : Request) (δ : Int) : Request :=
  match request with
  | .insert o => .insert (o.shift δ)
  | .setRetention retention => .setRetention retention
  | .clear => .clear

theorem handle_shift (w : Window rates) (request : Request) :
    (w.shift δ).handle (request.shift δ)
      = ((w.handle request).1.shift δ, (w.handle request).2) := by
  cases request with
  | insert o =>
      unfold handle Request.shift
      dsimp only
      rw [insert_shift]
      cases w.insert o <;> rfl
  | setRetention retention => rfl
  | clear => rfl

-- ============================================================ questions

theorem span?_shift (w : Window rates) :
    (w.shift δ).span?
      = w.span?.map fun p => (p.1.shift δ, p.2.shift δ) := by
  unfold span? shift
  dsimp only
  rw [List.head?_map, List.getLast?_map]
  cases w.records.head? <;> cases w.records.getLast? <;> rfl

theorem covers_shift (w : Window rates) (start stop : Instant) :
    (w.shift δ).covers (start.shift δ) (stop.shift δ)
      = w.covers start stop := by
  unfold covers
  rw [span?_shift]
  cases w.span? with
  | none => rfl
  | some p => simp

theorem between_shift (w : Window rates) (start stop : Instant) :
    (w.shift δ).between (start.shift δ) (stop.shift δ)
      = (w.between start stop).map (·.shift δ) := by
  have hbefore (t : Instant) :
      (fun o : Outcome => decide (o.time < t.shift δ))
          ∘ (fun o : Outcome => o.shift δ)
        = fun o => decide (o.time < t) := by
    funext o
    exact decide_eq_decide.2 Instant.shift_lt_shift
  rw [between_eq_dropWhile, between_eq_dropWhile]
  unfold shift
  dsimp only
  rw [List.takeWhile_map, List.dropWhile_map, hbefore, hbefore]

theorem tally?_shift (w : Window rates) (start stop : Instant) :
    (w.shift δ).tally? (start.shift δ) (stop.shift δ)
      = w.tally? start stop := by
  unfold tally?
  rw [covers_shift, between_shift, tallyOutcomes_shift]

theorem losses?_shift (w : Window rates) (start stop : Instant)
    (asked : List Rate) :
    (w.shift δ).losses? (start.shift δ) (stop.shift δ) asked
      = w.losses? start stop asked := by
  unfold losses?
  rw [tally?_shift]

theorem loss_shift (w : Window rates) (start stop : Instant) (rate : Rate) :
    (w.shift δ).loss (start.shift δ) (stop.shift δ) rate
      = w.loss start stop rate := by
  unfold loss
  rw [tally?_shift]

theorem feasible?_shift (w : Window rates) (start stop : Instant) :
    (w.shift δ).feasible? (start.shift δ) (stop.shift δ)
      = w.feasible? start stop := by
  unfold feasible?
  rw [tally?_shift]

/-- The text counts its times from the oldest outcome. -/
theorem text_shift (w : Window rates) : (w.shift δ).text = w.text := by
  obtain ⟨retention, records⟩ := w
  cases records with
  | nil => rfl
  | cons oldest rest =>
      unfold text shift
      simp [List.zipIdx_map, Function.comp_def, Outcome.shift]

end Window

end LinkAdaptation
