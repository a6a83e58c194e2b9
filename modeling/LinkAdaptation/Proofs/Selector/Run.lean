/-
Runs of a baseline. One run after another is a run; feedback given one
outcome after another, and rates drawn one after another, are runs too. So
whoever uses a baseline can be compared with the list of requests that its
use amounts to.

A baseline does four things to its selector: it has an outcome recorded,
the front of the history forgotten, a rate selected, and all dropped. What
these keep in step with the history, every run keeps; the kind of the
selector is the first such thing.
-/
import LinkAdaptation.Proofs.Selector.Baseline

namespace LinkAdaptation.Baseline

open LinkAdaptation.Random (Generator)

variable {rates : RateSet} {b b' b'' : Baseline rates}

-- ============================================================ requests

/-- Whether a request has an outcome counted. -/
def Request.isReport : Request → Bool
  | .insert o => o.status.isFeedback
  | _ => false

/-- Whether a request is for a decision. -/
def Request.isSelect : Request → Bool
  | .select _ => true
  | _ => false

-- ============================================================ stepping

theorem run_cons_eq_ok {request : Request} {rest : List Request}
    {answers : List (Option Rate)} :
    b.run (request :: rest) = .ok (b'', answers)
      ↔ ∃ b' answer later, b.handle request = .ok (b', answer)
        ∧ b'.run rest = .ok (b'', later) ∧ answers = answer :: later := by
  constructor
  · intro h
    obtain ⟨⟨b', answer⟩, hfirst, h⟩ := bind_eq_ok.1 h
    obtain ⟨⟨b₂, later⟩, hrest, h⟩ := bind_eq_ok.1 h
    cases h
    exact ⟨b', answer, later, hfirst, hrest, rfl⟩
  · intro h
    obtain ⟨b', answer, later, hfirst, hrest, rfl⟩ := h
    exact bind_eq_ok.2 ⟨_, hfirst, bind_eq_ok.2 ⟨_, hrest, rfl⟩⟩

/-- A run goes on where another ended. -/
theorem run_append {before after : List Request}
    {answers answers' : List (Option Rate)}
    (h : b.run before = .ok (b', answers))
    (h' : b'.run after = .ok (b'', answers')) :
    b.run (before ++ after) = .ok (b'', answers ++ answers') := by
  induction before generalizing b answers with
  | nil =>
      cases h
      exact h'
  | cons request rest ih =>
      obtain ⟨b₁, answer, later, hfirst, hrest, rfl⟩ := run_cons_eq_ok.1 h
      exact run_cons_eq_ok.2 ⟨b₁, answer, later ++ answers', hfirst,
        ih hrest, rfl⟩

-- ============================================================= keeping

variable {o : Outcome} {P : Selector rates → List Outcome → Prop}

/-- What survives one forgotten outcome survives any number of them. -/
theorem foldl_forget
    (hforget : ∀ s o live, P s (o :: live) → P (s.forget o) live)
    {s : Selector rates} {gone live : List Outcome} (h : P s (gone ++ live)) :
    P (gone.foldl .forget s) live := by
  induction gone generalizing s with
  | nil => exact h
  | cons o rest ih => exact ih (hforget s o (rest ++ live) h)

/-- What a selector keeps in step with its history through one forgotten
outcome, it keeps through an expiry. -/
theorem expire_keeps
    (hforget : ∀ s o live, P s (o :: live) → P (s.forget o) live)
    (h : P b.selector b.history) (now : Instant) :
    P (b.expire now).selector (b.expire now).history := by
  rw [← List.takeWhile_append_dropWhile (p := b.isAged now) (l := b.history)]
    at h
  exact foldl_forget hforget h

/-- An outcome that reports something is counted, appended, and followed by
an expiry. -/
theorem insert_eq_ok (ho : o.status.isFeedback = true) :
    b.insert o = .ok b' ↔ ∃ s, b.selector.record o = .ok s
      ∧ b' = expire { b with selector := s, history := b.history ++ [o] }
        o.time := by
  unfold insert
  rw [if_pos ho, bind_eq_ok]
  constructor
  · intro h
    obtain ⟨s, hrecord, h⟩ := h
    cases h
    exact ⟨s, hrecord, rfl⟩
  · intro h
    obtain ⟨s, hrecord, rfl⟩ := h
    exact ⟨s, hrecord, rfl⟩

theorem insert_of_not_feedback (ho : ¬ o.status.isFeedback = true) :
    b.insert o = .ok b := by
  unfold insert
  rw [if_neg ho]

/-- What every operation of a selector keeps in step with the outcomes that
are counted in it. -/
structure Kept (P : Selector rates → List Outcome → Prop) : Prop where
  record : ∀ s s' live o, P s live → o.status.isFeedback = true →
    s.record o = .ok s' → P s' (live ++ [o])
  forget : ∀ s o live, P s (o :: live) → P (s.forget o) live
  select : ∀ s s' live now rate, P s live → s.select now = .ok (s', rate) →
    P s' live
  reset : ∀ s live, P s live → P s.reset []

/-- A baseline keeps it through every request. -/
theorem Kept.handle (hkept : Kept P) (h : P b.selector b.history)
    {request : Request} {answer : Option Rate}
    (hhandle : b.handle request = .ok (b', answer)) :
    P b'.selector b'.history := by
  cases request with
  | insert o =>
      obtain ⟨b₁, hinsert, hhandle⟩ := bind_eq_ok.1 hhandle
      cases hhandle
      by_cases ho : o.status.isFeedback = true
      · obtain ⟨s, hrecord, rfl⟩ := (insert_eq_ok ho).1 hinsert
        have hrecorded := hkept.record _ _ _ _ h ho hrecord
        exact expire_keeps (b := ⟨s, b.history ++ [o], b.retention⟩)
          hkept.forget hrecorded o.time
      · rw [insert_of_not_feedback ho] at hinsert
        cases hinsert
        exact h
  | expire now =>
      cases hhandle
      exact expire_keeps hkept.forget h now
  | setRetention retention =>
      cases hhandle
      exact h
  | select now =>
      obtain ⟨⟨b₁, rate⟩, hselect, hhandle⟩ := bind_eq_ok.1 hhandle
      cases hhandle
      obtain ⟨⟨s, drawn⟩, hselect, hb₁⟩ := bind_eq_ok.1 hselect
      cases hb₁
      exact hkept.select _ _ _ _ _ h hselect
  | reset =>
      cases hhandle
      exact hkept.reset _ _ h

/-- And through every run. -/
theorem Kept.run (hkept : Kept P) (h : P b.selector b.history)
    {requests : List Request} {answers : List (Option Rate)}
    (hrun : b.run requests = .ok (b', answers)) :
    P b'.selector b'.history := by
  induction requests generalizing b answers with
  | nil =>
      cases hrun
      exact h
  | cons request rest ih =>
      obtain ⟨b₁, answer, later, hfirst, hrest, -⟩ := run_cons_eq_ok.1 hrun
      exact ih (hkept.handle h hfirst) hrest

-- =============================================================== kinds

theorem kept_kind (kind : BaselineKind) :
    Kept fun (s : Selector rates) _ => s.kind = kind := by
  constructor
  · intro s s' live o h _ hrecord
    cases s with
    | sampleRate state =>
        obtain ⟨after, -, rfl⟩ := map_eq_ok.1 hrecord
        exact h
    | rraa state =>
        obtain ⟨after, -, rfl⟩ := map_eq_ok.1 hrecord
        exact h
  · intro s o live h
    cases s <;> exact h
  · intro s s' live now rate h hselect
    cases s with
    | sampleRate state =>
        obtain ⟨p, -, hp⟩ := bind_eq_ok.1 hselect
        cases hp
        exact h
    | rraa state =>
        cases hselect
        exact h
  · intro s live h
    cases s <;> exact h

/-- A baseline stays of the kind it was started as. -/
theorem kind_run {requests : List Request} {answers : List (Option Rate)}
    (h : b.run requests = .ok (b', answers)) : b'.kind = b.kind :=
  (kept_kind b.kind).run rfl h

theorem kind_start (kind : BaselineKind) (rates : RateSet)
    (order : BootstrapOrder) (generator : Generator) (now : Instant) :
    (start kind rates order generator now).kind = kind := by
  cases kind <;> rfl

-- ============================================================ feedback

/-- Outcomes inserted one after another are a run of insertions. -/
theorem run_inserts {outcomes : List Outcome}
    (h : outcomes.foldlM insert b = .ok b') :
    ∃ answers, b.run (outcomes.map .insert) = .ok (b', answers) := by
  induction outcomes generalizing b with
  | nil =>
      cases h
      exact ⟨[], rfl⟩
  | cons o rest ih =>
      rw [List.foldlM_cons] at h
      obtain ⟨b₁, hinsert, hrest⟩ := bind_eq_ok.1 h
      obtain ⟨later, hlater⟩ := ih hrest
      refine ⟨none :: later, run_cons_eq_ok.2 ⟨b₁, none, later, ?_, hlater,
        rfl⟩⟩
      exact bind_eq_ok.2 ⟨b₁, hinsert, rfl⟩

-- ============================================================= drawing

/-- Asked for one rate after another at an instant, a baseline answers with
these rates and leaves another baseline. -/
def Draws (b : Baseline rates) (now : Instant) (drawn : List Rate)
    (b' : Baseline rates) : Prop :=
  b.run (List.replicate drawn.length (.select now)) = .ok (b', drawn.map some)

theorem draws_nil (b : Baseline rates) (now : Instant) : b.Draws now [] b :=
  rfl

theorem draws_singleton {now : Instant} {rate : Rate}
    (h : b.select now = .ok (b', rate)) : b.Draws now [rate] b' :=
  run_cons_eq_ok.2 ⟨b', some rate, [], bind_eq_ok.2 ⟨_, h, rfl⟩, rfl, rfl⟩

theorem Draws.append {now : Instant} {drawn drawn' : List Rate}
    (h : b.Draws now drawn b') (h' : b'.Draws now drawn' b'') :
    b.Draws now (drawn ++ drawn') b'' := by
  unfold Draws
  rw [List.length_append, ← List.replicate_append_replicate,
    List.map_append]
  exact run_append h h'

theorem draws_selectMany {now : Instant} {n : Nat} {drawn : List Rate}
    (h : b.selectMany now n = .ok (b', drawn)) : b.Draws now drawn b' := by
  induction n generalizing b drawn with
  | zero =>
      cases h
      exact draws_nil _ now
  | succ n ih =>
      obtain ⟨⟨b₁, rate⟩, hfirst, h⟩ := bind_eq_ok.1 h
      obtain ⟨⟨b₂, rest⟩, hrest, h⟩ := bind_eq_ok.1 h
      cases h
      exact (draws_singleton hfirst).append (ih hrest)

end LinkAdaptation.Baseline
