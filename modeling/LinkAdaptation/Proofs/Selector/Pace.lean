/-
The pace of robust rate adaptation. The estimation window of a candidate is
so many decisions long, and only the last of them can lead to another
candidate. Outcomes that are recorded or forgotten in between change neither
the candidate nor what is left of its window; a reset begins a window on
the slowest.

What is left of a window and the decisions made in it add up to its length.
That is the invariant of a window; it begins with a full one and is kept by
every request that does not close it.
-/
import LinkAdaptation.Proofs.Selector.Rraa
import LinkAdaptation.Selector.Request

namespace LinkAdaptation

open Selector (Request)

variable {rates : RateSet}

namespace Rraa

-- ============================================================ windows

/-- The next decision ends the window. -/
def IsDue (s : Rraa rates) : Prop := s.remaining ≤ 1

instance (s : Rraa rates) : Decidable s.IsDue :=
  inferInstanceAs (Decidable (_ ≤ _))

/-- Whether a request closes the window: a decision that is due, or a
reset. -/
def closes (s : Rraa rates) : Request → Bool
  | .select _ => s.IsDue
  | .reset => true
  | _ => false

/-- Whether requests leave the window open. -/
def leavesOpen (s : Rraa rates) : List Request → Bool
  | [] => true
  | request :: rest =>
      !s.closes request
        && match s.handle request with
          | .ok s' => s'.leavesOpen rest
          | .error _ => true

/-- A window begins where a selector is made, and where a request closed the
window before. -/
inductive Opens (s₀ : Rraa rates) : List Request → Prop where
  | made : s₀.Opens []
  | closed {requests : List Request} {request : Request} {s : Rraa rates}
      (hrun : s₀.run requests = .ok s) (hclosed : s.closes request = true) :
      s₀.Opens (requests ++ [request])

-- ======================================================= construction

open PlainRraa (windowOf)

/-- A selector as it is made: with the windows of a schedule, or over any
candidates with the windows that go by the rate. -/
inductive Built : List (Rate × Nat) → Rraa rates → Prop where
  | scheduled {schedule : List (Rate × Nat)} {s : Rraa rates}
      (h : ofSchedule schedule = .ok ⟨rates, s⟩) : Built schedule s
  | standard :
      Built (rates.toList.map fun rate => (rate, defaultWindow rate))
        (start rates defaultWindow)

variable {schedule : List (Rate × Nat)} {size : rates.Index → Nat}
  {o : Outcome} {s s₀ s' : Rraa rates} {requests between : List Request}

/-- The packets that a schedule gives the window of a candidate. -/
def windowIn (schedule : List (Rate × Nat)) (i : rates.Index) : Nat :=
  (schedule.lookup (rates.get i)).getD 0

/-- A key of a list of pairs is found in it, with what it stands for. -/
theorem mem_of_lookup {rate : Rate} (h : rate ∈ schedule.map (·.1)) :
    ∃ n, schedule.lookup rate = some n ∧ (rate, n) ∈ schedule := by
  cases hlookup : schedule.lookup rate with
  | none =>
      obtain ⟨entry, hentry, rfl⟩ := List.mem_map.1 h
      have hother := List.lookup_eq_none_iff.1 hlookup entry hentry
      simp at hother
  | some n =>
      obtain ⟨before, after, rfl, -⟩ := List.lookup_eq_some_iff.1 hlookup
      exact ⟨n, rfl, by simp⟩

/-- Built either way, a selector starts with the windows it was given. -/
theorem Built.exists_start (h : Built schedule s) :
    ∃ window, s = start rates window
      ∧ (windowOf window : rates.Index → Nat) = windowIn schedule := by
  cases h with
  | scheduled h =>
      obtain ⟨rates', hrates, h⟩ := bind_eq_ok.1 h
      split at h
      · cases h
      · next hpositive =>
          cases h
          refine ⟨_, rfl, funext fun i => ?_⟩
          have hmem := RateSet.get_mem i
          rw [RateSet.toList_of_ofList hrates] at hmem
          obtain ⟨n, hn, hentry⟩ := mem_of_lookup hmem
          have hpos : n ≠ 0 := by
            simpa using List.find?_eq_none.1 hpositive _ hentry
          unfold windowOf windowIn
          dsimp only
          rw [hn, Option.getD_some, Option.getD_some,
            Nat.max_eq_left (Nat.pos_of_ne_zero hpos)]
  | standard =>
      -- the keys are the candidates, so what is found is the default
      refine ⟨defaultWindow, rfl, funext fun i => ?_⟩
      have hkey : rates.get i ∈ (rates.toList.map fun rate =>
          (rate, defaultWindow rate)).map (·.1) := by
        simpa using RateSet.get_mem i
      obtain ⟨n, hn, hentry⟩ := mem_of_lookup hkey
      obtain ⟨rate, -, hpair⟩ := List.mem_map.1 hentry
      cases hpair
      have hpos : 1 ≤ defaultWindow (rates.get i) := by
        unfold defaultWindow
        split_ifs <;> decide
      unfold windowOf windowIn
      rw [hn, Option.getD_some, Nat.max_eq_left hpos]

-- ============================================================ keeping

/-- What is left of a window is a part of it, and no window is empty. -/
structure Paced (size : rates.Index → Nat) (s : Rraa rates) : Prop where
  window_eq : ∀ i, (s.table.get i).window = size i
  size_pos : ∀ i, 1 ≤ size i
  remaining_pos : 1 ≤ s.remaining
  remaining_le : s.remaining ≤ size s.current

theorem paced_start (rates : RateSet) (window : Rate → Nat) :
    Paced (windowOf window) (start rates window) := by
  have hpos : ∀ i : rates.Index, 1 ≤ windowOf window i :=
    fun _ => Nat.le_max_right _ _
  refine ⟨?_, hpos, hpos rates.bottom, Nat.le_refl _⟩
  intro i
  unfold start
  dsimp only
  rw [Table.get_ofFn]
  rfl

/-- A change that leaves candidate and windows alone: of counts, sums and
shares. -/
structure SamePace (s s' : Rraa rates) : Prop where
  same : s.SameWindow s'
  window_eq : ∀ i, (s'.table.get i).window = (s.table.get i).window

theorem SamePace.refl (s : Rraa rates) : s.SamePace s :=
  ⟨⟨rfl, rfl⟩, fun _ => rfl⟩

/-- Setting an entry of the same window is such a change. -/
theorem samePace_set {i : rates.Index} {e : Entry}
    (h : e.window = (s.table.get i).window) (outdated : Bool) :
    s.SamePace { s with table := s.table.set i e, outdated } :=
  ⟨⟨rfl, rfl⟩, Table.forall_get_set
    (P := fun i (e : Entry) => e.window = (s.table.get i).window)
    (fun _ _ => rfl) h⟩

theorem Paced.same (h : s.Paced size) (hsame : s.SamePace s') :
    s'.Paced size := by
  obtain ⟨hwindow_eq, hsize, hpos, hle⟩ := h
  obtain ⟨⟨hremaining, hcurrent⟩, hwindow⟩ := hsame
  refine ⟨fun i => (hwindow i).trans (hwindow_eq i), hsize, ?_, ?_⟩
  · rw [hremaining]
    exact hpos
  · rw [hremaining, hcurrent]
    exact hle

theorem Entry.window_count {e : Entry} :
    Upholds (e.count o) (fun e' => e'.window = e.window)
      (· = .counterOverflow) := by
  apply ((increment_upholds e.sent).imp fun _ _ => trivial).bind
  intro sent _
  dsimp only
  split
  · apply ((increment_upholds e.acked).imp fun _ _ => trivial).bind
    intro acked _
    exact rfl
  · exact rfl

theorem Entry.window_uncount {e : Entry} :
    (e.uncount o).window = e.window := by
  unfold Entry.uncount
  dsimp only
  split <;> rfl

theorem samePace_record (s : Rraa rates) (o : Outcome) :
    Upholds (s.record o) s.SamePace (· = .counterOverflow) := by
  unfold record
  split
  · split
    · apply Entry.window_count.bind
      intro e he
      exact samePace_set he true
    · exact .refl s
  · exact .refl s

theorem samePace_forget (s : Rraa rates) (o : Outcome) :
    s.SamePace (s.forget o) := by
  unfold forget
  split
  · split
    · exact samePace_set Entry.window_uncount true
    · exact .refl s
  · exact .refl s

theorem samePace_refresh (s : Rraa rates) : s.SamePace s.refresh := by
  unfold refresh
  split
  · refine ⟨⟨rfl, rfl⟩, ?_⟩
    intro i
    rw [Table.get_map]
    rfl
  · exact .refl s

theorem Paced.reset (h : s.Paced size) :
    s.reset.Paced size ∧ s.reset.remaining = size s.reset.current := by
  have hbottom : s.reset.remaining = size rates.bottom :=
    h.window_eq rates.bottom
  refine ⟨⟨?_, h.size_pos, ?_, Nat.le_of_eq hbottom⟩, hbottom⟩
  · intro i
    unfold Rraa.reset
    rw [Table.get_map]
    exact h.window_eq i
  · rw [hbottom]
    exact h.size_pos rates.bottom

/-- The end of a window leads to a neighbour, if anywhere. -/
theorem next_near (s : Rraa rates) :
    s.next.val ≤ s.current.val + 1 ∧ s.current.val ≤ s.next.val + 1 := by
  unfold next
  dsimp only
  split
  · unfold down
    dsimp only
    omega
  · split
    · unfold up
      split
      · dsimp only
        omega
      · omega
    · omega

theorem select_of_due (h : s.IsDue) :
    s.select.1 = { s.refresh with
      current := s.refresh.next
      remaining := (s.refresh.table.get s.refresh.next).window } := by
  have hlast : s.refresh.remaining - 1 = 0 := by
    rw [s.samePace_refresh.same.1]
    exact Nat.sub_eq_zero_of_le h
  unfold select
  dsimp only
  rw [if_pos hlast]

theorem select_of_not_due (h : ¬ s.IsDue) :
    s.select.1 = { s.refresh with remaining := s.remaining - 1 } := by
  have hremaining : s.refresh.remaining = s.remaining :=
    s.samePace_refresh.same.1
  have hmore : ¬ s.remaining - 1 = 0 := by
    unfold IsDue at h
    omega
  unfold select
  dsimp only
  rw [hremaining, if_neg hmore]

/-- A decision that is due begins a window on a candidate nearby. -/
theorem Paced.select_of_due (h : s.Paced size) (hdue : s.IsDue) :
    s.select.1.Paced size ∧ s.select.1.remaining = size s.select.1.current
      ∧ s.select.1.current.val ≤ s.current.val + 1
      ∧ s.current.val ≤ s.select.1.current.val + 1 := by
  have hwindow_eq := (h.same s.samePace_refresh).window_eq
  have hnear := s.refresh.next_near
  rw [s.samePace_refresh.same.2] at hnear
  rw [Rraa.select_of_due hdue]
  have hfull := hwindow_eq s.refresh.next
  refine ⟨⟨hwindow_eq, h.size_pos, ?_, Nat.le_of_eq hfull⟩, hfull, hnear⟩
  dsimp only
  rw [hfull]
  exact h.size_pos _

/-- Any other one uses up one packet of the window. -/
theorem Paced.select_of_not_due (h : s.Paced size) (hdue : ¬ s.IsDue) :
    s.select.1.Paced size ∧ s.select.1.current = s.current
      ∧ s.select.1.remaining + 1 = s.remaining := by
  have hsame := s.samePace_refresh.same
  obtain ⟨hwindow_eq, hsize, hpos, hle⟩ := h.same s.samePace_refresh
  rw [hsame.1] at hpos hle
  unfold IsDue at hdue
  rw [Rraa.select_of_not_due hdue]
  refine ⟨⟨hwindow_eq, hsize, ?_, ?_⟩, hsame.2, ?_⟩
  · show 1 ≤ s.remaining - 1
    omega
  · show s.remaining - 1 ≤ size s.refresh.current
    omega
  · show s.remaining - 1 + 1 = s.remaining
    omega

-- =============================================================== runs

/-- A request that closes a window begins a full one; any other uses up one
packet of it if it is for a decision, and nothing if it is not. -/
theorem Paced.handle (h : s.Paced size) (request : Request) :
    Upholds (s.handle request)
      (fun s' => s'.Paced size
        ∧ if s.closes request then s'.remaining = size s'.current
          else s'.current = s.current
            ∧ s'.remaining + (if request.isSelect then 1 else 0) = s.remaining)
      (· = .counterOverflow) := by
  cases request with
  | record o =>
      apply (s.samePace_record o).imp
      intro s' hsame
      exact ⟨h.same hsame, hsame.same.2, hsame.same.1⟩
  | forget o =>
      have hsame := s.samePace_forget o
      exact ⟨h.same hsame, hsame.same.2, hsame.same.1⟩
  | select now =>
      by_cases hdue : s.IsDue
      · obtain ⟨hpaced, hfull, -⟩ := h.select_of_due hdue
        refine ⟨hpaced, ?_⟩
        rw [if_pos (show s.closes (.select now) = true from decide_eq_true hdue)]
        exact hfull
      · obtain ⟨hpaced, hkept⟩ := h.select_of_not_due hdue
        refine ⟨hpaced, ?_⟩
        rw [if_neg (by simpa [closes] using hdue)]
        exact hkept
  | reset => exact h.reset

theorem Paced.run (h : s.Paced size) (requests : List Request) :
    Upholds (s.run requests) (Paced size) (· = .counterOverflow) := by
  induction requests generalizing s with
  | nil => exact h
  | cons request rest ih =>
      apply (h.handle request).bind
      intro s' h'
      exact ih h'.1

theorem run_append {before after : List Request} :
    s.run (before ++ after) = s.run before >>= fun s' => s'.run after := by
  induction before generalizing s with
  | nil => rfl
  | cons request rest ih =>
      simp only [List.cons_append, run, ih, bind_assoc]

/-- A run that can be computed exists, with a property of its end that can
be tested. -/
theorem exists_run (s₀ : Rraa rates) (requests : List Request)
    (P : Rraa rates → Prop) [DecidablePred P]
    (h : (s₀.run requests).toOption.map (fun s => Decidable.decide (P s))
      = some true) :
    ∃ s, s₀.run requests = .ok s ∧ P s := by
  obtain ⟨s, hrun, hP⟩ := Option.map_eq_some_iff.1 h
  rw [toOption_eq_some_iff] at hrun
  exact ⟨s, hrun, of_decide_eq_true hP⟩

/-- As long as a window stays open, what is left of it and the decisions
made in it add up to what was left at first. -/
theorem Paced.run_open (h : s.Paced size) (hopen : s.leavesOpen requests = true)
    (hrun : s.run requests = .ok s') :
    s'.current = s.current
      ∧ s'.remaining + requests.countP Request.isSelect = s.remaining := by
  induction requests generalizing s with
  | nil =>
      cases hrun
      exact ⟨rfl, rfl⟩
  | cons request rest ih =>
      obtain ⟨s₁, hfirst, hrest⟩ := bind_eq_ok.1 hrun
      unfold leavesOpen at hopen
      rw [hfirst, Bool.and_eq_true, Bool.not_eq_true'] at hopen
      obtain ⟨hpaced, hkept⟩ := (h.handle request).of_eq_ok hfirst
      rw [hopen.1, if_neg Bool.false_ne_true] at hkept
      obtain ⟨hcurrent, hleft⟩ := ih hpaced hopen.2 hrest
      refine ⟨hcurrent.trans hkept.1, ?_⟩
      rw [List.countP_cons]
      omega

/-- A window that begins is full. -/
theorem Paced.full_of_opens (h : s₀.Paced size)
    (hfull : s₀.remaining = size s₀.current) (hopens : s₀.Opens requests)
    (hrun : s₀.run requests = .ok s) : s.remaining = size s.current := by
  cases hopens with
  | made =>
      cases hrun
      exact hfull
  | @closed before request s₁ hbefore hclosed =>
      rw [run_append, bind_eq_ok] at hrun
      obtain ⟨s₂, hsame, hrun⟩ := hrun
      obtain rfl := Except.ok.inj (hbefore.symm.trans hsame)
      obtain ⟨s₃, hlast, hrun⟩ := bind_eq_ok.1 hrun
      cases hrun
      have hpaced := (h.run before).of_eq_ok hbefore
      have hclosing := ((hpaced.handle request).of_eq_ok hlast).2
      rw [hclosed, if_pos rfl] at hclosing
      exact hclosing

/-- However a selector was made and whatever it was asked, at least one
packet is left of its window, and no more than the schedule gives the
current candidate. A request leads to another candidate only if it closes
the window, and a decision no further than to a neighbour. And from where a
window begins, as long as it stays open, the candidate stays, and the next
decision ends the window exactly if with it there were as many as the
schedule gives this candidate. -/
theorem window_discipline (hbuilt : Built schedule s₀)
    (hrun : s₀.run requests = .ok s) :
    1 ≤ s.remaining ∧ s.remaining ≤ windowIn schedule s.current
      ∧ (s.select.1.current.val ≤ s.current.val + 1
        ∧ s.current.val ≤ s.select.1.current.val + 1)
      ∧ (∀ request s', s.handle request = .ok s' → s'.current ≠ s.current →
        s.closes request = true)
      ∧ (s₀.Opens requests → ∀ between s', s.leavesOpen between = true →
        s.run between = .ok s' → s'.current = s.current
          ∧ (s'.IsDue ↔ between.countP Request.isSelect + 1
            = windowIn schedule s.current)) := by
  obtain ⟨window, rfl, hwindow⟩ := hbuilt.exists_start
  have hstart := paced_start rates window
  rw [hwindow] at hstart
  have hpaced := (hstart.run requests).of_eq_ok hrun
  refine ⟨hpaced.remaining_pos, hpaced.remaining_le, ?_, ?_, ?_⟩
  · by_cases hdue : s.IsDue
    · exact (hpaced.select_of_due hdue).2.2
    · rw [(hpaced.select_of_not_due hdue).2.1]
      omega
  · intro request s' hhandle hmoved
    have hkept := ((hpaced.handle request).of_eq_ok hhandle).2
    split at hkept
    · next hclosed => exact hclosed
    · exact absurd hkept.1 hmoved
  · intro hopens between s' hopen hbetween
    have hfull := hstart.full_of_opens (congrFun hwindow _) hopens hrun
    obtain ⟨hcurrent, hleft⟩ := hpaced.run_open hopen hbetween
    have hpos := ((hpaced.run between).of_eq_ok hbetween).remaining_pos
    refine ⟨hcurrent, ?_⟩
    unfold IsDue
    omega

/-- The third decision closes a window of three and leads up, with outcomes
recorded and forgotten in between. -/
theorem window_discipline_scheduled :
    let schedule : List (Rate × Nat) := [(10, 3), (20, 2), (55, 4)]
    let rates : RateSet := ⟨#[10, 20, 55], by decide, by decide⟩
    let s₀ : Rraa rates := start rates fun rate => (schedule.lookup rate).getD 1
    let acked : Outcome := ⟨⟨0⟩, 0, 10, 1000, .acked⟩
    let now : Instant := ⟨0⟩
    let before : List Request :=
      [.select now, .record acked, .select now, .forget acked, .record acked]
    ∃ s : Rraa rates, Built schedule s₀
      ∧ s₀.run (before ++ [.select now]) = .ok s
      ∧ s₀.Opens (before ++ [.select now]) ∧ s.current.val = 1
      ∧ 1 ≤ s.remaining ∧ s.remaining ≤ windowIn schedule s.current
      ∧ (s.select.1.current.val ≤ s.current.val + 1
        ∧ s.current.val ≤ s.select.1.current.val + 1)
      ∧ (∀ request s', s.handle request = .ok s' → s'.current ≠ s.current →
        s.closes request = true)
      ∧ (s₀.Opens (before ++ [.select now]) → ∀ between s',
        s.leavesOpen between = true → s.run between = .ok s' →
          s'.current = s.current
            ∧ (s'.IsDue ↔ between.countP Request.isSelect + 1
              = windowIn schedule s.current)) := by
  intro schedule rates s₀ acked now before
  have hbuilt : Built schedule s₀ := .scheduled rfl
  obtain ⟨s₁, hbefore, hclosed, hcurrent⟩ :=
    exists_run s₀ before
      (fun s => s.closes (.select now) = true ∧ s.select.1.current.val = 1)
      (by decide +kernel)
  have hrun : s₀.run (before ++ [.select now]) = .ok s₁.select.1 := by
    rw [run_append, hbefore]
    rfl
  exact ⟨s₁.select.1, hbuilt, hrun, .closed hbefore hclosed, hcurrent,
    window_discipline hbuilt hrun⟩

end Rraa

end LinkAdaptation
