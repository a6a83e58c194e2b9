/-
What a baseline remembers. A counter and a sum of payload bytes that go up
with every arriving outcome of a sort, and down with every one forgotten,
are the count and the bytes of the outcomes of that sort in between. The
bytes are kept in doubles, but they are whole numbers far below the largest
exact one, so nothing is lost.

Outcomes are forgotten from the front of the history, up to the first that
has not aged. As long as outcomes arrive in the order of time, the history
after an arrival is what is young enough then, unless an expiry in between
has looked further ahead than the arrival.
-/
import LinkAdaptation.Proofs.Number.Whole
import LinkAdaptation.Proofs.Outcome
import LinkAdaptation.Proofs.Selector.Run

namespace LinkAdaptation

-- ============================================================ counting

/-- A counter and a sum that have followed the outcomes of a sort. -/
structure Counted (sort : Outcome → Bool) (live : List Outcome) (count : Nat)
    (bytes : Float) : Prop where
  count_eq : count = live.countP sort
  bytes_eq : bytes = (bytesOf sort live).toFloat
  count_lt : live.countP sort < counterLimit

namespace Counted

variable {sort : Outcome → Bool} {live : List Outcome} {o : Outcome}
  {count : Nat} {bytes : Float}

theorem empty (sort : Outcome → Bool) : Counted sort [] 0 0.0 :=
  ⟨rfl, zero_eq_toFloat, by rw [List.countP_nil]; decide⟩

/-- The bytes that a counter in its range can stand for are a double. -/
theorem bytesOf_lt (h : live.countP sort < counterLimit) :
    bytesOf sort live < wholeLimit := by
  have hle := bytesOf_le sort live
  have hlimit : counterLimit = 4294967296 := rfl
  unfold wholeLimit
  omega

theorem add (h : Counted sort live count bytes) (ho : sort o = true)
    (hroom : count + 1 < counterLimit) :
    Counted sort (live ++ [o]) (count + 1) (bytes + o.bytes) := by
  have hcount : (live ++ [o]).countP sort = live.countP sort + 1 := by
    simp [ho]
  have hlt : (live ++ [o]).countP sort < counterLimit := by
    rw [hcount, ← h.count_eq]
    exact hroom
  refine ⟨by rw [hcount, h.count_eq], ?_, hlt⟩
  have hbytes := bytesOf_lt hlt
  rw [bytesOf_concat_of_pos ho] at hbytes ⊢
  rw [h.bytes_eq, Outcome.bytes, toFloat_length, toFloat_add hbytes]

theorem skip (h : Counted sort live count bytes) (ho : ¬ sort o = true) :
    Counted sort (live ++ [o]) count bytes := by
  have hcount : (live ++ [o]).countP sort = live.countP sort := by simp [ho]
  refine ⟨by rw [hcount, h.count_eq], ?_, by rw [hcount]; exact h.count_lt⟩
  rw [bytesOf_concat_of_neg ho, h.bytes_eq]

theorem pos (h : Counted sort (o :: live) count bytes) (ho : sort o = true) :
    1 ≤ count := by
  rw [h.count_eq, List.countP_cons_of_pos ho]
  exact Nat.succ_pos _

theorem remove (h : Counted sort (o :: live) count bytes)
    (ho : sort o = true) :
    Counted sort live (count - 1) (bytes - o.bytes) := by
  have hcount := List.countP_cons_of_pos (l := live) ho
  have hlt := h.count_lt
  have hbytes := bytesOf_lt hlt
  rw [bytesOf_cons_of_pos ho] at hbytes
  refine ⟨by rw [h.count_eq, hcount, Nat.add_sub_cancel], ?_, by omega⟩
  rw [h.bytes_eq, bytesOf_cons_of_pos ho, Outcome.bytes, toFloat_length,
    toFloat_sub (Nat.le_add_right _ _) hbytes, Nat.add_sub_cancel_left]

theorem pass (h : Counted sort (o :: live) count bytes)
    (ho : ¬ sort o = true) : Counted sort live count bytes := by
  obtain ⟨hcount, hbytes, hlt⟩ := h
  rw [List.countP_cons_of_neg ho] at hcount hlt
  rw [bytesOf_cons_of_neg ho] at hbytes
  exact ⟨hcount, hbytes, hlt⟩

/-- The order of the outcomes does not matter. -/
theorem perm (h : Counted sort live count bytes) {reordered : List Outcome}
    (hperm : live.Perm reordered) : Counted sort reordered count bytes := by
  obtain ⟨hcount, hbytes, hlt⟩ := h
  rw [hperm.countP_eq] at hcount hlt
  rw [bytesOf_perm hperm] at hbytes
  exact ⟨hcount, hbytes, hlt⟩

/-- Nor do outcomes of other sorts. -/
theorem of_filter_eq (h : Counted sort live count bytes)
    {wide : Outcome → Bool} (hwide : ∀ o, sort o = true → wide o = true)
    {other : List Outcome} (heq : other.filter wide = live.filter wide) :
    Counted sort other count bytes := by
  obtain ⟨hcount, hbytes, hlt⟩ := h
  rw [← countP_filter_of_imp hwide, ← heq, countP_filter_of_imp hwide]
    at hcount hlt
  rw [← bytesOf_filter hwide, ← heq, bytesOf_filter hwide] at hbytes
  exact ⟨hcount, hbytes, hlt⟩

/-- Settling a sum of whole numbers changes nothing. -/
theorem settle_eq (h : Counted sort live count bytes) :
    settle bytes = bytes := by
  rw [h.bytes_eq, settle_toFloat (bytesOf_lt h.count_lt)]

theorem settle (h : Counted sort live count bytes) :
    Counted sort live count (LinkAdaptation.settle bytes) := by
  rw [h.settle_eq]
  exact h

end Counted

namespace Baseline

variable {rates : RateSet} {b b' : Baseline rates} {o : Outcome}

-- ============================================================== ageing

/-- Whether an outcome is younger than a retention at an instant. One that
lies ahead is. -/
def isYoung (retention : Duration) (now : Instant) (o : Outcome) : Bool :=
  now.nanos - o.time.nanos < (retention.nanos : Int)

theorem isAged_eq (b : Baseline rates) (now : Instant) (o : Outcome) :
    b.isAged now o = !isYoung b.retention now o := by
  rw [Bool.eq_iff_iff]
  unfold isAged Instant.since? isYoung
  by_cases hpast : o.time ≤ now
  · rw [if_pos hpast]
    have hpast : o.time.nanos ≤ now.nanos := hpast
    show decide (b.retention.nanos ≤ (now.nanos - o.time.nanos).toNat) = true
      ↔ _
    simp only [decide_eq_true_eq, Bool.not_eq_true', decide_eq_false_iff_not]
    omega
  · rw [if_neg hpast]
    have hpast : ¬ o.time.nanos ≤ now.nanos := hpast
    simp only [Bool.false_eq_true, Bool.not_eq_true', decide_eq_false_iff_not,
      false_iff]
    omega

-- ========================================================= remembering

/-- What a baseline was told since it was last reset: the outcomes, and the
instants at which it was made to forget aged ones. -/
structure Past where
  arrivals : List Outcome
  expiries : List Instant

namespace Past

/-- Nothing. -/
def empty : Past := ⟨[], []⟩

/-- The past after a request. -/
def note (p : Past) : Request → Past
  | .insert o =>
      if o.status.isFeedback then { p with arrivals := p.arrivals ++ [o] }
      else p
  | .expire now => { p with expiries := p.expiries ++ [now] }
  | .reset => empty
  | .setRetention _ | .select _ => p

/-- Whether an outcome had a reason to be forgotten: at an arrival or an
expiry it was not young. -/
def HasAged (p : Past) (retention : Duration) (o : Outcome) : Prop :=
  (∃ a ∈ p.arrivals, isYoung retention a.time o = false)
    ∨ ∃ t ∈ p.expiries, isYoung retention t o = false

end Past

/-- The past of a fresh baseline after some requests. -/
def past (requests : List Request) : Past := requests.foldl Past.note .empty

/-- The history is the last part of what arrived, and all that came before
had a reason to be forgotten. -/
structure Remembers (retention : Duration) (p : Past) (b : Baseline rates) :
    Prop where
  retention_eq : b.retention = retention
  arrivals_eq : ∃ gone, p.arrivals = gone ++ b.history
    ∧ ∀ g ∈ gone, p.HasAged retention g

variable {retention : Duration} {p p' : Past}

theorem remembers_of_history_nil (hretention : b.retention = retention)
    (hhistory : b.history = []) : Remembers retention .empty b :=
  ⟨hretention, [], by rw [hhistory]; rfl, nofun⟩

/-- More of a past gives more reasons. -/
theorem Remembers.extend (h : Remembers retention p b)
    (harrivals : p'.arrivals = p.arrivals)
    (hexpiries : p.expiries ⊆ p'.expiries) : Remembers retention p' b := by
  obtain ⟨hretention, gone, hsplit, haged⟩ := h
  refine ⟨hretention, gone, harrivals.trans hsplit, ?_⟩
  intro g hg
  rcases haged g hg with ⟨a, ha, hold⟩ | ⟨t, ht, hold⟩
  · exact .inl ⟨a, by rw [harrivals]; exact ha, hold⟩
  · exact .inr ⟨t, hexpiries ht, hold⟩

theorem Remembers.same (h : Remembers retention p b)
    (hretention : b'.retention = b.retention)
    (hhistory : b'.history = b.history) : Remembers retention p b' :=
  ⟨hretention.trans h.retention_eq, by rw [hhistory]; exact h.arrivals_eq⟩

/-- An expiry forgets for a reason, at an instant that is in the past. -/
theorem Remembers.expire (h : Remembers retention p b) {now : Instant}
    (hnow : ∀ o, isYoung retention now o = false → p.HasAged retention o) :
    Remembers retention p (b.expire now) := by
  obtain ⟨hretention, gone, hsplit, haged⟩ := h
  refine ⟨hretention, gone ++ b.history.takeWhile (b.isAged now), ?_, ?_⟩
  · show p.arrivals
      = gone ++ b.history.takeWhile _ ++ b.history.dropWhile (b.isAged now)
    rw [List.append_assoc, List.takeWhile_append_dropWhile, hsplit]
  · intro g hg
    rcases List.mem_append.1 hg with hg | hg
    · exact haged g hg
    · have hold := List.mem_takeWhile_imp hg
      rw [isAged_eq, hretention, Bool.not_eq_true'] at hold
      exact hnow g hold

theorem Remembers.insert (h : Remembers retention p b)
    (hinsert : b.insert o = .ok b') :
    Remembers retention (p.note (.insert o)) b' := by
  unfold Past.note
  dsimp only
  by_cases ho : o.status.isFeedback = true
  · obtain ⟨s, -, rfl⟩ := (insert_eq_ok ho).1 hinsert
    obtain ⟨hretention, gone, hsplit, haged⟩ := h
    rw [if_pos ho]
    have hrecorded : Remembers retention
        { p with arrivals := p.arrivals ++ [o] }
        { b with selector := s, history := b.history ++ [o] } := by
      refine ⟨hretention, gone, ?_, ?_⟩
      · show p.arrivals ++ [o] = gone ++ (b.history ++ [o])
        rw [hsplit, List.append_assoc]
      · intro g hg
        rcases haged g hg with ⟨a, ha, hold⟩ | hold
        · exact .inl ⟨a, List.mem_append_left _ ha, hold⟩
        · exact .inr hold
    apply hrecorded.expire
    intro g hold
    exact .inl ⟨o, by simp, hold⟩
  · rw [insert_of_not_feedback ho] at hinsert
    cases hinsert
    rw [if_neg ho]
    exact h

/-- A request that does not change the retention keeps history and past
together. -/
theorem Remembers.handle (h : Remembers retention p b) {request : Request}
    {answer : Option Rate} (hhandle : b.handle request = .ok (b', answer))
    (hsame : ∀ other, request = .setRetention other → other = retention) :
    Remembers retention (p.note request) b' := by
  cases request with
  | insert o =>
      obtain ⟨b₁, hinsert, hhandle⟩ := bind_eq_ok.1 hhandle
      cases hhandle
      exact h.insert hinsert
  | expire now =>
      cases hhandle
      have hextended : Remembers retention (p.note (.expire now)) b :=
        h.extend rfl (List.subset_append_left _ _)
      apply hextended.expire
      intro g hold
      exact .inr ⟨now, by simp [Past.note], hold⟩
  | setRetention other =>
      cases hhandle
      exact ⟨hsame other rfl, h.arrivals_eq⟩
  | select now =>
      obtain ⟨⟨b₁, rate⟩, hselect, hhandle⟩ := bind_eq_ok.1 hhandle
      cases hhandle
      obtain ⟨_, -, hselect⟩ := bind_eq_ok.1 hselect
      cases hselect
      exact h.same rfl rfl
  | reset =>
      cases hhandle
      exact remembers_of_history_nil h.retention_eq rfl

theorem Remembers.run (h : Remembers retention p b) {requests : List Request}
    {answers : List (Option Rate)} (hrun : b.run requests = .ok (b', answers))
    (hsame : ∀ other, .setRetention other ∈ requests → other = retention) :
    Remembers retention (requests.foldl Past.note p) b' := by
  induction requests generalizing b p answers with
  | nil =>
      cases hrun
      exact h
  | cons request rest ih =>
      obtain ⟨b₁, answer, later, hfirst, hrest, -⟩ := run_cons_eq_ok.1 hrun
      refine ih (h.handle hfirst ?_) hrest ?_
      · intro other heq
        exact hsame other (heq ▸ List.mem_cons_self ..)
      · intro other hother
        exact hsame other (List.mem_cons_of_mem _ hother)

/-- An outcome that had a reason to be forgotten is not young at an instant
that no arrival and no expiry was past. -/
theorem Past.HasAged.not_young (h : p.HasAged retention o) {now : Instant}
    (harrivals : ∀ a ∈ p.arrivals, a.time.nanos ≤ now.nanos)
    (hexpiries : ∀ t ∈ p.expiries, t ≤ now) :
    isYoung retention now o = false := by
  unfold isYoung
  rw [decide_eq_false_iff_not]
  rcases h with ⟨a, ha, hold⟩ | ⟨t, ht, hold⟩
  · have hle := harrivals a ha
    unfold isYoung at hold
    rw [decide_eq_false_iff_not] at hold
    omega
  · have hle : t.nanos ≤ now.nanos := hexpiries t ht
    unfold isYoung at hold
    rw [decide_eq_false_iff_not] at hold
    omega

/-- While outcomes arrive in the order of time, the history after an arrival
is all that has arrived and is young then, provided that no expiry looked
further ahead. -/
theorem Remembers.history_of_insert (h : Remembers retention p b)
    (ho : o.status.isFeedback = true)
    (hordered : InOrder (p.arrivals ++ [o]))
    (hexpiries : ∀ t ∈ p.expiries, t ≤ o.time)
    (hinsert : b.insert o = .ok b') :
    b'.history = (p.arrivals ++ [o]).filter (isYoung retention o.time) := by
  obtain ⟨s, -, rfl⟩ := (insert_eq_ok ho).1 hinsert
  obtain ⟨hretention, gone, hsplit, haged⟩ := h
  have harrivals : ∀ a ∈ p.arrivals, a.time.nanos ≤ o.time.nanos := by
    intro a ha
    exact (List.pairwise_append.1 hordered).2.2 a ha o (List.mem_singleton.2 rfl)
  -- what is gone already has aged, and the rest is in order
  have hgone : gone.filter (isYoung retention o.time) = [] := by
    rw [List.filter_eq_nil_iff]
    intro g hg hyoung
    rw [(haged g hg).not_young harrivals hexpiries] at hyoung
    cases hyoung
  rw [hsplit, List.append_assoc] at hordered ⊢
  have hrest := (List.pairwise_append.1 hordered).2.1
  rw [List.filter_append, hgone, List.nil_append]
  show (b.history ++ [o]).dropWhile (b.isAged o.time) = _
  rw [dropWhile_eq_filter]
  · simp only [isAged_eq, hretention, Bool.not_not]
  · apply hrest.imp
    intro a c hac hc
    rw [isAged_eq, Bool.not_eq_true', isYoung, decide_eq_false_iff_not] at hc ⊢
    omega

end Baseline

end LinkAdaptation
