/-
Lists of outcomes: how many there are of a sort, how many bytes these had,
and what comes of taking from the front of a list that is in the order of
time.
-/
import LinkAdaptation.Outcome

namespace LinkAdaptation

-- =============================================================== sorts

/-- Whether an outcome is at a rate. -/
def atRate (rate : Rate) (o : Outcome) : Bool := o.rate = rate

/-- Whether an outcome is at a rate and reports a status. -/
def atRateWith (rate : Rate) (status : Status) (o : Outcome) : Bool :=
  o.rate = rate ∧ o.status = status

/-- The payload bytes of the outcomes of a sort. -/
def bytesOf (sort : Outcome → Bool) : List Outcome → Nat
  | [] => 0
  | o :: rest => (if sort o then o.length.toNat else 0) + bytesOf sort rest

variable {sort : Outcome → Bool} {outcomes : List Outcome} {o : Outcome}

theorem bytesOf_cons_of_pos (h : sort o = true) :
    bytesOf sort (o :: outcomes) = o.length.toNat + bytesOf sort outcomes := by
  simp [bytesOf, h]

theorem bytesOf_cons_of_neg (h : ¬ sort o = true) :
    bytesOf sort (o :: outcomes) = bytesOf sort outcomes := by
  simp [bytesOf, h]

theorem bytesOf_append (before after : List Outcome) :
    bytesOf sort (before ++ after)
      = bytesOf sort before + bytesOf sort after := by
  induction before with
  | nil => exact (Nat.zero_add _).symm
  | cons o rest ih =>
      simp only [List.cons_append, bytesOf]
      omega

theorem bytesOf_concat_of_pos (h : sort o = true) :
    bytesOf sort (outcomes ++ [o])
      = bytesOf sort outcomes + o.length.toNat := by
  rw [bytesOf_append, bytesOf_cons_of_pos h]
  rfl

theorem bytesOf_concat_of_neg (h : ¬ sort o = true) :
    bytesOf sort (outcomes ++ [o]) = bytesOf sort outcomes := by
  rw [bytesOf_append, bytesOf_cons_of_neg h]
  rfl

/-- The order of the outcomes does not matter. -/
theorem bytesOf_perm {reordered : List Outcome} (h : outcomes.Perm reordered) :
    bytesOf sort outcomes = bytesOf sort reordered := by
  induction h with
  | nil => rfl
  | cons o _ ih => simp only [bytesOf, ih]
  | swap a b rest =>
      simp only [bytesOf]
      omega
  | trans _ _ ih ih' => exact ih.trans ih'

/-- Outcomes of other sorts can be left out. -/
theorem bytesOf_filter {wide : Outcome → Bool}
    (h : ∀ o, sort o = true → wide o = true) :
    bytesOf sort (outcomes.filter wide) = bytesOf sort outcomes := by
  induction outcomes with
  | nil => rfl
  | cons o rest ih =>
      by_cases hwide : wide o = true
      · rw [List.filter_cons_of_pos hwide, bytesOf, bytesOf, ih]
      · rw [List.filter_cons_of_neg hwide, ih,
          bytesOf_cons_of_neg fun ho => hwide (h o ho)]

theorem countP_filter_of_imp {wide : Outcome → Bool}
    (h : ∀ o, sort o = true → wide o = true) :
    (outcomes.filter wide).countP sort = outcomes.countP sort := by
  rw [List.countP_filter]
  refine List.countP_congr fun o _ => ?_
  simpa using h o

theorem bytesOf_congr {other : Outcome → Bool}
    (h : ∀ o ∈ outcomes, sort o = other o) :
    bytesOf sort outcomes = bytesOf other outcomes := by
  induction outcomes with
  | nil => rfl
  | cons o rest ih =>
      obtain ⟨ho, hrest⟩ := List.forall_mem_cons.1 h
      simp only [bytesOf, ho, ih hrest]

theorem bytesOf_eq_zero_iff :
    bytesOf sort outcomes = 0
      ↔ ∀ o ∈ outcomes, sort o = true → o.length = 0 := by
  induction outcomes with
  | nil => simp [bytesOf]
  | cons o rest ih =>
      by_cases ho : sort o = true
      · rw [bytesOf_cons_of_pos ho, List.forall_mem_cons, Nat.add_eq_zero_iff,
          ih, ← UInt16.toNat_inj, UInt16.toNat_zero]
        simp [ho]
      · rw [bytesOf_cons_of_neg ho, List.forall_mem_cons, ih]
        simp [ho]

/-- A payload length fits 16 bits. -/
theorem bytesOf_le (sort : Outcome → Bool) (outcomes : List Outcome) :
    bytesOf sort outcomes ≤ 65535 * outcomes.countP sort := by
  induction outcomes with
  | nil => exact Nat.le_refl 0
  | cons o rest ih =>
      have hlength : o.length.toNat < 65536 := o.length.toNat_lt
      by_cases h : sort o = true
      · rw [bytesOf_cons_of_pos h, List.countP_cons_of_pos h]
        omega
      · rw [bytesOf_cons_of_neg h, List.countP_cons_of_neg h]
        exact ih

/-- A narrower sort has no more bytes. -/
theorem bytesOf_mono {narrow : Outcome → Bool}
    (h : ∀ o, narrow o = true → sort o = true) (outcomes : List Outcome) :
    bytesOf narrow outcomes ≤ bytesOf sort outcomes := by
  induction outcomes with
  | nil => exact Nat.le_refl 0
  | cons o rest ih =>
      by_cases hnarrow : narrow o = true
      · rw [bytesOf_cons_of_pos hnarrow, bytesOf_cons_of_pos (h o hnarrow)]
        omega
      · rw [bytesOf_cons_of_neg hnarrow]
        by_cases hsort : sort o = true
        · rw [bytesOf_cons_of_pos hsort]
          omega
        · rw [bytesOf_cons_of_neg hsort]
          exact ih

-- ============================================================== order

/-- Whether outcomes stand in the order of time. -/
def InOrder (outcomes : List Outcome) : Prop :=
  outcomes.Pairwise fun a b => a.time.nanos ≤ b.time.nanos

instance (outcomes : List Outcome) : Decidable (InOrder outcomes) :=
  inferInstanceAs (Decidable (List.Pairwise _ _))

/-- What stands before an outcome that is too early is too early as well. -/
theorem InOrder.early (h : InOrder outcomes) (t : Instant) :
    outcomes.Pairwise fun a b =>
      decide (b.time < t) = true → decide (a.time < t) = true := by
  apply h.imp
  intro a b hab hb
  rw [decide_eq_true_eq] at hb ⊢
  exact Int.lt_of_le_of_lt hab hb

variable {α : Type} {p : α → Bool} {l : List α}

/-- Where a property passes from each element to those before it, what
drops from the front is all that has it. -/
theorem dropWhile_eq_filter
    (h : l.Pairwise fun a b => p b = true → p a = true) :
    l.dropWhile p = l.filter fun a => !p a := by
  induction l with
  | nil => rfl
  | cons a l ih =>
      obtain ⟨hfirst, hrest⟩ := List.pairwise_cons.1 h
      cases ha : p a with
      | true => simp [ha, ih hrest]
      | false =>
          have hall : ∀ b ∈ l, (!p b) = true := by
            intro b hb
            cases hpb : p b with
            | true => rw [hfirst b hb hpb] at ha; cases ha
            | false => rfl
          rw [List.dropWhile_cons_of_neg (by simp [ha])]
          simp [ha, List.filter_eq_self.2 hall]

/-- What is taken from the front is all that has it. -/
theorem takeWhile_eq_filter
    (h : l.Pairwise fun a b => p b = true → p a = true) :
    l.takeWhile p = l.filter p := by
  induction l with
  | nil => rfl
  | cons a l ih =>
      obtain ⟨hfirst, hrest⟩ := List.pairwise_cons.1 h
      by_cases ha : p a = true
      · simp [ha, ih hrest]
      · have hnone : ∀ b ∈ l, ¬ p b = true := by
          intro b hb hpb
          exact ha (hfirst b hb hpb)
        rw [List.takeWhile_cons_of_neg ha, List.filter_cons_of_neg ha,
          List.filter_eq_nil_iff.2 hnone]

end LinkAdaptation
