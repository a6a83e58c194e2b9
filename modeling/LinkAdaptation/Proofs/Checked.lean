/-
Reasoning about computations that may have no result. `Upholds` says of
one what its result has, if there is one, and what the reason is, if there
is none; it passes along a chain of steps, so each operation needs it shown
once. `bind_eq_ok` goes the other way: a result of a chain comes from
results of its steps.
-/
import LinkAdaptation.Error

namespace LinkAdaptation

variable {ε ε' α β : Type}

theorem bind_eq_ok {x : Except ε α} {f : α → Except ε β} {b : β} :
    x >>= f = .ok b ↔ ∃ a, x = .ok a ∧ f a = .ok b := by
  cases x with
  | ok a => simp [bind, Except.bind]
  | error e => simp [bind, Except.bind]

/-- What is done with a result may differ where there is none. -/
theorem bind_congr_ok {x : Except ε α} {f g : α → Except ε β}
    (h : ∀ a, x = .ok a → f a = g a) : x >>= f = x >>= g := by
  cases x with
  | ok a => exact h a rfl
  | error e => rfl

theorem map_eq_ok {f : α → β} {x : Except ε α} {b : β} :
    f <$> x = .ok b ↔ ∃ a, x = .ok a ∧ f a = b := by
  cases x with
  | ok a => simp [Functor.map, Except.map]
  | error e => simp [Functor.map, Except.map]

theorem mapError_eq_ok {f : ε → ε'} {x : Except ε α} {a : α} :
    x.mapError f = .ok a ↔ x = .ok a := by
  cases x with
  | ok b =>
      constructor
      · intro h
        cases h
        rfl
      · intro h
        cases h
        rfl
  | error e => exact ⟨nofun, nofun⟩

theorem toOption_eq_some_iff {x : Except ε α} {a : α} :
    x.toOption = some a ↔ x = .ok a := by
  cases x with
  | ok b => simp [Except.toOption]
  | error e => simp [Except.toOption]

/-- The result has a property, or there is none for an allowed reason. -/
def Upholds (x : Except ε α) (holds : α → Prop) (may : ε → Prop) : Prop :=
  match x with
  | .ok a => holds a
  | .error e => may e

namespace Upholds

variable {x : Except ε α} {P P' : α → Prop} {Q Q' : ε → Prop}

theorem of_eq_ok (h : Upholds x P Q) {a : α} (hx : x = .ok a) : P a := by
  rw [hx] at h
  exact h

theorem of_eq_error (h : Upholds x P Q) {e : ε} (hx : x = .error e) :
    Q e := by
  rw [hx] at h
  exact h

/-- Where no reason is allowed, there is a result. -/
theorem exists_ok (h : Upholds x P fun _ => False) : ∃ a, x = .ok a ∧ P a := by
  cases x with
  | ok a => exact ⟨a, rfl, h⟩
  | error e => exact h.elim

theorem mono (h : Upholds x P Q) (hP : ∀ a, P a → P' a)
    (hQ : ∀ e, Q e → Q' e) : Upholds x P' Q' := by
  cases x with
  | ok a => exact hP a h
  | error e => exact hQ e h

theorem imp (h : Upholds x P Q) (hP : ∀ a, P a → P' a) :
    Upholds x P' Q :=
  h.mono hP fun _ hmay => hmay

theorem weaken (h : Upholds x P Q) (hQ : ∀ e, Q e → Q' e) :
    Upholds x P Q' :=
  h.mono (fun _ hholds => hholds) hQ

/-- What is known of a result because it is one may be added. -/
theorem of_result (h : Upholds x P Q) (hP : ∀ a, x = .ok a → P' a) :
    Upholds x P' Q := by
  cases x with
  | ok a => exact hP a rfl
  | error e => exact h

theorem bind {f : α → Except ε β} {R : β → Prop} (h : Upholds x P Q)
    (hf : ∀ a, P a → Upholds (f a) R Q) : Upholds (x >>= f) R Q := by
  cases x with
  | ok a => exact hf a h
  | error e => exact h

theorem map {f : α → β} {R : β → Prop} (h : Upholds x P Q)
    (hf : ∀ a, P a → R (f a)) : Upholds (f <$> x) R Q := by
  cases x with
  | ok a => exact hf a h
  | error e => exact h

theorem mapError {f : ε → ε'} {S : ε' → Prop} (h : Upholds x P Q)
    (hf : ∀ e, Q e → S (f e)) : Upholds (x.mapError f) P S := by
  cases x with
  | ok a => exact h
  | error e => exact hf e h

/-- What every step of a fold upholds, the whole fold upholds. -/
theorem foldlM {f : β → α → Except ε β} {R : β → Prop} {l : List α} {b : β}
    (hb : R b) (hf : ∀ b a, R b → Upholds (f b a) R Q) :
    Upholds (l.foldlM f b) R Q := by
  induction l generalizing b with
  | nil => exact hb
  | cons a l ih =>
      rw [List.foldlM_cons]
      apply (hf b a hb).bind
      intro b' hb'
      exact ih hb'

/-- What every step of a fold upholds as long as there is room for one more,
the whole fold upholds when there is room for all. -/
theorem foldlM_counting {f : β → α → Except ε β} {R : Nat → β → Prop}
    {limit n : Nat} {l : List α} {b : β} (hb : R n b)
    (hroom : n + l.length < limit)
    (hf : ∀ n b a, R n b → n + 1 < limit → Upholds (f b a) (R (n + 1)) Q) :
    Upholds (l.foldlM f b) (R (n + l.length)) Q := by
  induction l generalizing b n with
  | nil => exact hb
  | cons a l ih =>
      rw [List.length_cons] at hroom ⊢
      rw [List.foldlM_cons]
      apply (hf n b a hb (by omega)).bind
      intro b' hb'
      have hlength : n + (l.length + 1) = n + 1 + l.length := by omega
      rw [hlength] at hroom ⊢
      exact ih hb' hroom

end Upholds

/-- What holds of the elements done so far and of the value, and is kept by
every step, holds of all elements and the result of a fold. -/
theorem foldlM_eq_ok_accounts {f : β → α → Except ε β}
    {holds : List α → β → Prop} {done l : List α} {b b' : β}
    (hb : holds done b) (h : l.foldlM f b = .ok b')
    (hstep : ∀ done b a b', holds done b → f b a = .ok b' →
      holds (done ++ [a]) b') : holds (done ++ l) b' := by
  induction l generalizing done b with
  | nil =>
      cases h
      rw [List.append_nil]
      exact hb
  | cons a l ih =>
      rw [List.foldlM_cons] at h
      obtain ⟨b₁, hfirst, hrest⟩ := bind_eq_ok.1 h
      rw [List.append_cons]
      exact ih (hstep done b a b₁ hb hfirst) hrest

-- ============================================================ counters

/-- A counter that goes up stays in its range. -/
theorem increment_upholds (n : Nat) :
    Upholds (increment n) (fun m => m = n + 1 ∧ m < counterLimit)
      (· = .counterOverflow) := by
  unfold increment
  split
  · next h => exact ⟨rfl, h⟩
  · exact rfl

/-- A counter with room for one more goes up. -/
theorem increment_succeeds {n limit : Nat} (h : n ≤ limit)
    (hlimit : limit + 1 < counterLimit) :
    Upholds (increment n) (fun m => m = n + 1) fun _ => False := by
  unfold increment
  rw [if_pos (by omega)]
  exact rfl

/-- Only a full counter does not go up. -/
theorem increment_or_full (n : Nat) :
    Upholds (increment n) (fun m => m = n + 1 ∧ m < counterLimit)
      fun _ => counterLimit ≤ n + 1 := by
  unfold increment
  split
  · next h => exact ⟨rfl, h⟩
  · next h => exact Nat.not_lt.1 h

theorem increment_eq_ok_iff {n m : Nat} :
    increment n = .ok m ↔ m = n + 1 ∧ n + 1 < counterLimit := by
  unfold increment
  split
  · next h => simp [h, eq_comm]
  · next h => simp [h]

end LinkAdaptation
