/-
The outcomes that are live in a selector that is asked directly: those that
were recorded, less those that were forgotten, since it was last reset. The
history of a baseline is such a list, but a baseline forgets from the front;
a selector can be asked to forget any outcome that is live. Its counts and
sums do not depend on the order of the outcomes, so they follow the live
ones all the same.
-/
import LinkAdaptation.Proofs.Selector.Pace

namespace LinkAdaptation

open Selector (Request)

variable {rates : RateSet}

namespace Selector

-- ======================================================== live outcomes

/-- The live outcomes after a request. -/
def Request.note (live : List Outcome) : Request → List Outcome
  | .record o => if o.status.isFeedback then live ++ [o] else live
  | .forget o => live.erase o
  | .select _ => live
  | .reset => []

/-- The outcomes that are live after some requests to a fresh selector. -/
def liveAfter (requests : List Request) : List Outcome :=
  requests.foldl Request.note []

/-- Whether what is forgotten was live before, unless it reports nothing and
was not counted in the first place. -/
def forgetsLive (live : List Outcome) : List Request → Bool
  | [] => true
  | request :: rest =>
      (match request with
        | .forget o => !o.status.isFeedback || live.contains o
        | _ => true)
      && forgetsLive (request.note live) rest

end Selector

-- ================================================================ order

theorem lossShare_perm {live reordered : List Outcome} {rate : Rate}
    (h : live.Perm reordered) : lossShare live rate = lossShare reordered rate := by
  unfold lossShare
  rw [bytesOf_perm h, bytesOf_perm h]

namespace Rraa

open PlainRraa (windowOf)

variable {window : Rate → Nat} {live reordered : List Outcome} {o : Outcome}
  {s s' s₀ : Rraa rates} {requests : List Request}

theorem Tracks.perm (h : s.Tracks window live) (hperm : live.Perm reordered) :
    s.Tracks window reordered := by
  obtain ⟨hentry, hshare, hreports, hpos⟩ := h
  refine ⟨?_, ?_, fun o ho => hreports o (hperm.mem_iff.2 ho), hpos⟩
  · intro i
    obtain ⟨hsent, hacked, hfixed⟩ := hentry i
    exact ⟨hsent.perm hperm, hacked.perm hperm, hfixed⟩
  · intro hcurrent i
    rw [hshare hcurrent i, lossShare_perm hperm]

/-- Any live outcome can be forgotten. -/
theorem Tracks.forget_mem (h : s.Tracks window live) (ho : o ∈ live) :
    (s.forget o).Tracks window (live.erase o) :=
  (h.perm (List.perm_cons_erase ho)).forget.1

theorem forget_of_not_feedback (ho : o.status.isFeedback = false) :
    s.forget o = s := by
  unfold forget
  split
  · rw [if_neg (by simp [ho])]
  · rfl

theorem record_of_not_feedback (ho : o.status.isFeedback = false) :
    s.record o = .ok s := by
  unfold record
  split
  · rw [if_neg (by simp [ho])]
  · rfl

-- ============================================================= requests

theorem Tracks.record_ok (h : s.Tracks window live)
    (hrecord : s.record o = .ok s') :
    s'.Tracks window ((Request.record o).note live) := by
  unfold Request.note
  dsimp only
  cases ho : o.status.isFeedback with
  | true => exact ((h.record_or_full ho).of_eq_ok hrecord).1
  | false =>
      rw [record_of_not_feedback ho] at hrecord
      cases hrecord
      exact h

theorem Tracks.forget_live (h : s.Tracks window live)
    (ho : (!o.status.isFeedback || live.contains o) = true) :
    (s.forget o).Tracks window (live.erase o) := by
  by_cases hmem : o ∈ live
  · exact h.forget_mem hmem
  · have hother : o.status.isFeedback = false := by simpa [hmem] using ho
    rw [forget_of_not_feedback hother, List.erase_of_not_mem hmem]
    exact h

/-- The plain algorithm with the same outcomes, in the same window. -/
def plain (s : Rraa rates) (live : List Outcome) : PlainRraa rates :=
  ⟨live, Baseline.defaultRetention, s.remaining, s.current⟩

theorem Tracks.agrees (h : s.Tracks window live) :
    s.Agrees window (s.plain live) :=
  ⟨h, rfl, rfl⟩

theorem Tracks.select (h : s.Tracks window live) :
    s.select.1.Tracks window live := by
  have hlive : ((s.plain live).select window).live = live := by
    unfold PlainRraa.select
    split <;> rfl
  have htracks := h.agrees.select.1.tracks
  rw [hlive] at htracks
  exact htracks

/-- A decision that is due leads where it leads the plain algorithm. -/
theorem Tracks.current_select (h : s.Tracks window live) (hdue : s.IsDue) :
    s.select.1.current = (s.plain live).next := by
  rw [h.agrees.select.1.current_eq]
  unfold PlainRraa.select
  rw [if_pos (show (s.plain live).remaining ≤ 1 from hdue)]

/-- Whatever is asked, the counts follow the live outcomes, as long as only
these are forgotten. -/
theorem Tracks.run (h : s.Tracks window live)
    (hforgets : Selector.forgetsLive live requests = true)
    (hrun : s.run requests = .ok s') :
    s'.Tracks window (requests.foldl Request.note live) := by
  induction requests generalizing s live with
  | nil =>
      cases hrun
      exact h
  | cons request rest ih =>
      obtain ⟨s₁, hfirst, hrest⟩ := bind_eq_ok.1 hrun
      obtain ⟨hforgot, hforgets⟩ := Bool.and_eq_true_iff.1 hforgets
      refine ih ?_ hforgets hrest
      cases request with
      | record o => exact h.record_ok hfirst
      | forget o =>
          cases hfirst
          exact h.forget_live hforgot
      | select now =>
          cases hfirst
          exact h.select
      | reset =>
          cases hfirst
          exact h.reset

/-- However a selector was made, its counts are those of the outcomes that
are live. -/
theorem tracks_live {schedule : List (Rate × Nat)}
    (hbuilt : Built schedule s₀)
    (hforgets : Selector.forgetsLive [] requests = true)
    (hrun : s₀.run requests = .ok s) :
    ∃ window, s.Tracks window (Selector.liveAfter requests) := by
  obtain ⟨window, rfl, -⟩ := hbuilt.exists_start
  exact ⟨window, (tracks_start rates window).run hforgets hrun⟩

end Rraa

end LinkAdaptation
