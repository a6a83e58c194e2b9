/-
Outcomes of one instant, recorded one right after the other. Their order
among themselves leaves its mark on the stored list and on nothing else:
every arrival answers as it would have in the other order, and once the
last of them is in, so does every question, at any later time.

Two lists tie when they differ only in the order of neighbours of one
instant. Whatever looks at outcomes by their time alone — dropping the
stale ones, finding a range from the front — takes tied lists to tied
lists. A tally does look at the outcomes, but only counts them; as counters
are bounded, counting in another order has to meet the bound as well, and
it does so with the same fault.

The induction over a group is the one over its permutation, and it is the
transposition of two arrivals that carries it. Between the two the windows
are not tied, as they hold different outcomes. They do hold the same
instants, and that is all the answer to an arrival depends on.
-/
import LinkAdaptation.Proofs.Checked
import LinkAdaptation.Proofs.Window.Eviction
import LinkAdaptation.Proofs.Window.Range

namespace LinkAdaptation

variable {rates : RateSet} {l l' : List Outcome} {p : Outcome → Bool}

-- ================================================================ ties

/-- Two orders of the same outcomes that differ only among neighbours of
one instant. -/
inductive Ties : List Outcome → List Outcome → Prop
  | nil : Ties [] []
  | cons (o : Outcome) {l l' : List Outcome} :
      Ties l l' → Ties (o :: l) (o :: l')
  | swap {a b : Outcome} (l : List Outcome) :
      a.time = b.time → Ties (a :: b :: l) (b :: a :: l)
  | trans {l m r : List Outcome} : Ties l m → Ties m r → Ties l r

namespace Ties

theorem refl (l : List Outcome) : Ties l l := by
  induction l with
  | nil => exact .nil
  | cons o l ih => exact .cons o ih

theorem perm (h : Ties l l') : l.Perm l' := by
  induction h with
  | nil => exact .nil
  | cons o _ ih => exact ih.cons o
  | swap l _ => exact .swap _ _ l
  | trans _ _ ih ih' => exact ih.trans ih'

/-- The instants stand where they stood. -/
theorem times (h : Ties l l') : l.map (·.time) = l'.map (·.time) := by
  induction h with
  | nil => rfl
  | cons o _ ih => simp [ih]
  | swap l h => simp [h]
  | trans _ _ ih ih' => exact ih.trans ih'

theorem append_right (h : Ties l l') (m : List Outcome) :
    Ties (l ++ m) (l' ++ m) := by
  induction h with
  | nil => exact refl m
  | cons o _ ih => exact .cons o ih
  | swap l h => exact .swap (l ++ m) h
  | trans _ _ ih ih' => exact ih.trans ih'

theorem append_left (m : List Outcome) (h : Ties l l') :
    Ties (m ++ l) (m ++ l') := by
  induction m with
  | nil => exact h
  | cons o m ih => exact .cons o ih

/-- What drops from the front by its time ties. -/
theorem dropWhile (h : Ties l l')
    (hp : ∀ a b, a.time = b.time → p a = p b) :
    Ties (l.dropWhile p) (l'.dropWhile p) := by
  induction h with
  | nil => exact .nil
  | @cons o l l' h ih =>
      by_cases ho : p o = true
      · simpa [ho] using ih
      · simpa [ho] using h.cons o
  | @swap a b l hab =>
      by_cases ha : p a = true
      · have hb : p b = true := (hp a b hab).symm.trans ha
        simpa [ha, hb] using refl (l.dropWhile p)
      · have hb : ¬ p b = true := fun hb => ha ((hp a b hab).trans hb)
        simpa [ha, hb] using swap l hab
  | trans _ _ ih ih' => exact ih.trans ih'

/-- What is taken from the front by its time ties. -/
theorem takeWhile (h : Ties l l')
    (hp : ∀ a b, a.time = b.time → p a = p b) :
    Ties (l.takeWhile p) (l'.takeWhile p) := by
  induction h with
  | nil => exact .nil
  | @cons o l l' h ih =>
      by_cases ho : p o = true
      · simpa [ho] using ih.cons o
      · simpa [ho] using Ties.nil
  | @swap a b l hab =>
      by_cases ha : p a = true
      · have hb : p b = true := (hp a b hab).symm.trans ha
        simpa [ha, hb] using swap (l.takeWhile p) hab
      · have hb : ¬ p b = true := fun hb => ha ((hp a b hab).trans hb)
        simpa [ha, hb] using Ties.nil
  | trans _ _ ih ih' => exact ih.trans ih'

end Ties

-- ============================================================ counting

/-- A fold whose steps may change places gives the same whatever their
order. -/
theorem foldlM_perm {ε α β : Type} {f : β → α → Except ε β} {l l' : List α}
    (hcomm : ∀ b a a', f b a >>= (f · a') = f b a' >>= (f · a))
    (h : l.Perm l') (b : β) : l.foldlM f b = l'.foldlM f b := by
  induction h generalizing b with
  | nil => rfl
  | cons a _ ih =>
      rw [List.foldlM_cons, List.foldlM_cons]
      exact bind_congr ih
  | swap a a' l =>
      have hfirst := congrArg (· >>= fun b => l.foldlM f b) (hcomm b a' a)
      simpa only [List.foldlM_cons, bind_assoc] using hfirst
  | trans _ _ ih ih' => exact (ih b).trans (ih' b)

/-- One more outcome is counted where the counters have room for it. -/
theorem Tally.add_eq (t : Tally) (status : Status) :
    t.add status
      = if t.sent + 1 < counterLimit
          ∧ (status = .acked → t.acked + 1 < counterLimit) then
        .ok ⟨t.sent + 1, t.acked + if status = .acked then 1 else 0⟩
      else .error .counterOverflow := by
  unfold Tally.add increment
  by_cases hsent : t.sent + 1 < counterLimit
  · by_cases hstatus : status = .acked
    · by_cases hacked : t.acked + 1 < counterLimit
      · simp [hsent, hstatus, hacked, bind, Except.bind, pure, Except.pure]
      · simp [hsent, hstatus, hacked, bind, Except.bind]
    · simp [hsent, hstatus, bind, Except.bind, pure, Except.pure]
  · simp [hsent, bind, Except.bind]

/-- With an acknowledgement and a loss, the first counter to be full is the
same in either order. -/
theorem Tally.add_acked_comm (t : Tally) {status : Status}
    (h : status ≠ .acked) :
    t.add .acked >>= (·.add status) = t.add status >>= (·.add .acked) := by
  simp only [Tally.add_eq, bind, Except.bind]
  by_cases hroom : t.sent + 1 + 1 < counterLimit
  · have hsent : t.sent + 1 < counterLimit := by omega
    by_cases hacked : t.acked + 1 < counterLimit
    · simp [h, hroom, hsent, hacked]
    · simp [h, hsent, hacked]
  · by_cases hsent : t.sent + 1 < counterLimit
    · by_cases hacked : t.acked + 1 < counterLimit
      · simp [h, hroom, hsent, hacked]
      · simp [h, hsent, hacked]
    · simp [hsent]

theorem Tally.add_comm (t : Tally) (status status' : Status) :
    t.add status >>= (·.add status') = t.add status' >>= (·.add status) := by
  by_cases h : status = .acked
  · by_cases h' : status' = .acked
    · rw [h, h']
    · rw [h, t.add_acked_comm h']
  · by_cases h' : status' = .acked
    · rw [h', t.add_acked_comm h]
    · simp only [Tally.add_eq, h, h']

theorem Tally.add_eq_error {t : Tally} {status : Status} {fault : Fault}
    (h : t.add status = .error fault) : fault = .counterOverflow := by
  rw [Tally.add_eq] at h
  split at h
  · cases h
  · cases h
    rfl

/-- One more outcome counted at a candidate. -/
def countAt (table : Table rates Tally) (i : rates.Index) (status : Status) :
    Checked (Table rates Tally) := do
  return table.set i (← (table.get i).add status)

/-- At one candidate the tally takes two outcomes in either order. -/
theorem countAt_comm_self (table : Table rates Tally) (i : rates.Index)
    (status status' : Status) :
    countAt table i status >>= (countAt · i status')
      = countAt table i status' >>= (countAt · i status) := by
  have hboth (s s' : Status) : countAt table i s >>= (countAt · i s')
      = table.set i <$> ((table.get i).add s >>= (·.add s')) := by
    simp only [countAt, bind_assoc, pure_bind, Table.get_set_self, map_bind]
    refine bind_congr fun t => ?_
    cases t.add s' with
    | error fault => rfl
    | ok t' => exact congrArg Except.ok (Vector.set_set ..)
  rw [hboth, hboth, Tally.add_comm]

/-- At two candidates the tallies do not meet. -/
theorem countAt_comm_of_ne (table : Table rates Tally) {i j : rates.Index}
    (hij : i ≠ j) (status status' : Status) :
    countAt table i status >>= (countAt · j status')
      = countAt table j status' >>= (countAt · i status) := by
  simp only [countAt, bind_assoc, pure_bind, Table.get_set_of_ne _ _ hij,
    Table.get_set_of_ne _ _ hij.symm]
  cases hi : (table.get i).add status with
  | error fault =>
      cases hj : (table.get j).add status' with
      | error fault' =>
          rw [Tally.add_eq_error hi, Tally.add_eq_error hj]
          rfl
      | ok t' => rfl
  | ok t =>
      cases (table.get j).add status' with
      | error fault' => rfl
      | ok t' =>
          have hapart : i.val ≠ j.val := fun h => hij (Fin.ext h)
          exact congrArg Except.ok (Vector.set_comm _ _ hapart)

/-- What a range counts does not depend on the order of its outcomes. -/
theorem tallyOutcomes_perm (h : l.Perm l') :
    tallyOutcomes rates l = tallyOutcomes rates l' := by
  refine foldlM_perm (fun table a b => ?_) h _
  cases rates.index? a.rate with
  | none => exact (bind_pure _).symm
  | some i =>
      cases rates.index? b.rate with
      | none => exact bind_pure _
      | some j =>
          by_cases hij : i = j
          · rw [hij]
            exact countAt_comm_self table j a.status b.status
          · exact countAt_comm_of_ne table hij a.status b.status

namespace Window

variable {v w w' : Window rates} {a b o : Outcome}

-- ============================================================= answers

/-- Two windows that no question tells apart. -/
structure AnswerAlike (w w' : Window rates) : Prop where
  length : w.records.length = w'.records.length
  span : w.span? = w'.span?
  tally : ∀ start stop, w.tally? start stop = w'.tally? start stop
  losses : ∀ start stop asked,
    w.losses? start stop asked = w'.losses? start stop asked
  loss : ∀ start stop rate, w.loss start stop rate = w'.loss start stop rate
  feasible : ∀ start stop, w.feasible? start stop = w'.feasible? start stop

/-- Two windows that hold outcomes equally long, and tied ones. -/
structure Alike (w w' : Window rates) : Prop where
  retention : w.retention = w'.retention
  ties : Ties w.records w'.records

namespace Alike

theorem refl (w : Window rates) : Alike w w := ⟨rfl, .refl _⟩

theorem trans (h : Alike v w) (h' : Alike w w') : Alike v w' :=
  ⟨h.retention.trans h'.retention, h.ties.trans h'.ties⟩

theorem span?_eq (h : Alike w w') : w.span? = w'.span? := by
  have hspan (w : Window rates) : w.span? = do
      return (← (w.records.map (·.time)).head?
        , ← (w.records.map (·.time)).getLast?) := by
    unfold span?
    rw [List.head?_map, List.getLast?_map]
    cases w.records.head? <;> cases w.records.getLast? <;> rfl
  rw [hspan, hspan, h.ties.times]

theorem between (h : Alike w w') (start stop : Instant) :
    Ties (w.between start stop) (w'.between start stop) := by
  have hbefore (t : Instant) (a b : Outcome) (hab : a.time = b.time) :
      decide (a.time < t) = decide (b.time < t) := by
    rw [hab]
  rw [between_eq_dropWhile, between_eq_dropWhile]
  exact (h.ties.takeWhile (hbefore stop)).dropWhile (hbefore start)

theorem tally?_eq (h : Alike w w') (start stop : Instant) :
    w.tally? start stop = w'.tally? start stop := by
  unfold tally? covers
  rw [h.span?_eq, tallyOutcomes_perm (h.between start stop).perm]

/-- Tied outcomes answer every question alike. -/
theorem answerAlike (h : Alike w w') : AnswerAlike w w' where
  length := h.ties.perm.length_eq
  span := h.span?_eq
  tally := h.tally?_eq
  losses start stop asked := by
    unfold losses?
    rw [h.tally?_eq]
  loss start stop rate := by
    unfold Window.loss
    rw [h.tally?_eq]
  feasible start stop := by
    unfold feasible?
    rw [h.tally?_eq]

end Alike

-- ============================================================ arrivals

/-- Two windows that hold outcomes equally long, and of the same instants. -/
structure SameTimes (w w' : Window rates) : Prop where
  retention : w.retention = w'.retention
  times : w.records.map (·.time) = w'.records.map (·.time)

theorem Alike.sameTimes (h : Alike w w') : SameTimes w w' :=
  ⟨h.retention, h.ties.times⟩

namespace SameTimes

theorem length (h : SameTimes w w') :
    w.records.length = w'.records.length := by
  simpa using congrArg List.length h.times

/-- Which instants an arrival leaves does not depend on the outcomes. -/
theorem push (h : SameTimes w w') (hab : a.time = b.time) :
    SameTimes (w.push a) (w'.push b) := by
  have htimes (w : Window rates) (o : Outcome) :
      (w.push o).records.map (·.time)
        = (w.records.map (·.time) ++ [o.time]).dropWhile
          (w.retention < o.time.since ·) := by
    show _ = (w.records.map (·.time) ++ [o].map (·.time)).dropWhile _
    rw [← List.map_append, List.dropWhile_map]
    rfl
  refine ⟨h.retention, ?_⟩
  rw [htimes, htimes, h.retention, h.times, hab]

/-- Nor does whether it drops any. -/
theorem reply (h : SameTimes w w') (hab : a.time = b.time)
    (ha : Accepts rates a) (hb : Accepts rates b) :
    (w.handle (.insert a)).2 = (w'.handle (.insert b)).2 := by
  unfold handle
  dsimp only
  rw [insert_of_accepts ha, insert_of_accepts hb]
  dsimp only
  rw [(h.push hab).length, h.length]

end SameTimes

/-- A refused outcome changes nothing. -/
theorem handle_insert_of_rejection {error : Error}
    (h : rejection? rates o = some error) :
    w.handle (.insert o) = (w, .refused error) := by
  unfold handle insert
  dsimp only
  rw [h]

/-- Dropping again is dropping once. -/
theorem dropWhile_dropWhile_append {α : Type} (p : α → Bool) (l m : List α) :
    (l.dropWhile p ++ m).dropWhile p = (l ++ m).dropWhile p := by
  induction l with
  | nil => rfl
  | cons a l ih =>
      by_cases ha : p a = true
      · simpa [ha] using ih
      · simp [ha]

/-- Of two arrivals at one instant, the second drops what both would. -/
theorem push_push (hab : a.time = b.time) (w : Window rates) :
    ((w.push a).push b).records
      = (w.records ++ [a, b]).dropWhile (w.isStale b.time) := by
  show ((w.records ++ [a]).dropWhile (w.isStale a.time) ++ [b]).dropWhile
    (w.isStale b.time) = _
  rw [hab, dropWhile_dropWhile_append, List.append_assoc]
  rfl

namespace Alike

theorem stale (h : Alike w w') (t : Instant) : w.isStale t = w'.isStale t := by
  funext o
  unfold isStale
  rw [h.retention]

theorem isStale_congr (w : Window rates) (t : Instant) (a b : Outcome)
    (hab : a.time = b.time) : w.isStale t a = w.isStale t b := by
  unfold isStale
  rw [hab]

theorem push (h : Alike w w') (o : Outcome) :
    Alike (w.push o) (w'.push o) := by
  refine ⟨h.retention, ?_⟩
  show Ties ((w.records ++ [o]).dropWhile (w.isStale o.time))
    ((w'.records ++ [o]).dropWhile (w'.isStale o.time))
  rw [← h.stale]
  exact (h.ties.append_right [o]).dropWhile (isStale_congr w o.time)

/-- Two arrivals at one instant may change places. -/
theorem push_swap (h : Alike w w') (hab : a.time = b.time) :
    Alike ((w.push a).push b) ((w'.push b).push a) := by
  refine ⟨h.retention, ?_⟩
  rw [push_push hab, push_push hab.symm, ← h.stale, hab]
  have hswap : Ties (w.records ++ [a, b]) (w'.records ++ [b, a]) :=
    (h.ties.append_right [a, b]).trans (Ties.append_left _ (.swap [] hab))
  exact hswap.dropWhile (isStale_congr w b.time)

/-- A request is answered alike and leaves windows alike. -/
theorem handle (h : Alike w w') (request : Request) :
    (w.handle request).2 = (w'.handle request).2
      ∧ Alike (w.handle request).1 (w'.handle request).1 := by
  cases request with
  | insert o =>
      cases hrejection : rejection? rates o with
      | none =>
          have ho : Accepts rates o := rejection?_eq_none_iff.1 hrejection
          refine ⟨h.sameTimes.reply rfl ho ho, ?_⟩
          rw [handle_insert_of_accepts ho, handle_insert_of_accepts ho]
          exact h.push o
      | some error =>
          rw [handle_insert_of_rejection hrejection,
            handle_insert_of_rejection hrejection]
          exact ⟨rfl, h⟩
  | setRetention retention => exact ⟨rfl, rfl, h.ties⟩
  | clear => exact ⟨rfl, h.retention, .nil⟩

end Alike

-- ================================================================ runs

/-- The answers to some requests. -/
def replies (w : Window rates) : List Request → List Reply
  | [] => []
  | request :: rest =>
      (w.handle request).2 :: replies (w.handle request).1 rest

variable {first first' second second' requests requests' : List Request}
  {group group' : List Outcome}

theorem run_append (w : Window rates) (first second : List Request) :
    w.run (first ++ second) = (w.run first).run second :=
  List.foldl_append

theorem replies_append (w : Window rates) (first second : List Request) :
    w.replies (first ++ second)
      = w.replies first ++ (w.run first).replies second := by
  induction first generalizing w with
  | nil => rfl
  | cons request rest ih => exact congrArg (_ :: ·) (ih _)

/-- Two runs with equal answers, to windows alike. -/
def Agree (w w' : Window rates) (requests requests' : List Request) : Prop :=
  w.replies requests = w'.replies requests'
    ∧ Alike (w.run requests) (w'.run requests')

theorem Agree.append (hfirst : Agree w w' first first')
    (hsecond : ∀ {v v' : Window rates}, Alike v v' → Agree v v' second second') :
    Agree w w' (first ++ second) (first' ++ second') := by
  obtain ⟨hreplies, hfirst⟩ := hfirst
  obtain ⟨hreplies', hsecond⟩ := hsecond hfirst
  unfold Agree
  rw [replies_append, replies_append, run_append, run_append, hreplies,
    hreplies']
  exact ⟨rfl, hsecond⟩

theorem agree_singleton (h : Alike w w') (request : Request) :
    Agree w w' [request] [request] :=
  ⟨congrArg (· :: []) (h.handle request).1, (h.handle request).2⟩

/-- The same requests to windows alike. -/
theorem agree_same (h : Alike w w') (requests : List Request) :
    Agree w w' requests requests := by
  induction requests generalizing w w' with
  | nil => exact ⟨rfl, h⟩
  | cons request rest ih => exact (agree_singleton h request).append ih

/-- Two arrivals at one instant answer by their places. -/
theorem agree_swap (h : Alike w w') (hab : a.time = b.time)
    (ha : Accepts rates a) (hb : Accepts rates b) :
    Agree w w' [.insert a, .insert b] [.insert b, .insert a] := by
  have hafter : Alike (w.run [.insert a, .insert b])
      (w'.run [.insert b, .insert a]) := by
    show Alike ((w.handle _).1.handle _).1 ((w'.handle _).1.handle _).1
    rw [handle_insert_of_accepts ha, handle_insert_of_accepts hb,
      handle_insert_of_accepts hb, handle_insert_of_accepts ha]
    exact h.push_swap hab
  refine ⟨?_, hafter⟩
  have hsecond := (h.sameTimes.push hab).reply hab.symm hb ha
  show [(w.handle _).2, ((w.handle _).1.handle _).2]
    = [(w'.handle _).2, ((w'.handle _).1.handle _).2]
  rw [h.sameTimes.reply hab ha hb, handle_insert_of_accepts ha,
    handle_insert_of_accepts hb, hsecond]

/-- Arrivals at one instant in any two orders. -/
theorem agree_group {t : Instant} (hperm : group.Perm group')
    (hgroup : ∀ o ∈ group, o.time = t ∧ Accepts rates o) (h : Alike w w') :
    Agree w w' (group.map .insert) (group'.map .insert) := by
  induction hperm generalizing w w' with
  | nil => exact ⟨rfl, h⟩
  | cons o _ ih =>
      obtain ⟨-, hrest⟩ := List.forall_mem_cons.1 hgroup
      exact (agree_singleton h (.insert o)).append (ih hrest)
  | swap a b l =>
      obtain ⟨⟨hb, hbaccepts⟩, hrest⟩ := List.forall_mem_cons.1 hgroup
      obtain ⟨⟨ha, haaccepts⟩, -⟩ := List.forall_mem_cons.1 hrest
      exact (agree_swap h (hb.trans ha.symm) hbaccepts haaccepts).append
        fun hv => agree_same hv (l.map .insert)
  | trans hfirst _ ih ih' =>
      obtain ⟨hreplies, halike⟩ := ih hgroup (.refl w)
      obtain ⟨hreplies', halike'⟩ :=
        ih' (fun o ho => hgroup o (hfirst.mem_iff.2 ho)) h
      exact ⟨hreplies.trans hreplies', halike.trans halike'⟩

-- ========================================================== reordering

/-- Requests that differ in the order of arrivals at one instant, where
these come one right after the other. -/
inductive Reordered : List Request → List Request → Prop
  | nil : Reordered [] []
  | cons (request : Request) {rest rest' : List Request} :
      Reordered rest rest' → Reordered (request :: rest) (request :: rest')
  | group {group group' : List Outcome} {t : Instant}
      {rest rest' : List Request} :
      group.Perm group' → (∀ o ∈ group, o.time = t) → Reordered rest rest' →
      Reordered (group.map .insert ++ rest) (group'.map .insert ++ rest')

/-- Whether a request is carried out. Only outcomes are refused. -/
def Request.isTaken (rates : RateSet) : Request → Bool
  | .insert o => Accepts rates o
  | .setRetention _ | .clear => true

/-- What an outcome that was recorded was answered. -/
def Reply.evicted? : Reply → Option Bool
  | .evicted any => some any
  | .done | .refused _ => none

/-- The answers to the outcomes that were recorded, in order. -/
def evictions (w : Window rates) (requests : List Request) : List Bool :=
  (w.replies requests).filterMap Reply.evicted?

theorem Reordered.agree (hreordered : Reordered requests requests')
    (htaken : ∀ request ∈ requests, request.isTaken rates = true)
    (h : Alike w w') : Agree w w' requests requests' := by
  induction hreordered generalizing w w' with
  | nil => exact ⟨rfl, h⟩
  | cons request _ ih =>
      obtain ⟨-, hrest⟩ := List.forall_mem_cons.1 htaken
      exact (agree_singleton h request).append (ih hrest)
  | group hperm htime _ ih =>
      obtain ⟨hgroup, hrest⟩ := List.forall_mem_append.1 htaken
      refine (agree_group hperm (fun o ho => ⟨htime o ho, ?_⟩) h).append
        (ih hrest)
      exact of_decide_eq_true (hgroup _ (List.mem_map_of_mem ho))

/-- Refused outcomes leave nothing behind. -/
theorem run_filter_isTaken (w : Window rates) (requests : List Request) :
    w.run (requests.filter (·.isTaken rates)) = w.run requests
      ∧ w.evictions (requests.filter (·.isTaken rates))
        = w.evictions requests := by
  induction requests generalizing w with
  | nil => exact ⟨rfl, rfl⟩
  | cons request rest ih =>
      obtain ⟨hrun, hevictions⟩ := ih (w.handle request).1
      cases htaken : request.isTaken rates with
      | true =>
          rw [List.filter_cons_of_pos htaken]
          refine ⟨hrun, ?_⟩
          unfold evictions at hevictions ⊢
          simp only [replies, List.filterMap_cons, hevictions]
      | false =>
          rw [List.filter_cons_of_neg (by simp [htaken])]
          cases request with
          | insert o =>
              have ho : ¬ Accepts rates o := of_decide_eq_false htaken
              obtain ⟨error, hrejection⟩ :=
                Option.ne_none_iff_exists'.1 (mt rejection?_eq_none_iff.1 ho)
              have hrefused := handle_insert_of_rejection (w := w) hrejection
              rw [hrefused] at hrun hevictions
              refine ⟨hrun.trans ?_, hevictions.trans ?_⟩
              · exact congrArg (fun p => run p.1 rest) hrefused.symm
              · unfold evictions
                rw [replies, hrefused]
                rfl
          | setRetention _ => cases htaken
          | clear => cases htaken

/-- Let two runs differ in the order of outcomes of one instant that are
recorded one right after the other, and in outcomes that are refused. Then
the outcomes recorded at each place are answered the same, and when the
runs have gone on in the same way for any while, every question about the
windows is: how many outcomes they hold, from when to when, and over any
range the tallies, the losses and the candidates left feasible. -/
theorem simultaneous_unordered (w : Window rates)
    {requests requests' : List Request}
    (hreordered : Reordered (requests.filter (·.isTaken rates))
      (requests'.filter (·.isTaken rates))) (later : List Request) :
    w.evictions (requests ++ later) = w.evictions (requests' ++ later)
      ∧ AnswerAlike (w.run (requests ++ later))
        (w.run (requests' ++ later)) := by
  have htaken : ∀ request ∈ requests.filter (·.isTaken rates),
      request.isTaken rates = true := by
    intro request hrequest
    exact (List.mem_filter.1 hrequest).2
  have hagree := (hreordered.agree htaken (Alike.refl w)).append
    fun hv => agree_same hv (later.filter (·.isTaken rates))
  rw [← List.filter_append, ← List.filter_append] at hagree
  obtain ⟨hreplies, halike⟩ := hagree
  obtain ⟨hrun, hevictions⟩ := run_filter_isTaken w (requests ++ later)
  obtain ⟨hrun', hevictions'⟩ := run_filter_isTaken w (requests' ++ later)
  rw [hrun, hrun'] at halike
  refine ⟨?_, halike.answerAlike⟩
  rw [← hevictions, ← hevictions']
  exact congrArg (List.filterMap Reply.evicted?) hreplies

/-- Three outcomes of one instant in two orders, the first of which drops
an older one. In one of the runs a fourth is refused among them. -/
theorem simultaneous_unordered_three :
    let rates : RateSet := ⟨#[10, 20], by decide, by decide⟩
    let sent (n : Int) (rate : Rate) (status : Status) : Request :=
      .insert ⟨⟨n⟩, 0, rate, 1000, status⟩
    let requests := [sent 0 20 .acked, sent 5 10 .naked, sent 5 20 .acked
      , sent 5 10 .timedOut]
    let requests' := [sent 0 20 .acked, sent 5 10 .timedOut, sent 5 20 .sent
      , sent 5 10 .naked, sent 5 20 .acked]
    let w := empty rates ⟨4⟩
    (w.run requests).records ≠ (w.run requests').records
      ∧ w.evictions requests' = [false, true, false, false]
      ∧ (w.run requests').feasible? ⟨5⟩ ⟨6⟩
        = (w.run requests).feasible? ⟨5⟩ ⟨6⟩ := by
  intro rates sent requests requests' w
  have hreordered : Reordered (requests.filter (·.isTaken rates))
      (requests'.filter (·.isTaken rates)) := by
    let a : Outcome := ⟨⟨5⟩, 0, 10, 1000, .naked⟩
    let b : Outcome := ⟨⟨5⟩, 0, 20, 1000, .acked⟩
    let c : Outcome := ⟨⟨5⟩, 0, 10, 1000, .timedOut⟩
    have hperm : [a, b, c].Perm [c, a, b] := by decide
    have htime : ∀ o ∈ [a, b, c], o.time = ⟨5⟩ := by decide
    exact .cons (sent 0 20 .acked) (.group hperm htime .nil)
  obtain ⟨hevictions, hanswers⟩ := simultaneous_unordered w hreordered []
  refine ⟨by decide +kernel, ?_, (hanswers.feasible _ _).symm⟩
  refine hevictions.symm.trans ?_
  decide +kernel

end Window

end LinkAdaptation
