/-
Reports from the two vantage points, interleaved. Each vantage point's
reports amount to a run of their own: interleaved with those of the other,
they answer what they answer alone and leave their side of the flow as they
leave it alone. Conversely, where each vantage point's reports can be run
alone, every interleaving of them can. So two interleavings of the same
reports lead to the same flow with the same answers. While the counters have
room, and no burst stands at the end of time, all of them can be run.

The induction is on the interleaved list. Its step uses that a report does
not read the opposite side, so the run of the other vantage point may start
before the report or after it.
-/
import LinkAdaptation.Proofs.Flow.Burst
import LinkAdaptation.Proofs.Flow.Sides

namespace LinkAdaptation.Flow

variable {rates : RateSet} {config : Config} {entropy : Random.Key}
  {f₀ f f₁ g : Flow rates}
  {vantage other : Vantage} {a : Account} {n : Nat}
  {requests requests' : List Request} {replies : List Reply}

-- ============================================================= reports

/-- What a vantage point reports, in its own order. -/
def reportsOf (vantage : Vantage) (requests : List Request) : List Request :=
  requests.filter (·.vantage? = some vantage)

/-- What the reports of a vantage point are answered, in their order. -/
def answersTo (vantage : Vantage) (requests : List Request)
    (replies : List Reply) : List Reply :=
  answers (·.vantage? = some vantage) requests replies

/-- A list of requests that are all reports. -/
def AllReports (requests : List Request) : Prop :=
  ∀ request ∈ requests, request.vantage?.isSome = true

instance (requests : List Request) : Decidable (AllReports requests) :=
  inferInstanceAs (Decidable (∀ _ ∈ requests, _))

theorem reportsOf_cons_self {request : Request} {rest : List Request}
    (hfrom : request.vantage? = some vantage) :
    reportsOf vantage (request :: rest)
      = request :: reportsOf vantage rest := by
  simp [reportsOf, hfrom]

theorem reportsOf_cons_of_ne {request : Request} {rest : List Request}
    (hfrom : request.vantage? = some other) (hne : vantage ≠ other) :
    reportsOf vantage (request :: rest) = reportsOf vantage rest := by
  simp [reportsOf, hfrom, hne.symm]

theorem answersTo_cons_self {request : Request} {rest : List Request}
    {reply : Reply} {later : List Reply}
    (hfrom : request.vantage? = some vantage) :
    answersTo vantage (request :: rest) (reply :: later)
      = reply :: answersTo vantage rest later := by
  unfold answersTo
  rw [answers_cons, if_pos (decide_eq_true hfrom)]

theorem answersTo_cons_of_ne {request : Request} {rest : List Request}
    {reply : Reply} {later : List Reply}
    (hfrom : request.vantage? = some other) (hne : vantage ≠ other) :
    answersTo vantage (request :: rest) (reply :: later)
      = answersTo vantage rest later := by
  unfold answersTo
  rw [answers_cons, if_neg (by simp [hfrom, hne.symm])]

/-- Reports of one vantage point run the same whatever the opposite side
is, and leave that side alone. -/
theorem run_reportsOf_withSide (hother : other ≠ vantage) (f g : Flow rates)
    (requests : List Request) :
    (f.withSide other g).run (reportsOf vantage requests)
      = besides other g <$> f.run (reportsOf vantage requests) := by
  induction requests generalizing f with
  | nil => rfl
  | cons request rest ih =>
      by_cases hfrom : request.vantage? = some vantage
      · rw [reportsOf_cons_self hfrom]
        rw [run_cons, run_cons, handle_withSide hother hfrom]
        cases f.handle request with
        | error fault => rfl
        | ok p =>
            show (fun q => (q.1, p.2 :: q.2))
                <$> (p.1.withSide other g).run (reportsOf vantage rest)
              = besides other g <$> (fun q => (q.1, p.2 :: q.2))
                <$> p.1.run (reportsOf vantage rest)
            rw [ih]
            cases p.1.run (reportsOf vantage rest) <;> rfl
      · have hskip : reportsOf vantage (request :: rest)
            = reportsOf vantage rest := by simp [reportsOf, hfrom]
        rw [hskip]
        exact ih f

-- =============================================================== sides

theorem withSide_comm (hother : other ≠ vantage) (f g g' : Flow rates) :
    (f.withSide vantage g).withSide other g'
      = (f.withSide other g').withSide vantage g := by
  cases other <;> cases vantage <;> first | rfl | exact absurd rfl hother

/-- A flow that differs from another one in its two sides only. -/
def SidesOver (f g : Flow rates) : Prop :=
  g = (f.withSide .front g).withSide .back g

theorem SidesOver.refl (f : Flow rates) : SidesOver f f := rfl

/-- What is over a flow is over any that differs from it in a side. -/
theorem SidesOver.of_sameBut (h : SidesOver f g) (hsame : SameBut vantage f f₁) :
    SidesOver f₁ g := by
  obtain ⟨h₁, rfl⟩ := hsame
  cases vantage <;> exact h

theorem SameBut.withSide_eq (h : SameBut vantage f f₁) (g : Flow rates) :
    f₁.withSide vantage g = f.withSide vantage g := by
  obtain ⟨h₁, rfl⟩ := h
  exact f.withSide_withSide h₁ g vantage

-- ================================================================ runs

/-- Reports change the two sides only. -/
theorem sidesOver_run (hreports : AllReports requests)
    (hrun : f.run requests = .ok (g, replies)) : SidesOver f g := by
  induction requests generalizing f replies with
  | nil =>
      cases hrun
      exact .refl _
  | cons request rest ih =>
      obtain ⟨hreport, hreports⟩ := List.forall_mem_cons.1 hreports
      obtain ⟨vantage, hfrom⟩ := Option.isSome_iff_exists.1 hreport
      obtain ⟨f₁, reply, later, hhandle, hrest, -⟩ := run_cons_eq_ok.1 hrun
      exact (ih hreports hrest).of_sameBut (sameBut_handle hfrom hhandle).symm

/-- Of an interleaved run, each vantage point's part is a run alone. -/
theorem run_alone (hreports : AllReports requests)
    (hrun : f.run requests = .ok (g, replies)) (vantage : Vantage) :
    f.run (reportsOf vantage requests)
      = .ok (f.withSide vantage g, answersTo vantage requests replies) := by
  induction requests generalizing f replies with
  | nil =>
      cases hrun
      rw [withSide_self]
      rfl
  | cons request rest ih =>
      obtain ⟨hreport, hreports⟩ := List.forall_mem_cons.1 hreports
      obtain ⟨source, hfrom⟩ := Option.isSome_iff_exists.1 hreport
      obtain ⟨f₁, reply, later, hhandle, hrest, rfl⟩ := run_cons_eq_ok.1 hrun
      have hsame := sameBut_handle hfrom hhandle
      have halone := ih hreports hrest
      by_cases hown : vantage = source
      · subst hown
        rw [reportsOf_cons_self hfrom, answersTo_cons_self hfrom,
          ← hsame.withSide_eq]
        exact run_cons_eq_ok.2 ⟨f₁, reply, _, hhandle, halone, rfl⟩
      · -- the other vantage point's reports might as well have come first
        rw [reportsOf_cons_of_ne hfrom hown, answersTo_cons_of_ne hfrom hown,
          hsame.symm.eq_withSide,
          run_reportsOf_withSide (Ne.symm hown), halone]
        show Except.ok ((f₁.withSide vantage g).withSide source f, _) = _
        rw [withSide_comm (Ne.symm hown)]

/-- Where each vantage point's reports can be run alone, they can be run
interleaved. -/
theorem run_of_alone (hreports : AllReports requests) (hover : SidesOver f g)
    (halone : ∀ vantage, ∃ answers, f.run (reportsOf vantage requests)
      = .ok (f.withSide vantage g, answers)) :
    ∃ replies, f.run requests = .ok (g, replies) := by
  induction requests generalizing f with
  | nil =>
      obtain ⟨_, hfront⟩ := halone .front
      obtain ⟨_, hback⟩ := halone .back
      have hfront : f = f.withSide .front g :=
        congrArg Prod.fst (Except.ok.inj hfront)
      have hback : f = f.withSide .back g :=
        congrArg Prod.fst (Except.ok.inj hback)
      refine ⟨[], ?_⟩
      rw [hover, ← hfront, ← hback]
      rfl
  | cons request rest ih =>
      obtain ⟨hreport, hreports⟩ := List.forall_mem_cons.1 hreports
      obtain ⟨source, hfrom⟩ := Option.isSome_iff_exists.1 hreport
      obtain ⟨answers, hown⟩ := halone source
      rw [reportsOf_cons_self hfrom] at hown
      obtain ⟨f₁, reply, later, hhandle, hown, -⟩ := run_cons_eq_ok.1 hown
      have hsame := sameBut_handle hfrom hhandle
      have halone₁ : ∀ vantage, ∃ answers,
          f₁.run (reportsOf vantage rest)
            = .ok (f₁.withSide vantage g, answers) := by
        intro vantage
        by_cases hvantage : vantage = source
        · subst hvantage
          exact ⟨later, by rw [hown, hsame.withSide_eq]⟩
        · obtain ⟨answers, hother⟩ := halone vantage
          rw [reportsOf_cons_of_ne hfrom hvantage] at hother
          refine ⟨answers, ?_⟩
          rw [hsame.eq_withSide, run_reportsOf_withSide (Ne.symm hvantage),
            hother]
          show Except.ok ((f.withSide vantage g).withSide source f₁, _) = _
          rw [withSide_comm (Ne.symm hvantage)]
      obtain ⟨replies, hrest⟩ := ih hreports (hover.of_sameBut hsame) halone₁
      exact ⟨reply :: replies, run_cons_eq_ok.2
        ⟨f₁, reply, replies, hhandle, hrest, rfl⟩⟩

/-- Two interleavings of the same reports: where one can be run, so can the
other, to the same flow, and every report is answered the same in both. -/
theorem run_interleaved (hreports : AllReports requests)
    (hreports' : AllReports requests')
    (hsame : ∀ vantage, reportsOf vantage requests'
      = reportsOf vantage requests)
    (hrun : f.run requests = .ok (g, replies)) :
    ∃ replies', f.run requests' = .ok (g, replies')
      ∧ ∀ vantage, answersTo vantage requests' replies'
        = answersTo vantage requests replies := by
  have halone := run_alone hreports hrun
  obtain ⟨replies', hrun'⟩ := run_of_alone hreports'
    (sidesOver_run hreports hrun) fun vantage =>
      ⟨_, by rw [hsame]; exact halone vantage⟩
  refine ⟨replies', hrun', ?_⟩
  intro vantage
  have halone' := run_alone hreports' hrun' vantage
  rw [hsame, halone] at halone'
  exact (congrArg Prod.snd (Except.ok.inj halone')).symm

-- =========================================================== succeeding

/-- A burst with an instant after its latest outcome; any other request. -/
def Request.Ends : Request → Prop
  | .feedBatch _ outcomes => ∀ last ∈ (outcomes.map (·.time)).max?,
      (last.add? .tick).isSome = true
  | _ => True

/-- With room in the counters, a report is answered. -/
theorem Told.handle_report (h : f.Told n) (hsound : Sound config f)
    (hc : config.Accepted) {request : Request}
    (hreport : request.vantage?.isSome = true) (hends : request.Ends)
    (hroom : n + request.brings < counterLimit) :
    ∃ p, f.handle request = .ok p := by
  cases request with
  | feed vantage o =>
      by_cases ho : Window.Accepts rates o
      · obtain ⟨f', hrecord, -⟩ := (h.record vantage [o] hroom).exists_ok
        refine ⟨(f', .done), ?_⟩
        show f.attemptChecked (f.feed vantage o) = _
        rw [feed_of_accepts ho, attemptChecked_mapError]
        exact map_eq_ok.2 ⟨f', hrecord, rfl⟩
      · obtain ⟨error, hrefused⟩ := feed_of_not_accepts ho f vantage
        refine ⟨(f, .refused error), ?_⟩
        show f.attemptChecked (f.feed vantage o) = _
        rw [hrefused]
        rfl
  | feedBatch vantage outcomes =>
      cases hfind : outcomes.find? (fun o => ¬ Window.Accepts rates o) with
      | none =>
          have haccepts : ∀ o ∈ outcomes, Window.Accepts rates o := by
            simpa using hfind
          have hrecorded : ∃ f',
              f.handle (.feedBatch vantage outcomes) = .ok (f', .done) :=
            h.handle_feedBatch hroom hsound hc haccepts hends
          obtain ⟨f', hrecorded⟩ := hrecorded
          exact ⟨_, hrecorded⟩
      | some o =>
          refine ⟨(f, .refused (if o.status = .sent then
            .invalidStatus .sent else .unknownRate o.rate)), ?_⟩
          show f.attemptChecked (f.feedBatch vantage outcomes) = _
          unfold Flow.feedBatch
          rw [burstRejection?_of_find? hfind]
          rfl
  | refreshLoss vantage start stop =>
      obtain ⟨f', hrefresh⟩ := h.refreshLoss_succeeds hroom hsound hc vantage
        start stop
      exact ⟨(f', .done), bind_eq_ok.2 ⟨f', hrefresh, rfl⟩⟩
  | window vantage request => exact ⟨_, rfl⟩
  | _ => cases hreport

/-- And so are all of a run. -/
theorem Told.run_reports (h : f.Told n) (hfollows : Follows config a f)
    (hsound : Sound config f) (hc : config.Accepted)
    (hreports : AllReports requests)
    (hends : ∀ request ∈ requests, request.Ends)
    (hroom : n + (requests.map Request.brings).sum < counterLimit) :
    ∃ p, f.run requests = .ok p := by
  induction requests generalizing f n a with
  | nil => exact ⟨(f, []), rfl⟩
  | cons request rest ih =>
      obtain ⟨hreport, hreports⟩ := List.forall_mem_cons.1 hreports
      obtain ⟨hend, hends⟩ := List.forall_mem_cons.1 hends
      rw [List.map_cons, List.sum_cons, ← Nat.add_assoc] at hroom
      obtain ⟨⟨f₁, reply⟩, hhandle⟩ := h.handle_report hsound hc hreport hend
        (Nat.lt_of_le_of_lt (Nat.le_add_right _ _) hroom)
      have htold := h.handle hfollows
        (Nat.lt_of_le_of_lt (Nat.le_add_right _ _) hroom) hhandle
      have hsound₁ := (hsound.handle hc request).of_eq_ok hhandle
      obtain ⟨⟨g, later⟩, hrest⟩ := ih htold (hfollows.handle hhandle) hsound₁
        hreports hends hroom
      exact ⟨_, run_cons_eq_ok.2 ⟨f₁, reply, later, hhandle, hrest, rfl⟩⟩

/-- Whatever a flow was asked before, two interleavings of the same reports
lead it to the same flow, and every report is answered the same in both,
refused ones included: where one interleaving can be run, so can the other.
All of them can, as long as fewer outcomes were ever brought than a counter
can count and every burst has an instant after it. -/
theorem interleavings_agree {before : List Request} {earlier : List Reply}
    (hstart : start rates config entropy = .ok f₀)
    (hbefore : f₀.run before = .ok (f, earlier))
    (hreports : AllReports requests) (hreports' : AllReports requests')
    (hsame : ∀ vantage, reportsOf vantage requests'
      = reportsOf vantage requests) :
    (∀ g replies, f.run requests = .ok (g, replies) →
      ∃ replies', f.run requests' = .ok (g, replies')
        ∧ ∀ vantage, answersTo vantage requests' replies'
          = answersTo vantage requests replies)
    ∧ (((before ++ requests).map Request.brings).sum < counterLimit →
      (∀ request ∈ requests, request.Ends) →
      ∃ g replies, f.run requests = .ok (g, replies)) := by
  constructor
  · intro g replies hrun
    exact run_interleaved hreports hreports' hsame hrun
  · intro hroom hends
    rw [List.map_append, List.sum_append] at hroom
    have hc := accepted_of_start hstart
    have hfollows := (follows_start hstart).run hbefore
    have htold := (told_start hstart).run (follows_start hstart) (by omega)
      hbefore
    have hsound := ((sound_start hstart).run hc before).of_eq_ok hbefore
    obtain ⟨⟨g, replies⟩, hrun⟩ := htold.run_reports hfollows hsound hc
      hreports hends (by omega)
    exact ⟨g, replies, hrun⟩

/-- Two vantage points with a baseline at the back that forgets, a report
that is refused, and windows that are cleared and shortened between the
others. -/
theorem interleavings_agree_aging :
    let rates : RateSet := ⟨#[10, 20], by decide, by decide⟩
    let sent (n : Int) (rate : Rate) (status : Status) : Outcome :=
      ⟨⟨n * 1000000000⟩, 0, rate, 1000, status⟩
    let a₁ : Request := .feedBatch .front [sent 1 10 .acked, sent 2 20 .naked]
    let a₂ : Request := .window .front .clear
    let a₃ : Request := .feed .front (sent 3 20 .acked)
    let b₁ : Request := .feed .back (sent 1 10 .acked)
    let b₂ : Request := .feed .back (sent 2 30 .acked)
    let b₃ : Request := .window .back (.setRetention (.seconds 5))
    let b₄ : Request := .feedBatch .back [sent 15 20 .naked]
    let requests := [a₁, b₁, a₂, b₂, b₃, b₄, a₃]
    let requests' := [b₁, b₂, a₁, a₂, a₃, b₃, b₄]
    ∃ (f₀ f g : Flow rates) (earlier replies replies' : List Reply),
      start rates { seed := some 1 } default = .ok f₀
        ∧ f₀.run [.setMode .sampleRate ⟨0⟩ default] = .ok (f, earlier)
        ∧ AllReports requests ∧ AllReports requests'
        ∧ (∀ vantage, reportsOf vantage requests'
          = reportsOf vantage requests)
        ∧ f.run requests = .ok (g, replies)
        ∧ answersTo .back requests replies
          = [.done, .refused (.unknownRate 30), .done, .done]
        ∧ f.run requests' = .ok (g, replies')
        ∧ ∀ vantage, answersTo vantage requests' replies'
          = answersTo vantage requests replies := by
  intro rates sent a₁ a₂ a₃ b₁ b₂ b₃ b₄ requests requests'
  obtain ⟨f₀, f, earlier, ⟨g, replies⟩, hstart, hbefore, hrun, hanswers⟩ :=
    exists_step rates { seed := some 1 } default
      [.setMode .sampleRate ⟨0⟩ default] (·.run requests)
      (fun _ p => answersTo .back requests p.2
        = [.done, .refused (.unknownRate 30), .done, .done])
      (by decide +kernel)
  have hreports : AllReports requests := by decide
  have hreports' : AllReports requests' := by decide
  have hsame : ∀ vantage, reportsOf vantage requests'
      = reportsOf vantage requests := by
    intro vantage
    cases vantage <;> rfl
  obtain ⟨hagree, -⟩ :=
    interleavings_agree hstart hbefore hreports hreports' hsame
  obtain ⟨replies', hrun', hsameAnswers⟩ := hagree g replies hrun
  exact ⟨f₀, f, g, earlier, replies, replies', hstart, hbefore, hreports,
    hreports', hsame, hrun, hanswers, hrun', hsameAnswers⟩

end LinkAdaptation.Flow
