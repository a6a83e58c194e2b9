/-
A flow table as a map of flows that know nothing of each other. What was
asked of the table, with the answers, says which flow a client should have:
the one that its latest accepted registration opened, if it was not removed
since. And it says what was asked of each flow, by whatever name: a request
to a client went to the flow that the client had at that moment.

The table keeps to this through every request. So it finds the flow that a
client should have, and each flow, whether its client still has it or not,
is in the state that a fresh flow comes to by the requests to it alone.

The past is read from its latest event backwards, so that a request adds an
event at its head.
-/
import LinkAdaptation.FlowTable.Run
import LinkAdaptation.Proofs.Flow.Run

namespace LinkAdaptation.FlowTable

variable {t t' : FlowTable} {client other : Client} {id : FlowId}
  {requests : List Request} {replies : List Reply}

-- ============================================================ the past

/-- A request to a table and its answer. -/
abbrev Event := Request × Reply

/-- What a flow was opened with. -/
structure Opening where
  rates : RateSet
  config : Config
  /-- The entropy that was drawn for it. -/
  entropy : Random.Key

/-- What the flows were opened with, by their numbers. -/
def openings : List Event → List Opening
  | [] => []
  | (request, reply) :: earlier =>
      match request, reply with
      | .register _ rates config entropy, .registered =>
          openings earlier ++ [⟨rates, config, entropy⟩]
      | _, _ => openings earlier

/-- The flow that a client should have. -/
def holder (client : Client) : List Event → Option FlowId
  | [] => none
  | (request, reply) :: earlier =>
      match request, reply with
      | .register other _ _ _, .registered =>
          if client = other then some (openings earlier).length
          else holder client earlier
      | .remove other, _ =>
          if client = other then none else holder client earlier
      | _, _ => holder client earlier

/-- What was asked of a flow, with its answers, earliest first. -/
def steps (id : FlowId) : List Event → List (Flow.Request × Flow.Reply)
  | [] => []
  | (request, reply) :: earlier =>
      match request, reply with
      | .toClient client request, .answered reply =>
          if holder client earlier = some id then
            steps id earlier ++ [(request, reply)]
          else steps id earlier
      | .toFlow addressed request, .answered reply =>
          if addressed = id then steps id earlier ++ [(request, reply)]
          else steps id earlier
      | _, _ => steps id earlier

theorem length_openings_le (event : Event) (earlier : List Event) :
    (openings earlier).length ≤ (openings (event :: earlier)).length := by
  obtain ⟨request, reply⟩ := event
  show _ ≤ (match request, reply with
    | .register _ rates config entropy, .registered =>
        openings earlier ++ [Opening.mk rates config entropy]
    | _, _ => openings earlier).length
  split
  · rw [List.length_append]
    exact Nat.le_add_right _ _
  · exact Nat.le_refl _

/-- A client has a flow that was opened. -/
theorem holder_lt {past : List Event} (h : holder client past = some id) :
    id < (openings past).length := by
  induction past with
  | nil => cases h
  | cons event earlier ih =>
      have hle := length_openings_le event earlier
      obtain ⟨request, reply⟩ := event
      unfold holder at h
      split at h
      · split at h
        · cases h
          show _ < (openings earlier ++ [_]).length
          rw [List.length_append]
          exact Nat.lt_succ_self _
        · exact Nat.lt_of_lt_of_le (ih h) hle
      · split at h
        · cases h
        · exact Nat.lt_of_lt_of_le (ih h) hle
      · exact Nat.lt_of_lt_of_le (ih h) hle

-- ============================================================= entries

/-- Clients ascend strictly. -/
def Ascends (entries : List (Client × FlowId)) : Prop :=
  entries.Pairwise (·.1 < ·.1)

theorem lookup_cons_eq (client : Client) (entry : Client × FlowId)
    (rest : List (Client × FlowId)) :
    (entry :: rest).lookup client
      = if client = entry.1 then some entry.2 else rest.lookup client := by
  rw [List.lookup_cons]
  by_cases h : client = entry.1
  · rw [if_pos h, beq_iff_eq.2 h]
  · rw [if_neg h, beq_eq_false_iff_ne.2 h]

theorem lookup_enter (client other : Client) (id : FlowId)
    (entries : List (Client × FlowId)) :
    (enter other id entries).lookup client
      = if client = other then some id else entries.lookup client := by
  induction entries with
  | nil => exact lookup_cons_eq client (other, id) []
  | cons entry rest ih =>
      obtain ⟨first, held⟩ := entry
      unfold enter
      split
      · exact lookup_cons_eq client (other, id) _
      · split
        · next heq =>
            subst heq
            rw [lookup_cons_eq, lookup_cons_eq]
            split <;> rfl
        · next hne =>
            rw [lookup_cons_eq, lookup_cons_eq, ih]
            split
            · next heq =>
                subst heq
                rw [if_neg (Ne.symm hne)]
            · rfl

theorem mem_enter {entry : Client × FlowId}
    {entries : List (Client × FlowId)}
    (h : entry ∈ enter client id entries) :
    entry = (client, id) ∨ entry ∈ entries := by
  induction entries with
  | nil => exact .inl (List.mem_singleton.1 h)
  | cons first rest ih =>
      unfold enter at h
      split at h
      · exact List.mem_cons.1 h
      · split at h
        · rcases List.mem_cons.1 h with rfl | h
          · exact .inl rfl
          · exact .inr (List.mem_cons_of_mem _ h)
        · rcases List.mem_cons.1 h with rfl | h
          · exact .inr List.mem_cons_self
          · exact (ih h).imp_right (List.mem_cons_of_mem _)

theorem Ascends.enter {entries : List (Client × FlowId)}
    (h : Ascends entries) (client : Client) (id : FlowId) :
    Ascends (enter client id entries) := by
  induction entries with
  | nil => exact List.pairwise_singleton _ _
  | cons first rest ih =>
      obtain ⟨habove, hrest⟩ := List.pairwise_cons.1 h
      unfold FlowTable.enter
      split
      · next hlt =>
          refine List.pairwise_cons.2 ⟨?_, h⟩
          intro entry hentry
          rcases List.mem_cons.1 hentry with rfl | hentry
          · exact hlt
          · exact UInt32.lt_trans hlt (habove entry hentry)
      · next hnot =>
          split
          · next heq =>
              subst heq
              exact List.pairwise_cons.2 ⟨habove, hrest⟩
          · next hne =>
              refine List.pairwise_cons.2 ⟨?_, ih hrest⟩
              intro entry hentry
              rcases mem_enter hentry with rfl | hentry
              · exact UInt32.lt_of_le_of_ne (UInt32.not_lt.1 hnot)
                  (Ne.symm hne)
              · exact habove entry hentry

theorem lookup_without (client other : Client)
    (entries : List (Client × FlowId)) :
    (entries.filter (·.1 != other)).lookup client
      = if client = other then none else entries.lookup client := by
  induction entries with
  | nil => exact (ite_self none).symm
  | cons entry rest ih =>
      rw [List.filter_cons, lookup_cons_eq]
      split
      · next hkept =>
          rw [lookup_cons_eq, ih]
          split
          · next heq =>
              rw [if_neg]
              rw [heq]
              exact bne_iff_ne.1 hkept
          · rfl
      · next hgone =>
          have heq : entry.1 = other := by simpa using hgone
          rw [ih, heq]
          split <;> rfl

-- ========================================================= reflection

/-- A flow that is what a fresh one becomes by some steps alone. -/
def Replays (opening : Opening) (own : List (Flow.Request × Flow.Reply))
    (flow : AnyFlow) : Prop :=
  ∃ f₀ f : Flow opening.rates,
    Flow.start opening.rates opening.config opening.entropy = .ok f₀
    ∧ f₀.run (own.map (·.1)) = .ok (f, own.map (·.2))
    ∧ flow = ⟨opening.rates, f⟩

/-- A table that is what its past makes it. -/
structure Reflects (past : List Event) (t : FlowTable) : Prop where
  ascends : Ascends t.registered
  holder_eq : ∀ client, t.registered.lookup client = holder client past
  size_eq : t.opened.size = (openings past).length
  unasked : ∀ id, (openings past).length ≤ id → steps id past = []
  replays : ∀ id opening, (openings past)[id]? = some opening →
    ∃ flow, t.flow? id = some flow ∧ Replays opening (steps id past) flow

variable {past : List Event} {event : Event}

theorem reflects_empty : Reflects [] empty := by
  refine ⟨List.Pairwise.nil, fun _ => rfl, rfl, fun _ _ => rfl, ?_⟩
  intro id opening hopening
  cases hopening

theorem Replays.step {opening : Opening}
    {own : List (Flow.Request × Flow.Reply)} {rates : RateSet}
    {flow flow' : Flow rates} {request : Flow.Request} {reply : Flow.Reply}
    (h : Replays opening own ⟨rates, flow⟩)
    (hhandle : flow.handle request = .ok (flow', reply)) :
    Replays opening (own ++ [(request, reply)]) ⟨rates, flow'⟩ := by
  obtain ⟨f₀, f, hstart, hrun, heq⟩ := h
  cases heq
  refine ⟨f₀, flow', hstart, ?_, rfl⟩
  rw [List.map_append, List.map_append]
  exact Flow.run_append hrun
    (Flow.run_cons_eq_ok.2 ⟨flow', reply, [], hhandle, rfl, rfl⟩)

/-- An event that opens no flow, moves no client and asks no flow. -/
theorem Reflects.pass (h : Reflects past t)
    (hopenings : openings (event :: past) = openings past)
    (hholder : ∀ client, holder client (event :: past) = holder client past)
    (hsteps : ∀ id, steps id (event :: past) = steps id past) :
    Reflects (event :: past) t := by
  obtain ⟨hascends, hheld, hsize, hunasked, hreplays⟩ := h
  refine ⟨hascends, ?_, ?_, ?_, ?_⟩
  · intro client
    rw [hholder]
    exact hheld client
  · rw [hopenings]
    exact hsize
  · intro id
    rw [hopenings, hsteps]
    exact hunasked id
  · intro id
    rw [hopenings, hsteps]
    exact hreplays id

theorem Reflects.register (h : Reflects past t) {rates : RateSet}
    {config : Config} {entropy : Random.Key}
    (hregister : t.register client rates config entropy = .ok t') :
    Reflects ((.register client rates config entropy, .registered) :: past)
      t' := by
  obtain ⟨flow, hstart, hregister⟩ := bind_eq_ok.1 hregister
  cases hregister
  have hopenings : openings ((.register client rates config entropy,
      .registered) :: past) = openings past ++ [⟨rates, config, entropy⟩] :=
    rfl
  refine ⟨h.ascends.enter client _, ?_, ?_, ?_, ?_⟩
  · intro other
    rw [lookup_enter, h.holder_eq, h.size_eq]
    rfl
  · rw [hopenings, Array.size_push, List.length_append, h.size_eq]
    rfl
  · intro id hid
    rw [hopenings, List.length_append] at hid
    exact h.unasked id (Nat.le_of_succ_le hid)
  · intro id opening hopening
    show ∃ found, (t.opened.push ⟨rates, flow⟩)[id]? = some found
      ∧ Replays opening (steps id past) found
    rw [hopenings] at hopening
    by_cases hid : id < (openings past).length
    · rw [List.getElem?_append_left hid] at hopening
      obtain ⟨found, hfound, hreplay⟩ := h.replays id opening hopening
      refine ⟨found, ?_, hreplay⟩
      rw [Array.getElem?_push, h.size_eq, if_neg (Nat.ne_of_lt hid)]
      exact hfound
    · -- the flow that was just opened
      rw [List.getElem?_append_right (Nat.not_lt.1 hid)] at hopening
      obtain ⟨hlast, heq⟩ := List.getElem?_eq_some_iff.1 hopening
      rw [List.getElem_singleton] at heq
      have hid : id = (openings past).length :=
        Nat.le_antisymm (Nat.sub_eq_zero_iff_le.1 (Nat.lt_one_iff.1 hlast))
          (Nat.not_lt.1 hid)
      subst hid heq
      refine ⟨⟨rates, flow⟩, ?_, ?_⟩
      · rw [Array.getElem?_push, if_pos h.size_eq.symm]
      · rw [h.unasked _ (Nat.le_refl _)]
        exact ⟨flow, flow, hstart, rfl, rfl⟩

theorem Reflects.remove (h : Reflects past t) (client : Client)
    (reply : Reply) :
    Reflects ((.remove client, reply) :: past) (t.remove client).1 := by
  refine ⟨List.Pairwise.filter _ h.ascends, ?_, h.size_eq, h.unasked,
    h.replays⟩
  intro other
  show (t.registered.filter (·.1 != client)).lookup other = _
  rw [lookup_without, h.holder_eq]
  rfl

theorem flow?_setFlow {rates : RateSet} (t : FlowTable)
    {flow flow' : Flow rates} {id other : FlowId}
    (hflow : t.flow? id = some ⟨rates, flow⟩) :
    (t.setFlow id flow').flow? other
      = if other = id then some ⟨rates, flow'⟩ else t.flow? other := by
  obtain ⟨hid, -⟩ := Array.getElem?_eq_some_iff.1 hflow
  show (t.opened.setIfInBounds id ⟨rates, flow'⟩)[other]? = _
  rw [Array.getElem?_setIfInBounds]
  by_cases heq : id = other
  · rw [if_pos heq, if_pos hid, if_pos heq.symm]
  · rw [if_neg heq, if_neg (Ne.symm heq)]
    rfl

/-- A request to a flow is a step of that flow and of no other. -/
theorem Reflects.ask (h : Reflects past t) {rates : RateSet}
    {flow flow' : Flow rates} {request : Flow.Request} {reply : Flow.Reply}
    (hflow : t.flow? id = some ⟨rates, flow⟩)
    (hhandle : flow.handle request = .ok (flow', reply))
    (hopenings : openings (event :: past) = openings past)
    (hholder : ∀ client, holder client (event :: past) = holder client past)
    (hsteps : ∀ other, steps other (event :: past)
      = if other = id then steps other past ++ [(request, reply)]
        else steps other past) :
    Reflects (event :: past) (t.setFlow id flow') := by
  obtain ⟨hid, -⟩ := Array.getElem?_eq_some_iff.1 hflow
  refine ⟨h.ascends, ?_, ?_, ?_, ?_⟩
  · intro client
    rw [hholder]
    exact h.holder_eq client
  · rw [hopenings]
    exact (Array.size_setIfInBounds ..).trans h.size_eq
  · intro other hother
    rw [hopenings] at hother
    rw [← h.size_eq] at hother
    rw [hsteps, if_neg (Nat.ne_of_gt (Nat.lt_of_lt_of_le hid hother))]
    exact h.unasked other (h.size_eq ▸ hother)
  · intro other opening hopening
    rw [hopenings] at hopening
    obtain ⟨found, hfound, hreplay⟩ := h.replays other opening hopening
    rw [flow?_setFlow t hflow, hsteps]
    split
    · next heq =>
        subst heq
        rw [hflow] at hfound
        cases hfound
        exact ⟨_, rfl, hreplay.step hhandle⟩
    · exact ⟨found, hfound, hreplay⟩

theorem handleFlow_eq_ok {request : Flow.Request} {reply : Reply}
    (h : t.handleFlow id request = .ok (t', reply)) :
    (t.flow? id = none ∧ t' = t ∧ reply = .absent)
      ∨ ∃ (rates : RateSet) (flow flow' : Flow rates) (answer : Flow.Reply),
        t.flow? id = some ⟨rates, flow⟩
        ∧ flow.handle request = .ok (flow', answer)
        ∧ t' = t.setFlow id flow' ∧ reply = .answered answer := by
  unfold handleFlow at h
  split at h
  · next hnone =>
      cases h
      exact .inl ⟨hnone, rfl, rfl⟩
  · next rates flow hflow =>
      obtain ⟨⟨flow', answer⟩, hhandle, h⟩ := bind_eq_ok.1 h
      cases h
      exact .inr ⟨rates, flow, flow', answer, hflow, hhandle, rfl, rfl⟩

/-- Every request to a table is reflected in it. -/
theorem Reflects.handle (h : Reflects past t) {request : Request}
    {reply : Reply} (hhandle : t.handle request = .ok (t', reply)) :
    Reflects ((request, reply) :: past) t' := by
  cases request with
  | register client rates config entropy =>
      unfold FlowTable.handle at hhandle
      dsimp only at hhandle
      split at hhandle
      · next hregister =>
          cases hhandle
          exact h.register hregister
      · cases hhandle
        exact h.pass rfl (fun _ => rfl) fun _ => rfl
  | remove client =>
      cases hhandle
      exact h.remove client _
  | toFlow id request =>
      obtain ⟨-, rfl, rfl⟩ | ⟨_, _, _, _, hflow, hstep, rfl, rfl⟩ :=
        handleFlow_eq_ok hhandle
      · exact h.pass rfl (fun _ => rfl) fun _ => rfl
      · refine h.ask hflow hstep rfl (fun _ => rfl) ?_
        intro other
        show (if id = other then _ else _) = _
        simp only [eq_comm]
  | toClient client request =>
      unfold FlowTable.handle at hhandle
      dsimp only at hhandle
      unfold FlowTable.id at hhandle
      rw [h.holder_eq] at hhandle
      cases hheld : holder client past with
      | none =>
          rw [hheld] at hhandle
          cases hhandle
          exact h.pass rfl (fun _ => rfl) fun _ => rfl
      | some id =>
          rw [hheld] at hhandle
          obtain ⟨-, rfl, rfl⟩ | ⟨_, _, _, _, hflow, hstep, rfl, rfl⟩ :=
            handleFlow_eq_ok hhandle
          · exact h.pass rfl (fun _ => rfl) fun _ => rfl
          · refine h.ask hflow hstep rfl (fun _ => rfl) ?_
            intro other
            show (if holder client past = some other then _ else _) = _
            simp only [hheld, Option.some.injEq, eq_comm]

-- ================================================================ runs

theorem run_cons_eq_ok {request : Request} {rest : List Request} :
    t.run (request :: rest) = .ok (t', replies)
      ↔ ∃ t₁ reply later, t.handle request = .ok (t₁, reply)
        ∧ t₁.run rest = .ok (t', later) ∧ replies = reply :: later := by
  rw [run, bind_eq_ok]
  constructor
  · intro h
    obtain ⟨⟨t₁, reply⟩, hhandle, h⟩ := h
    obtain ⟨⟨t₂, later⟩, hrest, h⟩ := bind_eq_ok.1 h
    cases h
    exact ⟨t₁, reply, later, hhandle, hrest, rfl⟩
  · intro h
    obtain ⟨t₁, reply, later, hhandle, hrest, rfl⟩ := h
    exact ⟨_, hhandle, bind_eq_ok.2 ⟨_, hrest, rfl⟩⟩

/-- Every run of a table is reflected in it. -/
theorem Reflects.run (h : Reflects past t)
    (hrun : t.run requests = .ok (t', replies)) :
    Reflects ((requests.zip replies).reverse ++ past) t' := by
  induction requests generalizing t past replies with
  | nil =>
      cases hrun
      exact h
  | cons request rest ih =>
      obtain ⟨t₁, reply, later, hhandle, hrest, rfl⟩ := run_cons_eq_ok.1 hrun
      rw [List.zip_cons_cons, List.reverse_cons, List.append_assoc]
      exact ih (h.handle hhandle) hrest

/-- A table that finds for every client the flow it should have, and keeps
every flow to what was asked of it. -/
structure Faithful (past : List Event) (t : FlowTable) : Prop where
  /-- A client is found with the flow of its latest registration. -/
  found : ∀ client id, holder client past = some id →
    t.id client = .ok id
      ∧ ∃ flow, t.flow? id = some flow ∧ t.get client = .ok flow
  /-- Any other is not found. -/
  unknown : ∀ client, holder client past = none →
    t.id client = .error (.unknownClient client)
      ∧ t.get client = .error (.unknownClient client)
  /-- A registration is accepted where its flow can be started. -/
  registers : ∀ client rates config entropy f₀,
    Flow.start rates config entropy = .ok f₀ →
    ∃ t', t.handle (.register client rates config entropy)
      = .ok (t', .registered)
  /-- Any other is refused, and leaves the table as it is. -/
  refuses : ∀ client rates config entropy error,
    Flow.start rates config entropy = .error error →
    t.handle (.register client rates config entropy)
      = .ok (t, .refused error)
  ascending : t.clients.Pairwise (· < ·)
  listed : ∀ client, client ∈ t.clients ↔ (holder client past).isSome = true
  size_eq : t.size = t.clients.length
  opened : t.opened.size = (openings past).length
  /-- A flow, wherever it is held, is what its own steps lead to. -/
  isolated : ∀ id opening, (openings past)[id]? = some opening →
    ∃ flow, t.flow? id = some flow ∧ Replays opening (steps id past) flow
  /-- It answers in the table as it would answer alone. -/
  answers : ∀ id rates (flow : Flow rates) request,
    t.flow? id = some ⟨rates, flow⟩ →
    t.handle (.toFlow id request)
      = (fun p => (t.setFlow id p.1, .answered p.2)) <$> flow.handle request

theorem Reflects.id_of_held (h : Reflects past t)
    (hheld : holder client past = some id) : t.id client = .ok id := by
  unfold FlowTable.id
  rw [h.holder_eq, hheld]

theorem Reflects.id_of_unheld (h : Reflects past t)
    (hheld : holder client past = none) :
    t.id client = .error (.unknownClient client) := by
  unfold FlowTable.id
  rw [h.holder_eq, hheld]

theorem Reflects.faithful (h : Reflects past t) : Faithful past t := by
  refine ⟨?_, ?_, ?_, ?_, ?_, ?_, ?_, h.size_eq, h.replays, ?_⟩
  · intro client id hheld
    have hid := h.id_of_held hheld
    obtain ⟨flow, hflow, -⟩ := h.replays id _
      (List.getElem?_eq_getElem (holder_lt hheld))
    refine ⟨hid, flow, hflow, ?_⟩
    refine bind_eq_ok.2 ⟨id, hid, ?_⟩
    rw [hflow]
    rfl
  · intro client hheld
    have hid := h.id_of_unheld hheld
    refine ⟨hid, ?_⟩
    unfold get
    rw [hid]
    rfl
  · intro client rates config entropy f₀ hstart
    unfold FlowTable.handle FlowTable.register
    dsimp only
    rw [hstart]
    exact ⟨_, rfl⟩
  · intro client rates config entropy error hstart
    unfold FlowTable.handle FlowTable.register
    dsimp only
    rw [hstart]
    rfl
  · exact List.pairwise_map.2 h.ascends
  · intro client
    rw [← h.holder_eq, List.lookup_isSome_iff]
    constructor
    · intro hmem
      obtain ⟨entry, hentry, rfl⟩ := List.mem_map.1 hmem
      exact ⟨entry, hentry, beq_self_eq_true _⟩
    · intro h
      obtain ⟨entry, hentry, heq⟩ := h
      rw [eq_of_beq heq]
      exact List.mem_map_of_mem hentry
  · exact (List.length_map ..).symm
  · intro id rates flow request hflow
    show t.handleFlow id request = _
    unfold handleFlow
    rw [hflow]
    dsimp only
    cases flow.handle request <;> rfl

/-- In every run of a table a client is found with the flow that its latest
accepted registration opened, if it was not removed since; a refused
registration changes nothing; the clients are listed in ascending order; and
every flow, whether its client has it still or not, is in the state that a
fresh flow comes to by the requests to that flow alone, and answers the next
one as it would answer alone. -/
theorem faithful_and_isolated
    (hrun : empty.run requests = .ok (t, replies)) :
    Faithful (requests.zip replies).reverse t := by
  have hreflects := reflects_empty.run hrun
  rw [List.append_nil] at hreflects
  exact hreflects.faithful

/-- A client that is registered twice and refused once, with its first flow
still held, and one that is removed, with its flow still held. -/
theorem faithful_and_isolated_replaced :
    let rates : RateSet := ⟨#[10, 20], by decide, by decide⟩
    let sent (n : Int) (rate : Rate) (status : Status) : Outcome :=
      ⟨⟨n⟩, 0, rate, 1000, status⟩
    let report (n : Int) (status : Status) : Flow.Request :=
      .feedBatch .back [sent n 10 status, sent n 20 status]
    let requests : List Request :=
      [ .register 7 rates { seed := some 1 } default
      , .register 3 rates { seed := some 2 } default
      , .toClient 7 (report 5 .acked)
      , .register 7 rates { maxK := 0 } default
      , .register 7 rates { Config.conservative with seed := some 3 } default
      , .toFlow 0 (report 6 .naked), .toClient 7 (report 8 .acked)
      , .remove 3, .toFlow 1 (report 7 .acked)
      , .toClient 3 (report 9 .acked), .toFlow 5 (report 9 .acked) ]
    ∃ (t : FlowTable) (replies : List Reply),
      let past := (requests.zip replies).reverse
      empty.run requests = .ok (t, replies)
        ∧ t.clients = [7] ∧ holder 7 past = some 2 ∧ holder 3 past = none
        ∧ (openings past).length = 3
        ∧ (steps 0 past).length = 2 ∧ (steps 1 past).length = 1
        ∧ Faithful past t := by
  intro rates sent report requests
  have hcomputed : (empty.run requests).toOption.map (fun p =>
      let past := (requests.zip p.2).reverse
      decide (p.1.clients = [7] ∧ holder 7 past = some 2
        ∧ holder 3 past = none ∧ (openings past).length = 3
        ∧ (steps 0 past).length = 2 ∧ (steps 1 past).length = 1))
      = some true := by decide +kernel
  obtain ⟨⟨t, replies⟩, hrun, h⟩ := Option.map_eq_some_iff.1 hcomputed
  rw [toOption_eq_some_iff] at hrun
  obtain ⟨hclients, hseven, hthree, hopenings, hfirst, hsecond⟩ :=
    of_decide_eq_true h
  exact ⟨t, replies, hrun, hclients, hseven, hthree, hopenings, hfirst,
    hsecond, faithful_and_isolated hrun⟩

end LinkAdaptation.FlowTable
