import TimeOff.Lifecycle.Correspondence

/-! Over whole runs the status of a request follows the transition table, and never goes back. -/

namespace TimeOff

/-- How far along the table a state is. -/
def RequestStatus.rank : RequestStatus → Nat
  | .draft => 0
  | .pendingApproval => 1
  | .approved => 2
  | .committed => 3
  | .cancellationPending => 4
  | .rejected | .cancelled | .failed => 5

/-- Every transition leads further along the table. -/
theorem rank_lt_of_nextState {source target : RequestStatus} {action : RequestAction}
    (leads : nextState source action = some target) : source.rank < target.rank := by
  cases source <;> cases action <;> cases leads <;> decide

/-- No state is further along than the terminal ones. -/
theorem RequestStatus.rank_le (status : RequestStatus) : status.rank ≤ 5 := by
  cases status <;> decide

/-- A sequence of actions is shorter than the way along the table. -/
theorem rank_of_foldlM {actions : List RequestAction} : ∀ {source target : RequestStatus},
    actions.foldlM nextState source = some target → source.rank + actions.length ≤ target.rank := by
  induction actions with
  | nil =>
    intro source target same
    cases same
    exact le_rfl
  | cons action rest ih =>
    intro source target leads
    -- The first action leads further, and the others further from there.
    obtain ⟨middle, first, others⟩ := Option.bind_eq_some_iff.mp leads
    have further := rank_lt_of_nextState first
    have remaining := ih others
    rw [List.length_cons]
    omega

namespace Service

/-- The action of the table that a step asks for, for one request. -/
def requested (service : Service) (id : String) : ServiceAction → Option RequestAction
  | .operate (.submit request _) => if request = id then some .submit else none
  | .operate (.approve request _ _) => if request = id then some .approve else none
  | .operate (.reject request) => if request = id then some .reject else none
  | .operate (.cancel request _ _) => if request = id then some .cancel else none
  | .operate (.record _ _ _) =>
    match service.processor.attempted with
    | some (msg, .acked _) =>
      if msg.requestId = id then
        some (if msg.type = .debit then .hcmCommitted else .hcmCreditDone)
      else none
    -- A refused credit asks for nothing.
    | some (msg, .refused _) =>
      if msg.requestId = id ∧ msg.type = .debit then some .hcmRejected else none
    | _ => none
  | _ => none

/-- The action a step takes for one request: the one it asks for, where the table allows it. -/
def drives (service : Service) (id : String) (action : ServiceAction) : Option RequestAction :=
  (service.store.requests.find id).bind fun request =>
    (service.requested id action).filter (canTransition request.status)

variable {before after : Service} {action : ServiceAction} {id : String}

/-- A step that is no event for a request asks for nothing. -/
theorem requested_eq_none (silent : before.event id action = none) :
    before.requested id action = none := by
  -- Whatever asks for an action is a transaction about the request.
  cases action with
  | operate operation =>
    cases operation with
    | record entryId eventId now =>
      cases attempted : before.processor.attempted with
      | none => simp [requested, attempted]
      | some pair =>
        obtain ⟨msg, attempt⟩ := pair
        have other : msg.requestId ≠ id := by
          intro own
          simp [event, subject, attempted, own] at silent
        cases attempt <;> simp [requested, attempted, other]
    | create | drain | recordFails => rfl
    | submit request uuid =>
      simpa [event, subject, requested] using silent
    | approve request uuid now =>
      simpa [event, subject, requested] using silent
    | reject request =>
      simpa [event, subject, requested] using silent
    | cancel request uuid now =>
      simpa [event, subject, requested] using silent
  | answer | insertBalance | reconcileKey | crash => rfl

/-- Every move of a progress is the step of the table that is asked for, where it is allowed. -/
theorem status_of_cause (coherent : before.Coherent) {progress target : Progress} {event : Event}
    {status : RequestStatus} (shown : (before.store.dossier id).Shows progress)
    (current : progress.status = some status) (cause : before.Cause id action event)
    (moves : progress.next event = some target) :
    target.status =
      some (((before.requested id action).bind (nextState status)).getD status) := by
  cases cause with
  | creates dto idempotencyKey =>
    cases Progress.steps_of_next moves with
    | create => cases current
  | submits uuid =>
    cases Progress.steps_of_next moves with
    | submit =>
      cases current
      simp [requested, nextState, transitions, Progress.status]
  | approves uuid now =>
    cases Progress.steps_of_next moves with
    | approve =>
      cases current
      simp [requested, nextState, transitions, Progress.status]
  | rejects =>
    cases Progress.steps_of_next moves with
    | reject =>
      cases current
      simp [requested, nextState, transitions, Progress.status]
  | cancels uuid now =>
    cases Progress.steps_of_next moves with
    | withdraw | release | abandon | compensate =>
      cases current
      simp [requested, nextState, transitions, Progress.status]
  | claims now claimed =>
    cases Progress.steps_of_next moves with
    | claimApproved | claimAbandoned | claimCredit => exact current
  | absorbs uuid now update fresh pair =>
    cases Progress.steps_of_next moves with
    | absorb progress snapshot => cases progress <;> exact current
  | records msg attempt entryId eventId now attempted own =>
    subst own
    have held : msg ∈ before.processor.held := by simp [OutboxProcessor.held, attempted]
    obtain ⟨delivering, _⟩ := coherent.of_held held shown
    -- The type of the message is the one the progress has in flight.
    cases attempt with
    | acked ack =>
      cases Progress.steps_of_next moves with
      | commit | overtake | refund =>
        cases current
        have type := Option.some.inj delivering
        simp [requested, attempted, ← type, nextState, transitions, Progress.status]
    | refused message =>
      cases Progress.steps_of_next moves with
      | fail | refuseAbandoned | refuseCredit =>
        cases current
        have type := Option.some.inj delivering
        simp [requested, attempted, ← type, nextState, transitions, Progress.status]
    | errored message =>
      cases Progress.steps_of_next moves with
      | postponeApproved | postponeAbandoned | postponeCredit =>
        cases current
        simp [requested, attempted, Progress.status]

/-- A step takes a stored request to the state that the action it takes leads to. -/
theorem status_of_step (coherent : before.Coherent) (taken : before.step action = some after)
    {request : TimeOffRequest} (found : before.store.requests.find id = some request) :
    ∃ moved, after.store.requests.find id = some moved ∧
      (before.drives id action).toList.foldlM nextState request.status = some moved.status := by
  obtain ⟨progress, shown⟩ := coherent.shown id
  obtain ⟨target, next, reached⟩ := step_shows coherent taken id shown
  obtain ⟨moved, foundAfter, _⟩ := step_terms coherent taken found
  have current := shown.status_eq found
  have status : target.status =
      some (((before.requested id action).bind (nextState request.status)).getD
        request.status) := by
    cases heard : before.event id action with
    | none =>
      rw [heard] at next
      cases next
      rw [requested_eq_none heard]
      exact current
    | some event =>
      rw [heard] at next
      exact status_of_cause coherent shown current (event_cause heard) next
  refine ⟨moved, foundAfter, ?_⟩
  rw [reached.status_eq foundAfter, Option.some.injEq] at status
  rw [status, drives, found, Option.bind_some]
  -- What the table does not allow is not taken, and leaves the state as it is.
  cases requested : before.requested id action with
  | none => rfl
  | some asked =>
    cases leads : nextState request.status asked with
    | none =>
      have illegal : canTransition request.status asked = false := congrArg Option.isSome leads
      simp [Option.filter_some, illegal, leads]
    | some following =>
      have legal : canTransition request.status asked = true := congrArg Option.isSome leads
      simp [Option.filter_some, legal, leads]

/-- A request that a step creates is a draft. -/
theorem draft_of_step (coherent : before.Coherent) (taken : before.step action = some after)
    (absent : before.store.requests.find id = none) {request : TimeOffRequest}
    (found : after.store.requests.find id = some request) : request.status = .draft := by
  -- A request that is not stored is shown as unknown, and only its creation moves that.
  obtain ⟨progress, shown⟩ := coherent.shown id
  obtain ⟨target, next, reached⟩ := step_shows coherent taken id shown
  have status := reached.status_eq found
  obtain rfl := Store.unknown_of_absent shown absent
  cases heard : before.event id action with
  | none =>
    rw [heard] at next
    cases next
    cases status
  | some event =>
    rw [heard] at next
    cases Progress.steps_of_next next with
    | create => exact (Option.some.inj status).symm
    | absorb => cases status

/-- The actions that a run takes for one request, in their order. -/
def driven (taken : List (Service × ServiceAction)) (id : String) : List RequestAction :=
  taken.filterMap fun made => made.1.drives id made.2

/-- The states of one request that a run passes through, in their order. -/
def statuses (taken : List (Service × ServiceAction)) (final : Service) (id : String) :
    List RequestStatus :=
  (taken.map (·.1) ++ [final]).filterMap fun service =>
    (service.store.requests.find id).map (·.status)

/-- A state is the one before it, or one that is further along the table. -/
def Onwards (earlier later : RequestStatus) : Prop :=
  earlier = later ∨ earlier.rank < later.rank

/-- A step along the table goes further, and no step stays. -/
theorem onwards_of_foldlM {actions : List RequestAction} {source target : RequestStatus}
    (leads : actions.foldlM nextState source = some target) : Onwards source target := by
  -- No action leaves the state, and at least one leads further.
  cases actions with
  | nil => exact Or.inl (Option.some.inj leads)
  | cons action rest =>
    have further := rank_of_foldlM leads
    rw [List.length_cons] at further
    exact Or.inr (by omega)

/-- Further along than what is further along is further along. -/
theorem Onwards.trans {first second third : RequestStatus} (earlier : Onwards first second)
    (later : Onwards second third) : Onwards first third := by
  -- Nothing is gained by a move that stays where it is.
  rcases earlier with rfl | left
  · exact later
  · rcases later with rfl | right
    · exact Or.inr left
    · exact Or.inr (left.trans right)

/-- What a run says about one request: where its actions lead, and the states it passed through. -/
structure Followed (taken : List (Service × ServiceAction)) (final : Service) (id : String) :
    Prop where
  absent : final.store.requests.find id = none →
    driven taken id = [] ∧ statuses taken final id = []
  walked : ∀ request, final.store.requests.find id = some request →
    (driven taken id).foldlM nextState .draft = some request.status ∧
      ∀ status ∈ statuses taken final id, Onwards status request.status
  onwards : (statuses taken final id).Pairwise Onwards

variable {taken : List (Service × ServiceAction)} {final : Service}

/-- The last step of a run adds the action it takes and the state it leads to. -/
theorem driven_concat (taken : List (Service × ServiceAction)) (before : Service)
    (action : ServiceAction) (id : String) :
    driven (taken ++ [(before, action)]) id =
      driven taken id ++ (before.drives id action).toList := by
  rw [driven, List.filterMap_append, ← driven]
  cases drives : before.drives id action with
  | none => simp [drives]
  | some driven => simp [drives]

/-- The last step of a run adds the state it leads to. -/
theorem statuses_concat (taken : List (Service × ServiceAction)) (before after : Service)
    (action : ServiceAction) (id : String) :
    statuses (taken ++ [(before, action)]) after id =
      statuses taken before id ++
        ((after.store.requests.find id).map (·.status)).toList := by
  rw [statuses, List.map_append, List.filterMap_append, statuses]
  congr 1

/-- A step of a run follows the table for every request. -/
theorem Followed.step (followed : Followed taken before id) (coherent : before.Coherent)
    (moved : before.step action = some after) :
    Followed (taken ++ [(before, action)]) after id := by
  cases found : before.store.requests.find id with
  | none =>
    obtain ⟨undriven, unseen⟩ := followed.absent found
    have idle : before.drives id action = none := by rw [drives, found, Option.bind_none]
    have actions : driven (taken ++ [(before, action)]) id = [] := by
      rw [driven_concat, undriven, idle]
      rfl
    have states : statuses (taken ++ [(before, action)]) after id =
        ((after.store.requests.find id).map (·.status)).toList := by
      rw [statuses_concat, unseen, List.nil_append]
    refine ⟨fun absent => ⟨actions, ?_⟩, fun request created => ?_, ?_⟩
    · rw [states, absent]
      rfl
    · -- The request is new, and no action was taken for it yet.
      have draft := draft_of_step coherent moved found created
      rw [actions, states, created, draft]
      refine ⟨rfl, fun status listed => ?_⟩
      rw [Option.map_some, Option.toList_some, List.mem_singleton, draft] at listed
      exact Or.inl listed
    · rw [states]
      cases after.store.requests.find id with
      | none => exact .nil
      | some request => exact List.pairwise_singleton _ _
  | some request =>
    obtain ⟨walked, passed⟩ := followed.walked request found
    obtain ⟨following, foundAfter, leads⟩ := status_of_step coherent moved found
    have onwards := onwards_of_foldlM leads
    have states : statuses (taken ++ [(before, action)]) after id =
        statuses taken before id ++ [following.status] := by
      rw [statuses_concat, foundAfter]
      rfl
    refine ⟨fun absent => ?_, fun other again => ?_, ?_⟩
    · cases foundAfter.symm.trans absent
    · cases foundAfter.symm.trans again
      rw [driven_concat, List.foldlM_append, walked, states]
      refine ⟨leads, fun status listed => ?_⟩
      rcases List.mem_append.mp listed with earlier | last
      · exact (passed status earlier).trans onwards
      · exact Or.inl (List.mem_singleton.mp last)
    · rw [states, List.pairwise_append]
      refine ⟨followed.onwards, List.pairwise_singleton _ _, fun status earlier last listed => ?_⟩
      rw [List.mem_singleton.mp listed]
      exact (passed status earlier).trans onwards

/-- Every run follows the table for every request. -/
theorem followed_of_trace (trace : Trace taken final) (id : String) : Followed taken final id := by
  -- The induction adds one step to what the earlier ones have followed.
  induction trace with
  | start => exact ⟨fun _ => ⟨rfl, rfl⟩, fun _ found => (nomatch found), .nil⟩
  | @step shorter before after action earlier moved followed =>
    have reached : Reachable before := Trace.reachable earlier (Or.inl rfl)
    exact followed.step reached.coherent moved

/--
In every run a request is where the table leads from a draft along the actions that were taken for
it, of which there are at most five, and a state that it has left never comes back.

An approval, a rejection or a cancellation is such an action, and so is a recorded answer to a
delivery. An answer that the table does not allow any more is passed by.
-/
theorem status_history (trace : Trace taken final) (id : String) :
    (∀ request, final.store.requests.find id = some request →
      (driven taken id).foldlM nextState .draft = some request.status) ∧
      (driven taken id).length ≤ 5 ∧ (statuses taken final id).Pairwise Onwards := by
  -- Each action leads one rank further, of which there are five.
  have followed := followed_of_trace trace id
  refine ⟨fun request found => (followed.walked request found).1, ?_, followed.onwards⟩
  cases found : final.store.requests.find id with
  | none => simp [(followed.absent found).1]
  | some request =>
    have further := rank_of_foldlM (followed.walked request found).1
    have most := request.status.rank_le
    omega

/-- A request is cancelled while its debit is being delivered, and the answer is recorded late. -/
def overtakenRun : List ServiceAction :=
  [.insertBalance "e" "l" ⟨"e", "l", 10, 1, 0⟩,
    .operate (.create "r" ⟨"e", "l", "2025-01-06", "2025-01-08", 3, none, true⟩ none),
    .operate (.submit "r" "hold"), .operate (.approve "r" "debit" 0), .operate (.drain 0),
    .answer (.ok ⟨"hcm-1", 7, 2, true, false⟩), .operate (.cancel "r" "credit" 1),
    .operate (.record "commit" "drift" 2)]

/-- At the end of that run the request is cancelled, as the table says of its actions. -/
theorem status_history_overtaken : ∃ taken final, Trace taken final ∧
    taken.map Prod.snd = overtakenRun ∧
      (driven taken "r").foldlM nextState .draft = some .cancelled ∧
      (driven taken "r").length ≤ 5 ∧ (statuses taken final "r").Pairwise Onwards := by
  have executed : (run overtakenRun).map (fun service =>
      (service.store.requests.find "r").map (·.status)) = some (some .cancelled) := by
    decide +kernel
  obtain ⟨final, ended, status⟩ := Option.map_eq_some_iff.mp executed
  obtain ⟨request, found, cancelled⟩ := Option.map_eq_some_iff.mp status
  obtain ⟨taken, trace, same, _⟩ := Runs.trace_of_run .start ended
  obtain ⟨walked, few, onwards⟩ := status_history trace "r"
  exact ⟨taken, final, trace, same, cancelled ▸ walked request found, few, onwards⟩

end Service

namespace Store

variable {store after : Store} {id uuid : String} {request : TimeOffRequest}

/-- Saving another request leaves this one as it is. -/
theorem find_saveRequest_other (other : TimeOffRequest) (different : other.id ≠ id) :
    (store.saveRequest other).requests.find id = store.requests.find id :=
  (Table.find_save store.requests other.saved id).trans (if_neg different)

/-- An answer that is recorded does not move a request whose state accepts nothing. -/
theorem find_advance (store : Store) (found : store.requests.find id = some request)
    (closed : isTerminal request.status = true) {other : TimeOffRequest}
    (stored : store.requests.find other.id = some other) (action : RequestAction)
    (ref : Option String) : (store.advance other action ref).requests.find id = some request := by
  -- The request itself is not moved by the table, and others are other rows.
  by_cases own : other.id = id
  · subst own
    cases found.symm.trans stored
    rw [advance, (isTerminal_iff _).mp closed action]
    exact found
  · unfold advance
    split
    · rename_i target _
      exact (find_saveRequest_other { other with status := target, hcmRef := ref } own).trans found
    · exact found

/-- Recording an attempt keeps the row of a request whose state accepts nothing. -/
theorem find_recordAttempt_terminal (found : store.requests.find id = some request)
    (closed : isTerminal request.status = true) (msg : OutboxMessage) (attempt : Attempt)
    (entryId eventId : String) (now : Time) :
    (store.recordAttempt msg attempt entryId eventId now).requests.find id = some request := by
  -- Whatever is recorded, the requests are written by an advance only.
  cases attempt with
  | acked ack =>
    simp only [recordAttempt, applySuccess]
    cases stored : store.requests.find msg.requestId with
    | none => exact found
    | some other =>
      have named := Table.key_of_find stored
      cases msg.type with
      | debit =>
        have kept := find_advance (store.commitReservation entryId other.id other.employeeId
          other.locationId msg.payload.amount (some ack.version)) found closed (named ▸ stored)
          .hcmCommitted (some ack.hcmRef)
        dsimp only
        split
        · exact kept
        · exact kept
      | credit =>
        exact find_advance (store.releaseCommit other.id) found closed (named ▸ stored)
          .hcmCreditDone other.hcmRef
  | refused message =>
    simp only [recordAttempt, applyRejection]
    split
    · rename_i other stored _
      have named := Table.key_of_find stored
      exact find_advance (store.releaseReservation other.id) found closed (named ▸ stored)
        .hcmRejected other.hcmRef
    · exact found
  | errored message =>
    simp only [recordAttempt, markRetryOrDead]
    split
    · exact found
    · exact found

/-- Where the state accepts nothing, every transaction on the request throws. -/
theorem requestFor_terminal (found : store.requests.find id = some request)
    (closed : isTerminal request.status = true) (action : RequestAction) :
    store.requestFor id action = .error (.illegalTransition request.status action) := by
  have illegal : canTransition request.status action = false :=
    congrArg Option.isSome ((isTerminal_iff _).mp closed action)
  simp [requestFor, found, illegal]

/-- Every transaction on a request throws that its action is illegal from the state. -/
structure TurnsAway (store : Store) (id : String) (status : RequestStatus) : Prop where
  lookup : ∀ action, store.requestFor id action = .error (.illegalTransition status action)
  submit : ∀ uuid, store.submit id uuid = .error (.illegalTransition status .submit)
  approve : ∀ uuid now, store.approve id uuid now = .error (.illegalTransition status .approve)
  reject : store.reject id = .error (.illegalTransition status .reject)
  cancel : ∀ uuid now, store.cancel id uuid now = .error (.illegalTransition status .cancel)

/-- Where the state accepts nothing, the four transactions end at the lookup of their request. -/
theorem turnsAway_of_terminal (found : store.requests.find id = some request)
    (closed : isTerminal request.status = true) : store.TurnsAway id request.status := by
  -- Each transaction begins with the lookup, whose error it passes on.
  have refused := requestFor_terminal found closed
  constructor
  · exact refused
  · intro uuid
    rw [Store.submit, refused]
    rfl
  · intro uuid now
    rw [Store.approve, refused]
    rfl
  · rw [Store.reject, refused]
    rfl
  · intro uuid now
    rw [Store.cancel, refused]
    rfl

end Store

namespace Service

variable {before after : Service} {action : ServiceAction} {id : String}
  {request : TimeOffRequest}

/-- No step rewrites a request whose state accepts nothing. -/
theorem kept_of_terminal (taken : before.step action = some after)
    (found : before.store.requests.find id = some request)
    (closed : isTerminal request.status = true) :
    after.store.requests.find id = some request := by
  -- A transaction on the request itself would have been refused.
  have other {subject : String} {stored : TimeOffRequest}
      (known : before.store.requests.find subject = some stored)
      (open_ : isTerminal stored.status = false) : stored.id ≠ id := by
    intro own
    have named := Table.key_of_find known
    obtain rfl : subject = id := named.symm.trans own
    cases known.symm.trans found
    cases open_.symm.trans closed
  cases step_move taken with
  | creates uuid _ _ _ _ fresh created =>
    rcases Store.create_ok created with ⟨_, rfl⟩ | ⟨_, _, _, named, _, rfl⟩
    · exact found
    · refine (Store.find_saveRequest_other _ ?_).trans found
      rw [named]
      rintro rfl
      cases fresh.symm.trans found
  | submits _ _ _ _ _ _ _ _ submitted =>
    obtain ⟨stored, known, status, _, _, rfl⟩ := Store.submit_ok submitted
    have different := other known (by rw [status]; rfl)
    exact (Store.find_saveRequest_other (stored.moved .submit) different).trans found
  | approves _ _ _ _ _ _ approved =>
    obtain ⟨stored, known, status, rfl⟩ := Store.approve_ok approved
    have different := other known (by rw [status]; rfl)
    exact (Store.find_saveRequest_other (stored.moved .approve) different).trans found
  | rejects _ _ _ rejected =>
    obtain ⟨stored, known, status, rfl⟩ := Store.reject_ok rejected
    have different := other known (by rw [status]; rfl)
    exact (Store.find_saveRequest_other (stored.moved .reject) different).trans found
  | cancels _ _ _ _ _ _ cancelled =>
    obtain ⟨stored, known, ways⟩ := Store.cancel_ok cancelled
    have different : stored.id ≠ id := by
      refine other known ?_
      rcases ways with ⟨status, _⟩ | ⟨status, _⟩ | ⟨draft | pending, _⟩
      · rw [status]; rfl
      · rw [status]; rfl
      · rw [draft]; rfl
      · rw [pending]; rfl
    rcases ways with ⟨_, rfl⟩ | ⟨_, rfl⟩ | ⟨_, rfl⟩
    · exact (Store.find_saveRequest_other (stored.moved .cancel) different).trans found
    · exact (Store.find_saveRequest_other (stored.moved .cancel) different).trans found
    · exact (Store.find_saveRequest_other (stored.moved .cancel) different).trans found
  | records msg attempt entryId eventId now _ _ _ =>
    exact Store.find_recordAttempt_terminal found closed msg attempt entryId eventId now
  | reconciles uuid now update _ =>
    rcases Int.lt_or_le (before.store.watermark update.pair) update.version with fresh | stale
    · obtain ⟨_, _, absorbs⟩ := before.store.reconcileKey_fresh uuid now fresh
      exact absorbs.requests ▸ found
    · obtain ⟨_, same⟩ := before.store.reconcileKey_stale uuid now stale
      exact same.symm ▸ found
  | _ => exact found

/--
A request in a terminal state holds nothing in reserve, every transaction on it throws, and whatever
the service does from there on, its row stays as it is.
-/
theorem terminal_rests (reached : Service.Reachable before)
    (found : before.store.requests.find id = some request)
    (closed : isTerminal request.status = true) :
    before.store.activeHolds id = [] ∧
      before.store.TurnsAway id request.status ∧
      ∀ after, Runs.Reachable step (fun _ _ => True) before after →
        after.store.requests.find id = some request := by
  refine ⟨?_, Store.turnsAway_of_terminal found closed, fun after onwards => ?_⟩
  · -- The ledger holds days for requests that are pending or approved only.
    obtain rfl := Table.key_of_find found
    obtain ⟨progress, shown⟩ := reached.coherent.shown request.id
    refine (Store.ledgerMatches_of_shows found shown).free ?_
    rintro (pending | approved)
    · rw [pending] at closed
      cases closed
    · rw [approved] at closed
      cases closed
  · -- No step rewrites its row.
    induction onwards with
    | start => exact found
    | step _ _ taken kept => exact kept_of_terminal taken kept closed

/-- The cancelled request of that run stays as it is, whatever answers are recorded later. -/
theorem terminal_rests_overtaken : ∃ before after request,
    Service.Reachable before ∧ request.status = .cancelled ∧
      Runs.run step (fun _ _ => true) before [.operate (.record "commit" "drift" 2)] = some after ∧
      before.store.requests.find "r" = some request ∧
      after.store.requests.find "r" = some request := by
  -- The run is executed up to the cancellation, and then records the late answer.
  have executed : (run (overtakenRun.take 7)).map (fun service =>
      decide ((service.store.requests.find "r").map (·.status) = some .cancelled) &&
        (Runs.run step (fun _ _ => true) service
          [.operate (.record "commit" "drift" 2)]).isSome) = some true := by decide +kernel
  obtain ⟨before, reached, ended⟩ := exists_reachable_of_run executed
  rw [Bool.and_eq_true, decide_eq_true_eq] at ended
  obtain ⟨request, found, cancelled⟩ := Option.map_eq_some_iff.mp ended.1
  obtain ⟨after, recorded⟩ := Option.isSome_iff_exists.mp ended.2
  have closed : isTerminal request.status = true := by
    rw [cancelled]
    decide
  obtain ⟨_, _, kept⟩ := terminal_rests reached found closed
  exact ⟨before, after, request, reached, cancelled, recorded, found,
    kept after (Runs.reachable_of_run (fun _ _ _ => trivial) .start recorded)⟩

end Service

end TimeOff
