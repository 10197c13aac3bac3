import TimeOff.Lifecycle.Progress

/-! Each transaction of the lifecycle moves the request it is about, and no other. -/

namespace TimeOff

namespace Progress

variable {progress : Progress}

theorem eq_unknown (absent : progress.status = none) : progress = .unknown := by
  cases progress <;> simp_all [status]

theorem eq_draft (draft : progress.status = some .draft) : progress = .draft := by
  cases progress <;> simp_all [status]

theorem eq_held (pending : progress.status = some .pendingApproval) : progress = .held := by
  cases progress <;> simp_all [status]

theorem eq_approved (approved : progress.status = some .approved) :
    ∃ debit, progress = .approved debit := by
  cases progress <;> simp_all [status]

theorem eq_committed (committed : progress.status = some .committed) :
    ∃ version absorbed, progress = .committed version absorbed := by
  cases progress <;> simp_all [status]

end Progress

/-- Requests with the same terms are for the same pair. -/
theorem TimeOffRequest.pair_of_terms {left right : TimeOffRequest}
    (same : left.terms = right.terms) : left.pair = right.pair :=
  congrArg (fun terms : Terms => (terms.employeeId, terms.locationId)) same

@[simp] theorem TimeOffRequest.moved_terms (request : TimeOffRequest) (action : RequestAction) :
    (request.moved action).terms = request.terms := rfl

/-- A request that takes a legal transition has its target status. -/
theorem TimeOffRequest.moved_status {request : TimeOffRequest} {action : RequestAction}
    {source target : RequestStatus} (current : request.status = source)
    (legal : nextState source action = some target) : (request.moved action).status = target := by
  simp [moved, current, legal]

/-- The hold that a submit places. -/
def TimeOffRequest.hold (request : TimeOffRequest) (uuid : String) : BalanceLedgerEntry :=
  { id := uuid, requestId := some request.id, employeeId := request.employeeId
    locationId := request.locationId, amount := request.days
    phase := .reserve, state := .active, hcmVersion := none }

theorem TimeOffRequest.hold_ownedBy {request : TimeOffRequest} (positive : 0 < request.days)
    (uuid : String) : (request.hold uuid).OwnedBy request.terms :=
  ⟨rfl, rfl, rfl, positive⟩

/-- What is enqueued to propagate a request. -/
def TimeOffRequest.propagate (request : TimeOffRequest) (type : OutboxType) : EnqueueInput :=
  { requestId := request.id, type := type, idempotencyKey := type.key request.id
    payload := ⟨request.employeeId, request.locationId, request.days⟩ }

/-- An entry as the release of one phase leaves it. -/
def BalanceLedgerEntry.releasedIn (phase : LedgerPhase) (entry : BalanceLedgerEntry) :
    BalanceLedgerEntry :=
  if entry.phase = phase ∧ entry.state = .active then { entry with state := .released } else entry

/-- What the release of one phase does to the view of an entry. -/
def releasedView (phase : LedgerPhase) :
    LedgerPhase × LedgerState × Option Int → LedgerPhase × LedgerState × Option Int
  | (other, state, version) =>
    (other, if other = phase ∧ state = .active then .released else state, version)

theorem BalanceLedgerEntry.view_releasedIn (phase : LedgerPhase) (entry : BalanceLedgerEntry) :
    (entry.releasedIn phase).view = releasedView phase entry.view := by
  unfold releasedIn releasedView view
  split <;> simp_all

theorem BalanceLedgerEntry.OwnedBy.releasedIn {entry : BalanceLedgerEntry} {terms : Terms}
    (own : entry.OwnedBy terms) (phase : LedgerPhase) :
    (entry.releasedIn phase).OwnedBy terms := by
  -- Ownership does not look at the state.
  unfold BalanceLedgerEntry.releasedIn
  split
  · exact ⟨own.owner, own.pair, own.amount, own.positive⟩
  · exact own

/-- Releasing a phase rewrites the entries of one request. -/
theorem Store.dossier_releaseActive (store : Store) (phase : LedgerPhase) (id : String) :
    (store.releaseActive phase id).dossier id =
      (store.dossier id).mapEntries (·.releasedIn phase) := by
  -- The statement is an update of ledger rows that leaves the owner column alone.
  unfold releaseActive
  rw [dossier_updateLedger]
  · unfold Dossier.mapEntries
    congr 1
    apply List.map_congr_left
    intro entry member
    -- Inside the dossier, the owner condition of the statement holds by itself.
    have named := (mem_entriesOf.mp member).2
    simp [named, BalanceLedgerEntry.releasedIn]
  · exact fun _ => rfl

theorem Store.actsOn_releaseActive (store : Store) (phase : LedgerPhase) (id : String) :
    ActsOn id store (store.releaseActive phase id) := by
  -- The statement selects by the owner column, among others.
  apply actsOn_updateLedger
  intro entry matched
  simp only [Bool.decide_and, Bool.and_eq_true, decide_eq_true_eq] at matched
  exact matched.1

/-- The entries of a dossier after a release, seen through their progress. -/
theorem Dossier.Reads.entries_released {dossier : Dossier} {status : Option RequestStatus}
    {entries : List (LedgerPhase × LedgerState × Option Int)}
    {messages : List (OutboxType × OutboxStatus)} (reads : dossier.Reads status entries messages)
    (phase : LedgerPhase) :
    (dossier.mapEntries (·.releasedIn phase)).entries.map (·.view) =
      entries.map (releasedView phase) := by
  -- Each entry is seen through its own release.
  rw [← reads.entries]
  simp only [Dossier.mapEntries, List.map_map]
  apply List.map_congr_left
  intro entry _
  exact entry.view_releasedIn phase

/-- A message as a cancellation before its delivery leaves it. -/
def OutboxMessage.stopped (msg : OutboxMessage) : OutboxMessage :=
  if msg.status = .pending ∨ msg.status = .failed then
    { msg with
      status := .dead
      lastError := some "cancelled: request cancelled before delivery" }
  else msg

theorem OutboxMessage.OwnedBy.stopped {msg : OutboxMessage} {terms : Terms}
    (own : msg.OwnedBy terms) : msg.stopped.OwnedBy terms := by
  -- Ownership does not look at the status or the last error.
  unfold OutboxMessage.stopped
  split
  · exact ⟨own.owner, own.key, own.payload, own.positive⟩
  · exact own

/-- Stopping an undelivered message follows the abstract stop. -/
theorem OutboxMessage.view_stopped {msg : OutboxMessage} {type : OutboxType}
    {debit : Undelivered} (seen : msg.view = (type, debit.status)) :
    msg.stopped.view = (type, debit.stop.status) := by
  -- The abstract stop spares exactly the message in flight, as the statement does.
  obtain ⟨typed, status⟩ := Prod.mk.inj seen
  unfold stopped view
  cases debit <;> simp_all [Undelivered.status, Undelivered.stop]

namespace Store

/-- Cancelling the pending messages of a request rewrites its own messages. -/
theorem dossier_cancelPending (store : Store) (id : String) :
    (store.cancelPendingForRequest id).dossier id =
      (store.dossier id).mapMessages (·.stopped) := by
  -- Inside the dossier, the owner condition of the statement holds by itself.
  unfold cancelPendingForRequest
  rw [dossier_updateOutbox]
  · unfold Dossier.mapMessages
    congr 1
    apply List.map_congr_left
    intro msg member
    have named := (mem_messagesOf.mp member).2
    simp [named, OutboxMessage.stopped]
  · exact fun _ => rfl

theorem actsOn_cancelPending (store : Store) (id : String) :
    ActsOn id store (store.cancelPendingForRequest id) := by
  -- The statement selects the messages of the request only.
  apply actsOn_updateOutbox
  · exact fun _ => rfl
  · intro msg _ matched
    simp only [Bool.decide_and, Bool.and_eq_true, decide_eq_true_eq] at matched
    exact matched.1

section Moves

variable {store after : Store} {id uuid : String} {now : Time} {result : TimeOffRequest}
  {progress : Progress}

/-- A stored request is found in its own dossier, whose contents it owns. -/
theorem owned_of_find (shown : (store.dossier id).Shows progress)
    {request : TimeOffRequest} (found : store.requests.find id = some request) :
    progress.status = some request.status ∧ (store.dossier id).OwnedBy request.terms :=
  ⟨shown.status_eq found, shown.owned request found⟩

/-- The dossier of a request that is not stored shows nothing. -/
theorem unknown_of_absent (shown : (store.dossier id).Shows progress)
    (absent : store.requests.find id = none) : progress = .unknown := by
  apply Progress.eq_unknown
  rw [← shown.status]
  simp [dossier, absent]

/-- A dossier that holds entries belongs to a request for a positive number of days. -/
theorem positive_of_entries (shown : (store.dossier id).Shows progress)
    {request : TimeOffRequest} (found : store.requests.find id = some request)
    (holding : progress.entries ≠ []) : 0 < request.days := by
  -- Any entry will do, because an owned entry carries the positive days of the request.
  cases entries : (store.dossier id).entries with
  | nil => exact absurd (by simp [← shown.entries, entries]) holding
  | cons entry rest =>
    exact ((shown.owned request found).entries entry (by simp [entries])).positive

/-- The saved request is the one its dossier holds. -/
theorem dossier_saveRequest_self (store : Store) (request : TimeOffRequest) :
    (store.saveRequest request).dossier request.id =
      (store.dossier request.id).withRequest request.saved := by
  rw [dossier_saveRequest, if_pos rfl]

/-- A dossier whose request was saved reads as its new contents. -/
theorem reads_withRequest {dossier : Dossier} {request : TimeOffRequest}
    {status : Option RequestStatus} {entries : List (LedgerPhase × LedgerState × Option Int)}
    {messages : List (OutboxType × OutboxStatus)} (current : some request.status = status)
    (listed : dossier.entries.map (·.view) = entries)
    (queued : dossier.messages.map (·.view) = messages)
    (owned : dossier.OwnedBy request.terms) :
    (dossier.withRequest request.saved).Reads status entries messages where
  status := current
  entries := listed
  messages := queued
  owned := by
    intro other same
    cases same
    exact owned.withRequest _

/-- Moving a request and enqueueing a message for it, in one transaction. -/
theorem enqueue_shows {request : TimeOffRequest} (uuid : String) (now : Time)
    (action : RequestAction) (type : OutboxType) (target : Progress)
    (found : store.requests.find request.id = some request)
    (fresh : store.outbox.find uuid = none) (positive : 0 < request.days)
    (shown : (store.dossier request.id).Shows progress)
    (status : some (request.moved action).status = target.status)
    (entries : progress.entries = target.entries)
    (messages : progress.messages ++ [(type, .pending)] = target.messages) :
    ActsOn request.id store
        ((store.saveRequest (request.moved action)).enqueue uuid now (request.propagate type)) ∧
      (((store.saveRequest (request.moved action)).enqueue uuid now
        (request.propagate type)).dossier request.id).Shows target := by
  -- The save touches the request only, and the message joins the ones that were there.
  obtain ⟨_, owned⟩ := owned_of_find shown found
  have saved : (store.saveRequest (request.moved action)).dossier request.id =
      (store.dossier request.id).withRequest (request.moved action).saved :=
    dossier_saveRequest_self store (request.moved action)
  have enqueued := dossier_enqueue_self (store.saveRequest (request.moved action)) uuid now
    (request.propagate type) fresh
  have named : (request.propagate type).requestId = request.id := rfl
  rw [named, saved] at enqueued
  constructor
  · exact (actsOn_saveChanged store found (request.moved_terms action)).trans
      (actsOn_enqueue _ uuid now (request.propagate type) fresh)
  · rw [enqueued]
    refine ⟨status, shown.entries.trans entries, ?_, ?_⟩
    · rw [← messages, ← shown.messages]
      simp [Dossier.withRequest, Dossier.addMessage, EnqueueInput.message,
        TimeOffRequest.propagate, OutboxMessage.view]
    · intro other same
      cases same
      exact (owned.withRequest _).addMessage ⟨rfl, rfl, rfl, positive⟩

/-- Releasing a phase and saving the moved request, in one transaction. -/
theorem release_shows {request : TimeOffRequest} (phase : LedgerPhase)
    (action : RequestAction) (target : Progress)
    (found : store.requests.find request.id = some request)
    (shown : (store.dossier request.id).Shows progress)
    (status : some (request.moved action).status = target.status)
    (entries : progress.entries.map (releasedView phase) = target.entries)
    (messages : progress.messages = target.messages) :
    ActsOn request.id store
        ((store.releaseActive phase request.id).saveRequest (request.moved action)) ∧
      (((store.releaseActive phase request.id).saveRequest (request.moved action)).dossier
        request.id).Shows target := by
  -- The release rewrites the entries, and the save puts the request next to them.
  obtain ⟨_, owned⟩ := owned_of_find shown found
  have saved := dossier_saveRequest_self (store.releaseActive phase request.id)
    (request.moved action)
  have named : (request.moved action).id = request.id := rfl
  rw [named, dossier_releaseActive] at saved
  constructor
  · exact (actsOn_releaseActive store phase request.id).trans
      (actsOn_saveChanged _ found (request.moved_terms action))
  · rw [saved]
    exact reads_withRequest status ((shown.entries_released phase).trans entries)
      (shown.messages.trans messages) (owned.mapEntries fun _ own => own.releasedIn phase)

/-- Creating a request opens its dossier. -/
theorem create_shows {dto : CreateTimeOffRequestDto} {idempotencyKey : Option String}
    (created : store.create uuid dto idempotencyKey = .ok (result, after))
    (unseen : store.existingFor idempotencyKey = none) (fresh : store.requests.find uuid = none)
    (shown : (store.dossier uuid).Shows progress) :
    ActsOn uuid store after ∧ ∃ target, progress.next .created = some target ∧
      (after.dossier uuid).Shows target := by
  -- A new id has no dossier yet, so the draft is all there is to read.
  rcases create_ok created with ⟨seen, _⟩ | ⟨_, request, _, rfl, draft, rfl⟩
  · simp [unseen] at seen
  obtain rfl := unknown_of_absent shown fresh
  have noEntries := List.map_eq_nil_iff.mp shown.entries
  have noMessages := List.map_eq_nil_iff.mp shown.messages
  refine ⟨actsOn_saveRequest store request (by simp [fresh]), .draft, rfl, ?_⟩
  rw [dossier_saveRequest_self]
  refine reads_withRequest ?_ ?_ ?_ ?_
  · simp [draft, Progress.status]
  · exact shown.entries
  · exact shown.messages
  · exact ⟨by simp [noEntries], by simp [noMessages]⟩

/-- A submit places the hold of its request. -/
theorem submit_shows (submitted : store.submit id uuid = .ok (result, after))
    (fresh : store.ledger.find uuid = none) (shown : (store.dossier id).Shows progress) :
    ActsOn id store after ∧ ∃ target, progress.next .submitted = some target ∧
      (after.dossier id).Shows target := by
  -- A draft holds nothing, so the hold is the first entry of the dossier.
  obtain ⟨request, found, draft, positive, _, rfl⟩ := submit_ok submitted
  obtain rfl := Table.key_of_find found
  obtain ⟨status, owned⟩ := owned_of_find shown found
  obtain rfl := Progress.eq_draft (status.trans (congrArg some draft))
  have noEntries := List.map_eq_nil_iff.mp shown.entries
  have held : (store.addReservation uuid request.id request.employeeId request.locationId
      request.days).dossier request.id = (store.dossier request.id).addEntry (request.hold uuid) :=
    dossier_saveEntry_self store request.id (request.hold uuid) fresh rfl
  have saved := dossier_saveRequest_self (store.addReservation uuid request.id request.employeeId
    request.locationId request.days) (request.moved .submit)
  have named : (request.moved .submit).id = request.id := rfl
  -- The save comes after the hold was placed, so it sees the longer dossier.
  rw [named, held] at saved
  constructor
  · exact (actsOn_saveEntry store (request.hold uuid) fresh rfl).trans
      (actsOn_saveChanged _ found (request.moved_terms .submit))
  refine ⟨.held, rfl, ?_⟩
  rw [saved]
  refine reads_withRequest ?_ ?_ ?_ ?_
  · exact congrArg some (TimeOffRequest.moved_status draft rfl)
  · simp [Dossier.addEntry, noEntries, TimeOffRequest.hold, BalanceLedgerEntry.view,
      Progress.entries]
  · exact shown.messages
  · exact owned.addEntry (request.hold_ownedBy positive uuid)

/-- An approval enqueues the debit of its request. -/
theorem approve_shows (approved : store.approve id uuid now = .ok (result, after))
    (fresh : store.outbox.find uuid = none) (shown : (store.dossier id).Shows progress) :
    ActsOn id store after ∧ ∃ target, progress.next .approved = some target ∧
      (after.dossier id).Shows target := by
  -- The hold stays where it is, and the debit is the first message.
  obtain ⟨request, found, pending, rfl⟩ := approve_ok approved
  obtain rfl := Table.key_of_find found
  obtain rfl := Progress.eq_held ((shown.status_eq found).trans (congrArg some pending))
  have positive := positive_of_entries shown found (by simp [Progress.entries])
  have moved := enqueue_shows uuid now .approve .debit (.approved .pending) found fresh positive
    shown (congrArg some (TimeOffRequest.moved_status pending rfl)) rfl rfl
  exact ⟨moved.1, .approved .pending, rfl, moved.2⟩

/-- A rejection releases the hold of its request. -/
theorem reject_shows (rejected : store.reject id = .ok (result, after))
    (shown : (store.dossier id).Shows progress) :
    ActsOn id store after ∧ ∃ target, progress.next .rejected = some target ∧
      (after.dossier id).Shows target := by
  -- The hold is the only entry, and it is released.
  obtain ⟨request, found, pending, rfl⟩ := reject_ok rejected
  obtain rfl := Table.key_of_find found
  obtain rfl := Progress.eq_held ((shown.status_eq found).trans (congrArg some pending))
  have moved := release_shows .reserve .reject .rejected found shown
    (congrArg some (TimeOffRequest.moved_status pending rfl)) rfl rfl
  exact ⟨moved.1, .rejected, rfl, moved.2⟩

/-- A cancellation before the approval releases the hold, if there is one. -/
theorem cancel_early_shows {request : TimeOffRequest}
    (found : store.requests.find request.id = some request)
    (early : request.status = .draft ∨ request.status = .pendingApproval)
    (shown : (store.dossier request.id).Shows progress) :
    ActsOn request.id store
        ((store.releaseReservation request.id).saveRequest (request.moved .cancel)) ∧
      ∃ target, progress.next .cancelled = some target ∧
        (((store.releaseReservation request.id).saveRequest (request.moved .cancel)).dossier
          request.id).Shows target := by
  -- A draft has no hold to give back, a submitted request has one.
  rcases early with draft | pending
  · obtain rfl := Progress.eq_draft ((shown.status_eq found).trans (congrArg some draft))
    have moved := release_shows .reserve .cancel .withdrawn found shown
      (congrArg some (TimeOffRequest.moved_status draft rfl)) rfl rfl
    exact ⟨moved.1, .withdrawn, rfl, moved.2⟩
  · obtain rfl := Progress.eq_held ((shown.status_eq found).trans (congrArg some pending))
    have moved := release_shows .reserve .cancel .released found shown
      (congrArg some (TimeOffRequest.moved_status pending rfl)) rfl rfl
    exact ⟨moved.1, .released, rfl, moved.2⟩

/-- A cancellation after the approval also stops a debit that has not shipped. -/
theorem cancel_approved_shows {request : TimeOffRequest}
    (found : store.requests.find request.id = some request) (approved : request.status = .approved)
    (shown : (store.dossier request.id).Shows progress) :
    ActsOn request.id store (((store.releaseReservation request.id).cancelPendingForRequest
        request.id).saveRequest (request.moved .cancel)) ∧
      ∃ target, progress.next .cancelled = some target ∧
        ((((store.releaseReservation request.id).cancelPendingForRequest
          request.id).saveRequest (request.moved .cancel)).dossier request.id).Shows target := by
  -- The hold is released and the debit stopped, in whatever state it is.
  obtain ⟨status, owned⟩ := owned_of_find shown found
  obtain ⟨debit, rfl⟩ := Progress.eq_approved (status.trans (congrArg some approved))
  have saved := dossier_saveRequest_self
    ((store.releaseReservation request.id).cancelPendingForRequest request.id)
    (request.moved .cancel)
  have named : (request.moved .cancel).id = request.id := rfl
  have released := dossier_releaseActive store .reserve request.id
  rw [named, dossier_cancelPending, releaseReservation, released] at saved
  constructor
  · exact ((actsOn_releaseActive store .reserve request.id).trans
      (actsOn_cancelPending _ request.id)).trans
        (actsOn_saveChanged _ found (request.moved_terms .cancel))
  refine ⟨.abandoned debit.stop, rfl, ?_⟩
  rw [releaseReservation, saved]
  refine reads_withRequest ?_ ?_ ?_ ?_
  · exact congrArg some (TimeOffRequest.moved_status approved rfl)
  · exact shown.entries_released .reserve
  · -- The debit is the only message, and it is stopped as its status says.
    obtain ⟨msg, messages, seen⟩ := List.map_eq_singleton_iff.mp shown.messages
    simp [Dossier.mapMessages, Dossier.mapEntries, messages, Progress.messages,
      OutboxMessage.view_stopped seen]
  · exact (owned.mapEntries fun _ own => own.releasedIn .reserve).mapMessages
      fun _ own => own.stopped

/-- A cancellation moves its request along the branch its progress selects. -/
theorem cancel_shows (cancelled : store.cancel id uuid now = .ok (result, after))
    (fresh : store.outbox.find uuid = none) (shown : (store.dossier id).Shows progress) :
    ActsOn id store after ∧ ∃ target, progress.next .cancelled = some target ∧
      (after.dossier id).Shows target := by
  -- The status of the request selects the branch, and with it the target.
  obtain ⟨request, found, branch⟩ := cancel_ok cancelled
  obtain rfl := Table.key_of_find found
  rcases branch with ⟨committed, rfl⟩ | ⟨approved, rfl⟩ | ⟨early, rfl⟩
  · obtain ⟨version, absorbed, rfl⟩ :=
      Progress.eq_committed ((shown.status_eq found).trans (congrArg some committed))
    have positive := positive_of_entries shown found (by simp [Progress.entries])
    have moved := enqueue_shows uuid now .cancel .credit (.cancelling version absorbed .pending)
      found fresh positive shown
      (congrArg some (TimeOffRequest.moved_status committed rfl)) rfl rfl
    exact ⟨moved.1, .cancelling version absorbed .pending, rfl, moved.2⟩
  · exact cancel_approved_shows found approved shown
  · exact cancel_early_shows found early shown

end Moves

end Store

end TimeOff
