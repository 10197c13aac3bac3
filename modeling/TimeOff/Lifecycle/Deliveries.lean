import TimeOff.Lifecycle.Operations

/-! A claim and the record of an attempt move the request whose message they are about. -/

namespace TimeOff

/-- What settling the undelivered message does to the view of a message. -/
def settledView (status : OutboxStatus) :
    OutboxType × OutboxStatus → OutboxType × OutboxStatus
  | (type, current) => (type, if current = .done then .done else status)

namespace Dossier

/-- Rewriting the one undelivered message of a dossier, seen through its progress. -/
theorem Shows.messages_settled {dossier : Dossier} {progress : Progress}
    (shown : dossier.Shows progress) {msg : OutboxMessage} (member : msg ∈ dossier.messages)
    (undelivered : msg.status ≠ .done) (set : OutboxMessage → OutboxMessage)
    {status : OutboxStatus} (hit : (set msg).view = (msg.type, status))
    (miss : ∀ other ∈ dossier.messages, other ≠ msg → set other = other) :
    (dossier.mapMessages set).messages.map (·.view) =
      progress.messages.map (settledView status) := by
  rw [← shown.messages]
  simp only [mapMessages, List.map_map]
  apply List.map_congr_left
  intro other stored
  by_cases same : other = msg
  · subst same
    simpa [settledView, OutboxMessage.view, undelivered] using hit
  · -- Every other message of the dossier is delivered, so settling leaves its view alone.
    have delivered : other.status = .done := by
      by_contra openToo
      exact same (shown.eq_of_undelivered stored member openToo undelivered)
    simp [miss other stored same, settledView, OutboxMessage.view, delivered]

end Dossier

namespace OutboxMessage

@[simp] theorem claimed_id (msg : OutboxMessage) : msg.claimed.id = msg.id := rfl

@[simp] theorem claimedRow_id (msg : OutboxMessage) : msg.claimedRow.id = msg.id := rfl

@[simp] theorem claimedRow_status (msg : OutboxMessage) : msg.claimedRow.status = .inflight := rfl

@[simp] theorem claimedRow_type (msg : OutboxMessage) : msg.claimedRow.type = msg.type := rfl

@[simp] theorem claimedRow_requestId (msg : OutboxMessage) :
    msg.claimedRow.requestId = msg.requestId := rfl

theorem OwnedBy.claimedRow {msg : OutboxMessage} {terms : Terms} (own : msg.OwnedBy terms) :
    msg.claimedRow.OwnedBy terms :=
  ⟨own.owner, own.key, own.payload, own.positive⟩

/-- A due message is new or failed. -/
theorem open_of_due {msg : OutboxMessage} {now : Time} (due : msg.due now = true) :
    msg.status = .pending ∨ msg.status = .failed := by
  simp only [OutboxMessage.due, Bool.or_eq_true, Bool.and_eq_true, decide_eq_true_eq] at due
  exact due.imp_right And.left

end OutboxMessage

/-- What hearing of an attempt means for the request of the message. -/
def Attempt.event (msg : OutboxMessage) : Attempt → Event
  | .acked ack => .acknowledged ack.version
  | .refused _ => .refused
  | .errored _ => .postponed (decide (OutboxService.maxAttempts ≤ msg.attempts + 1))

namespace Progress

variable {progress : Progress}

/-- A claim moves a progress that lists an open message, and settles that message in flight. -/
theorem next_claimed {type : OutboxType} {status : OutboxStatus}
    (listed : (type, status) ∈ progress.messages)
    (claimable : status = .pending ∨ status = .failed) :
    ∃ target, progress.next .claimed = some target ∧ target.status = progress.status ∧
      target.entries = progress.entries ∧
      target.messages = progress.messages.map (settledView .inflight) := by
  -- Only three kinds of progress list a message that may be open.
  rcases claimable with rfl | rfl <;> cases progress with
  | approved debit =>
    cases debit <;> simp [messages, Undelivered.status] at listed
    exact ⟨.approved .inflight, rfl, rfl, rfl, rfl⟩
  | abandoned debit =>
    cases debit <;> simp [messages, Undelivered.status] at listed
    exact ⟨.abandoned .inflight, rfl, rfl, rfl, rfl⟩
  | cancelling version absorbed credit =>
    cases credit <;> simp [messages, Undelivered.status] at listed
    exact ⟨.cancelling version absorbed .inflight, rfl, rfl, rfl, rfl⟩
  | _ => simp [messages] at listed

/-- What is delivered tells how far a request has come, but for a debit given up meanwhile. -/
theorem delivering_cases {type : OutboxType} (delivering : progress.delivering = some type) :
    type = .debit ∧ (progress = .approved .inflight ∨ progress = .abandoned .inflight) ∨
      type = .credit ∧ ∃ version absorbed, progress = .cancelling version absorbed .inflight := by
  -- Three kinds of progress have a message in flight, two of them a debit.
  cases progress with
  | approved debit => cases debit <;> simp_all [Progress.delivering]
  | abandoned debit => cases debit <;> simp_all [Progress.delivering]
  | cancelling _ _ credit => cases credit <;> simp_all [Progress.delivering]
  | _ => simp [Progress.delivering] at delivering

/-- A debit is delivered for an approved request, or for one cancelled meanwhile. -/
theorem delivering_debit (delivering : progress.delivering = some .debit) :
    progress = .approved .inflight ∨ progress = .abandoned .inflight := by
  rcases delivering_cases delivering with ⟨_, debit⟩ | ⟨other, _⟩
  · exact debit
  · cases other

/-- A credit is delivered for a request whose cancellation is pending. -/
theorem delivering_credit (delivering : progress.delivering = some .credit) :
    ∃ version absorbed, progress = .cancelling version absorbed .inflight := by
  rcases delivering_cases delivering with ⟨other, _⟩ | ⟨_, credit⟩
  · cases other
  · exact credit

section Outcomes

variable {status : RequestStatus}

/-- An acknowledged debit turns the hold into a commit, also when the request is cancelled. -/
theorem next_debited (version : Int) (delivering : progress.delivering = some .debit)
    (current : progress.status = some status) :
    ∃ target, progress.next (.acknowledged version) = some target ∧
      some ((nextState status .hcmCommitted).getD status) = target.status ∧
      progress.entries.map (releasedView .reserve) ++ [(.commit, .active, some version)] =
        target.entries ∧
      progress.messages.map (settledView .done) = target.messages := by
  -- The cancelled request has no legal transition left, so its status stays.
  rcases delivering_debit delivering with rfl | rfl
  · cases current
    exact ⟨.committed version false, rfl, rfl, rfl, rfl⟩
  · cases current
    exact ⟨.overtaken version false, rfl, rfl, rfl, rfl⟩

/-- An acknowledged credit releases a commit that is still active. -/
theorem next_credited (version : Int) (delivering : progress.delivering = some .credit)
    (current : progress.status = some status) :
    ∃ target, progress.next (.acknowledged version) = some target ∧
      some ((nextState status .hcmCreditDone).getD status) = target.status ∧
      progress.entries.map (releasedView .commit) = target.entries ∧
      progress.messages.map (settledView .done) = target.messages := by
  -- A commit that a snapshot has absorbed is not active, so the release spares it.
  obtain ⟨debited, absorbed, rfl⟩ := delivering_credit delivering
  cases current
  cases absorbed
  · exact ⟨.refunded debited false, rfl, rfl, rfl, rfl⟩
  · exact ⟨.refunded debited true, rfl, rfl, rfl, rfl⟩

/-- A refused debit releases the hold and fails the request, unless it is cancelled. -/
theorem next_debitRefused (delivering : progress.delivering = some .debit)
    (current : progress.status = some status) :
    ∃ target, progress.next .refused = some target ∧
      some ((nextState status .hcmRejected).getD status) = target.status ∧
      progress.entries.map (releasedView .reserve) = target.entries ∧
      progress.messages.map (settledView .dead) = target.messages := by
  -- A debit in flight belongs to an approved request, or to one that was cancelled since.
  rcases delivering_debit delivering with rfl | rfl
  · cases current
    exact ⟨.failed, rfl, rfl, rfl, rfl⟩
  · cases current
    exact ⟨.abandoned .dead, rfl, rfl, rfl, rfl⟩

/-- A refused credit parks its message and leaves the request pending. -/
theorem next_creditRefused (delivering : progress.delivering = some .credit) :
    ∃ target, progress.next .refused = some target ∧ progress.status = target.status ∧
      progress.entries = target.entries ∧
      progress.messages.map (settledView .dead) = target.messages := by
  obtain ⟨version, absorbed, rfl⟩ := delivering_credit delivering
  exact ⟨.cancelling version absorbed .dead, rfl, rfl, rfl, rfl⟩

/-- A failed delivery leaves the request as it is and its message for a retry, or parked. -/
theorem next_postponed {type : OutboxType} (parked : Bool)
    (delivering : progress.delivering = some type) :
    ∃ target, progress.next (.postponed parked) = some target ∧
      progress.status = target.status ∧ progress.entries = target.entries ∧
      progress.messages.map (settledView (if parked then .dead else .failed)) =
        target.messages := by
  -- The message waits or is parked; the request does not hear of it.
  cases type with
  | debit =>
    rcases delivering_debit delivering with rfl | rfl <;> cases parked
    · exact ⟨.approved .failed, rfl, rfl, rfl, rfl⟩
    · exact ⟨.approved .dead, rfl, rfl, rfl, rfl⟩
    · exact ⟨.abandoned .failed, rfl, rfl, rfl, rfl⟩
    · exact ⟨.abandoned .dead, rfl, rfl, rfl, rfl⟩
  | credit =>
    obtain ⟨version, absorbed, rfl⟩ := delivering_credit delivering
    cases parked
    · exact ⟨.cancelling version absorbed .failed, rfl, rfl, rfl, rfl⟩
    · exact ⟨.cancelling version absorbed .dead, rfl, rfl, rfl, rfl⟩

end Outcomes

end Progress

namespace Store

/-- Rewriting one message rewrites every dossier in place. -/
theorem dossier_updateMessage (store : Store) (id : String) {target : String}
    {set : OutboxMessage → OutboxMessage} (keeps : ∀ msg, (set msg).id = msg.id)
    (owner : ∀ msg, (set msg).requestId = msg.requestId) :
    (store.updateMessage target set keeps).dossier id =
      (store.dossier id).mapMessages fun msg => if msg.id = target then set msg else msg := by
  simpa only [updateMessage, decide_eq_true_eq] using
    dossier_updateOutbox store id (fun msg => msg.id = target) set keeps owner

section Settling

variable {store middle : Store} {msg : OutboxMessage} {id : String} {progress target : Progress}

/-- A claimed message is in the dossier of its request. -/
theorem mem_dossier (belongs : msg.requestId = id) (held : msg.claimedRow ∈ store.outbox.rows) :
    msg.claimedRow ∈ (store.dossier id).messages :=
  mem_messagesOf.mpr ⟨held, belongs⟩

/-- The request of a claimed message is concerned with it. -/
theorem delivering_of_held (belongs : msg.requestId = id)
    (held : msg.claimedRow ∈ store.outbox.rows) (shown : (store.dossier id).Shows progress) :
    progress.delivering = some msg.type := by
  have delivering := shown.exists_delivering (mem_dossier belongs held) msg.claimedRow_status
  rwa [OutboxMessage.claimedRow_type] at delivering

/-- The request a claimed message belongs to is stored. -/
theorem exists_request_of_held (belongs : msg.requestId = id)
    (held : msg.claimedRow ∈ store.outbox.rows) (shown : (store.dossier id).Shows progress) :
    ∃ request, store.requests.find id = some request ∧ request.id = id ∧
      progress.status = some request.status ∧ (store.dossier id).OwnedBy request.terms := by
  have member := mem_dossier belongs held
  cases found : store.requests.find id with
  | none =>
    -- Without a request the dossier lists no message.
    obtain rfl := unknown_of_absent shown found
    have empty := List.map_eq_nil_iff.mp shown.messages
    rw [empty] at member
    cases member
  | some request =>
    exact ⟨request, rfl, Table.key_of_find found, shown.status_eq found, shown.owned request found⟩

/-- Settling the claimed message ends a transaction that recorded its outcome. -/
theorem settle_shows (set : OutboxMessage → OutboxMessage) {status : OutboxStatus}
    (keeps : ∀ msg, (set msg).id = msg.id) (belongs : msg.requestId = id)
    (held : msg.claimedRow ∈ store.outbox.rows) (shown : (store.dossier id).Shows progress)
    (acts : ActsOn id store middle) (outbox : middle.outbox = store.outbox)
    (reads : (middle.dossier id).Reads target.status target.entries progress.messages)
    (hit : (set msg.claimedRow).view = (msg.type, status))
    (owner : ∀ other, (set other).requestId = other.requestId)
    (own : ∀ other terms, other.OwnedBy terms → (set other).OwnedBy terms)
    (messages : progress.messages.map (settledView status) = target.messages) :
    ActsOn id store (middle.updateMessage msg.id set keeps) ∧
      ((middle.updateMessage msg.id set keeps).dossier id).Shows target := by
  -- The earlier statements left the outbox alone, so the claimed row is still there.
  have same : (middle.dossier id).messages = (store.dossier id).messages := by
    simp only [dossier, messagesOf, outbox]
  constructor
  · refine acts.trans (actsOn_updateOutbox _ _ _ keeps owner ?_)
    -- The id names the claimed row, so no message of another request is rewritten.
    intro other stored named
    rw [outbox] at stored
    have row := Table.eq_of_key_eq stored held (of_decide_eq_true named)
    rw [row]
    exact belongs
  · rw [dossier_updateMessage _ _ keeps owner]
    refine ⟨reads.status, reads.entries, ?_, ?_⟩
    · rw [← messages]
      have hitThere : (if msg.claimedRow.id = msg.id then set msg.claimedRow
          else msg.claimedRow).view = (msg.claimedRow.type, status) := by
        simpa using hit
      -- Any other row has another id, since the id is the primary key.
      have miss : ∀ other ∈ (store.dossier id).messages, other ≠ msg.claimedRow →
          (if other.id = msg.id then set other else other) = other := by
        intro other stored different
        rw [if_neg]
        intro named
        exact different (Table.eq_of_key_eq (mem_messagesOf.mp stored).1 held named)
      have settled := shown.messages_settled (mem_dossier belongs held) (by simp)
        (fun other => if other.id = msg.id then set other else other) hitThere miss
      simpa only [Dossier.mapMessages, same] using settled
    -- Settling changes columns that the ownership does not speak about.
    · intro request found
      apply (reads.owned request found).mapMessages
      intro other owned
      split
      · exact own other _ owned
      · exact owned

end Settling

section Recording

variable {store : Store} {msg : OutboxMessage} {id : String} {progress : Progress}

/-- Advancing a request changes its status column only, and only along a legal transition. -/
theorem advance_reads {request : TimeOffRequest} (action : RequestAction) (ref : Option String)
    {entries : List (LedgerPhase × LedgerState × Option Int)}
    {messages : List (OutboxType × OutboxStatus)}
    (reads : (store.dossier request.id).Reads (some request.status) entries messages)
    (found : store.requests.find request.id = some request) :
    ActsOn request.id store (store.advance request action ref) ∧
      (store.advance request action ref).outbox = store.outbox ∧
      ((store.advance request action ref).dossier request.id).Reads
        (some ((nextState request.status action).getD request.status)) entries messages := by
  cases legal : nextState request.status action with
  | none =>
    -- An illegal transition is skipped.
    unfold advance
    rw [legal]
    exact ⟨ActsOn.refl _ _, rfl, reads⟩
  | some target =>
    unfold advance
    rw [legal]
    refine ⟨actsOn_saveChanged store found rfl, rfl, ?_⟩
    have saved := dossier_saveRequest_self store { request with status := target, hcmRef := ref }
    rw [saved]
    exact reads_withRequest rfl reads.entries reads.messages (reads.owned request found)

/-- Drift is recorded as an audit event, outside of every dossier. -/
theorem actsOn_recordDrift (uuid : String) (request : TimeOffRequest)
    (reason : String) : ActsOn id store (store.recordDrift uuid request reason) :=
  actsOn_events store id _

/-- A released phase is read off the entries of its request, and nothing else changes. -/
theorem releaseActive_reads {request : TimeOffRequest} (phase : LedgerPhase)
    {entries : List (LedgerPhase × LedgerState × Option Int)}
    (shown : (store.dossier request.id).Shows progress)
    (status : progress.status = some request.status)
    (listed : progress.entries.map (releasedView phase) = entries) :
    ((store.releaseActive phase request.id).dossier request.id).Reads (some request.status)
      entries progress.messages := by
  -- Only the entries change, each in its state alone.
  rw [dossier_releaseActive]
  refine ⟨shown.status.trans status, (shown.entries_released phase).trans listed,
    shown.messages, ?_⟩
  intro other same
  exact (shown.owned other same).mapEntries fun _ own => own.releasedIn phase

/-- The commit that an acknowledged debit leaves behind. -/
def commitEntry (uuid id employeeId locationId : String) (amount : Int) (version : Option Int) :
    BalanceLedgerEntry :=
  { id := uuid, requestId := some id, employeeId, locationId, amount
    phase := .commit, state := .active, hcmVersion := version }

/-- A commit replaces the active hold of its request. -/
theorem commitReservation_reads {uuid : String} (id employeeId locationId : String)
    (amount : Int) (version : Option Int) (fresh : store.ledger.find uuid = none) :
    ActsOn id store
        (store.commitReservation uuid id employeeId locationId amount version) ∧
      (store.commitReservation uuid id employeeId locationId amount version).dossier id =
        ((store.dossier id).mapEntries (·.releasedIn .reserve)).addEntry
          (commitEntry uuid id employeeId locationId amount version) := by
  -- The hold is released in place, and the commit is written behind it.
  -- The release writes no new entry, so the new id is still free.
  have stillFresh : (store.releaseReservation id).ledger.find uuid = none := by
    simp [releaseReservation, releaseActive, Table.find_update, fresh]
  constructor
  · exact (actsOn_releaseActive store .reserve id).trans (actsOn_saveEntry _
      (commitEntry uuid id employeeId locationId amount version) stillFresh rfl)
  · have released := dossier_releaseActive store .reserve id
    rw [← released]
    exact dossier_saveEntry_self (store.releaseReservation id) id
      (commitEntry uuid id employeeId locationId amount version) stillFresh rfl

/-- Marking a message as delivered is the last statement of a recorded success. -/
theorem markDone_shows {middle : Store} {target : Progress} (belongs : msg.requestId = id)
    (held : msg.claimedRow ∈ store.outbox.rows) (shown : (store.dossier id).Shows progress)
    (acts : ActsOn id store middle) (outbox : middle.outbox = store.outbox)
    (reads : (middle.dossier id).Reads target.status target.entries progress.messages)
    (messages : progress.messages.map (settledView .done) = target.messages) :
    ActsOn id store (middle.markDone msg.id) ∧
      ((middle.markDone msg.id).dossier id).Shows target :=
  settle_shows (fun row => { row with status := .done, lastError := none }) (fun _ => rfl)
    belongs held shown acts outbox reads rfl (fun _ => rfl)
    (fun _ _ own => ⟨own.owner, own.key, own.payload, own.positive⟩) messages

/-- Parking a refused message is the last statement of a recorded refusal. -/
theorem markRejected_shows {middle : Store} {target : Progress} (error : String)
    (belongs : msg.requestId = id)
    (held : msg.claimedRow ∈ store.outbox.rows) (shown : (store.dossier id).Shows progress)
    (acts : ActsOn id store middle) (outbox : middle.outbox = store.outbox)
    (reads : (middle.dossier id).Reads target.status target.entries progress.messages)
    (messages : progress.messages.map (settledView .dead) = target.messages) :
    ActsOn id store (middle.markRejected msg.id error) ∧
      ((middle.markRejected msg.id error).dossier id).Shows target :=
  settle_shows (fun row => { row with status := .dead, lastError := some ("REJECTED: " ++ error) })
    (fun _ => rfl) belongs held shown acts outbox reads rfl (fun _ => rfl)
    (fun _ _ own => ⟨own.owner, own.key, own.payload, own.positive⟩) messages

/-- A transient failure reschedules the message or parks it, and touches nothing else. -/
theorem markRetryOrDead_shows (error : String) (now : Time) (belongs : msg.requestId = id)
    (held : msg.claimedRow ∈ store.outbox.rows) (shown : (store.dossier id).Shows progress) :
    ActsOn id store (store.markRetryOrDead msg error now) ∧
      ∃ target, progress.next
          (.postponed (decide (OutboxService.maxAttempts ≤ msg.attempts + 1))) = some target ∧
        ((store.markRetryOrDead msg error now).dossier id).Shows target := by
  -- The counter decides between the two outcomes, which touch the message only.
  obtain ⟨target, moves, status, entries, messages⟩ := Progress.next_postponed
    (decide (OutboxService.maxAttempts ≤ msg.attempts + 1)) (delivering_of_held belongs held shown)
  have reads : (store.dossier id).Reads target.status target.entries progress.messages := by
    rw [← status, ← entries]
    exact shown
  unfold markRetryOrDead
  dsimp only
  split
  · rename_i parked
    simp only [parked, decide_true, if_true] at messages
    have final := settle_shows (fun row =>
        { row with status := .dead, attempts := msg.attempts + 1, lastError := some error })
      (fun _ => rfl) belongs held shown (ActsOn.refl _ _) rfl reads rfl (fun _ => rfl)
      (fun _ _ own => ⟨own.owner, own.key, own.payload, own.positive⟩) messages
    exact ⟨final.1, target, moves, final.2⟩
  · rename_i retried
    simp only [retried, decide_false, Bool.false_eq_true, if_false] at messages
    have final := settle_shows (fun row =>
        { row with
          status := .failed, attempts := msg.attempts + 1, lastError := some error
          nextAttemptAt := some
            (now + OutboxService.baseBackoffMs * 2 ^ (msg.attempts + 1 - 1).toNat) })
      (fun _ => rfl) belongs held shown (ActsOn.refl _ _) rfl reads rfl (fun _ => rfl)
      (fun _ _ own => ⟨own.owner, own.key, own.payload, own.positive⟩) messages
    exact ⟨final.1, target, moves, final.2⟩

/-- Recording that a debit was applied commits the days, whatever the request became meanwhile. -/
theorem applyDebit_shows {entryId eventId ref : String} {version : Int} {applied : Bool}
    (debit : msg.type = .debit) (belongs : msg.requestId = id)
    (held : msg.claimedRow ∈ store.outbox.rows) (fresh : store.ledger.find entryId = none)
    (shown : (store.dossier id).Shows progress) :
    ActsOn id store (store.applySuccess msg ref version applied entryId eventId) ∧
      ∃ target, progress.next (.acknowledged version) = some target ∧
        ((store.applySuccess msg ref version applied entryId eventId).dossier id).Shows target := by
  obtain ⟨request, found, rfl, status, owned⟩ := exists_request_of_held belongs held shown
  -- The message carries the days of the request, so the commit does as well.
  have row := owned.messages _ (mem_dossier belongs held)
  have amount : msg.payload.amount = request.days := congrArg OutboxPayload.amount row.payload
  obtain ⟨target, moves, reached, listed, settled⟩ := Progress.next_debited version
    (debit ▸ delivering_of_held belongs held shown) status
  -- The hold is released and the commit is added, both in the dossier of the request.
  obtain ⟨committedActs, committed⟩ := commitReservation_reads request.id request.employeeId
    request.locationId msg.payload.amount (some version) fresh
  have committedReads : ((store.commitReservation entryId request.id request.employeeId
      request.locationId msg.payload.amount (some version)).dossier request.id).Reads
        (some request.status) target.entries progress.messages := by
    rw [committed]
    refine ⟨shown.status.trans status, ?_, shown.messages, ?_⟩
    · rw [← listed]
      simp only [Dossier.addEntry, List.map_append, shown.entries_released .reserve]
      rfl
    · intro other same
      cases found.symm.trans same
      exact (owned.mapEntries fun _ own => own.releasedIn .reserve).addEntry
        ⟨rfl, rfl, amount, row.positive⟩
  -- The status advances if the request is still approved, and stays otherwise.
  obtain ⟨advancedActs, outbox, advancedReads⟩ := advance_reads .hcmCommitted (some ref)
    committedReads found
  rw [reached] at advancedReads
  have acts := committedActs.trans advancedActs
  simp only [applySuccess, belongs, found, debit]
  split
  · have final := markDone_shows belongs held shown acts outbox advancedReads settled
    exact ⟨final.1, target, moves, final.2⟩
  · have final := markDone_shows belongs held shown (acts.trans (actsOn_recordDrift eventId request
      "HCM acknowledged debit without applying it (ghost success)")) outbox advancedReads settled
    exact ⟨final.1, target, moves, final.2⟩

/-- Recording that a credit was applied releases the commit and ends the cancellation. -/
theorem applyCredit_shows {entryId eventId ref : String} {version : Int} {applied : Bool}
    (credit : msg.type = .credit) (belongs : msg.requestId = id)
    (held : msg.claimedRow ∈ store.outbox.rows) (shown : (store.dossier id).Shows progress) :
    ActsOn id store (store.applySuccess msg ref version applied entryId eventId) ∧
      ∃ target, progress.next (.acknowledged version) = some target ∧
        ((store.applySuccess msg ref version applied entryId eventId).dossier id).Shows target := by
  -- The commit is released first, and the status follows when the transition is legal.
  obtain ⟨request, found, rfl, status, owned⟩ := exists_request_of_held belongs held shown
  obtain ⟨target, moves, reached, listed, settled⟩ := Progress.next_credited version
    (credit ▸ delivering_of_held belongs held shown) status
  obtain ⟨advancedActs, outbox, advancedReads⟩ := advance_reads .hcmCreditDone request.hcmRef
    (releaseActive_reads .commit shown status listed) found
  rw [reached] at advancedReads
  simp only [applySuccess, belongs, found, credit]
  have final := markDone_shows belongs held shown
    ((actsOn_releaseActive store .commit request.id).trans advancedActs) outbox advancedReads
    settled
  exact ⟨final.1, target, moves, final.2⟩

/-- Recording a refusal fails a debit's request, and leaves a credit's request pending. -/
theorem applyRejection_shows (reason : String) (belongs : msg.requestId = id)
    (held : msg.claimedRow ∈ store.outbox.rows) (shown : (store.dossier id).Shows progress) :
    ActsOn id store (store.applyRejection msg reason) ∧
      ∃ target, progress.next .refused = some target ∧
        ((store.applyRejection msg reason).dossier id).Shows target := by
  -- A refused debit gives the hold back; a refused credit leaves the request waiting.
  obtain ⟨request, found, rfl, status, owned⟩ := exists_request_of_held belongs held shown
  have delivering := delivering_of_held belongs held shown
  cases type : msg.type with
  | debit =>
    obtain ⟨target, moves, reached, listed, settled⟩ :=
      Progress.next_debitRefused (type ▸ delivering) status
    obtain ⟨advancedActs, outbox, advancedReads⟩ := advance_reads .hcmRejected request.hcmRef
      (releaseActive_reads .reserve shown status listed) found
    rw [reached] at advancedReads
    simp only [applyRejection, belongs, found, type]
    have final := markRejected_shows reason belongs held shown
      ((actsOn_releaseActive store .reserve request.id).trans advancedActs) outbox advancedReads
      settled
    exact ⟨final.1, target, moves, final.2⟩
  | credit =>
    obtain ⟨target, moves, reached, listed, settled⟩ :=
      Progress.next_creditRefused (type ▸ delivering)
    simp only [applyRejection, belongs, found, type]
    -- The commit stays, since nothing was given back on the other side.
    have reads : (store.dossier request.id).Reads target.status target.entries
        progress.messages := by
      rw [← reached, ← listed]
      exact shown
    have final := markRejected_shows reason belongs held shown (ActsOn.refl _ _) rfl reads settled
    exact ⟨final.1, target, moves, final.2⟩

/-- Recording an attempt moves the request of its message along the event of the attempt. -/
theorem recordAttempt_shows {entryId eventId : String} (attempt : Attempt) (now : Time)
    (belongs : msg.requestId = id) (held : msg.claimedRow ∈ store.outbox.rows)
    (fresh : store.ledger.find entryId = none) (shown : (store.dossier id).Shows progress) :
    ActsOn id store (store.recordAttempt msg attempt entryId eventId now) ∧
      ∃ target, progress.next (attempt.event msg) = some target ∧
        ((store.recordAttempt msg attempt entryId eventId now).dossier id).Shows target := by
  -- Each kind of attempt has its own transaction, and success has one for each type.
  cases attempt with
  | acked ack =>
    cases type : msg.type with
    | debit => exact applyDebit_shows type belongs held fresh shown
    | credit => exact applyCredit_shows type belongs held shown
  | refused message => exact applyRejection_shows message belongs held shown
  | errored message => exact markRetryOrDead_shows message now belongs held shown

end Recording

section Claiming

variable {store : Store} {now : Time} {limit : Nat} {id : String} {progress : Progress}

/-- A claim selects stored messages that are due. -/
theorem mem_dueMessages {msg : OutboxMessage} (selected : msg ∈ store.dueMessages now limit) :
    msg ∈ store.outbox.rows ∧ msg.due now = true := by
  -- Sorting and limiting only choose among the due messages.
  exact List.mem_filter.mp ((store.perm_dueByAge now).mem_iff.mp (List.mem_of_mem_take selected))

/-- The ids of a claim name exactly the selected messages. -/
theorem mem_dueMessages_of_id {msg : OutboxMessage} (stored : msg ∈ store.outbox.rows)
    (named : msg.id ∈ (store.dueMessages now limit).map (·.id)) :
    msg ∈ store.dueMessages now limit := by
  -- An id is a primary key, so it names no second message.
  obtain ⟨other, selected, same⟩ := List.mem_map.mp named
  exact Table.eq_of_key_eq (mem_dueMessages selected).1 stored same ▸ selected

/-- A claim rewrites the claimed messages of every dossier. -/
theorem dossier_claimDue :
    (store.claimDue now limit).2.dossier id = (store.dossier id).mapMessages fun msg =>
      if msg.id ∈ (store.dueMessages now limit).map (·.id) then msg.claimedRow else msg := by
  -- Claiming is one update of the outbox by message id.
  simpa only [claimDue, List.contains_iff_mem] using
    dossier_updateOutbox store id
      (fun msg => ((store.dueMessages now limit).map (·.id)).contains msg.id)
      OutboxMessage.claimedRow (fun _ => rfl) fun _ => rfl

/-- A claim hands out a message of a request when it selects one. -/
theorem any_claimDue : (store.claimDue now limit).1.any (·.requestId = id) = true ↔
    ∃ msg ∈ store.dueMessages now limit, msg.requestId = id := by
  -- The handed out copies belong to the requests of the selected messages.
  simp only [claimDue, List.any_eq_true, List.mem_map, decide_eq_true_eq]
  constructor
  · intro given
    obtain ⟨_, ⟨msg, selected, rfl⟩, belongs⟩ := given
    exact ⟨msg, selected, belongs⟩
  · intro given
    obtain ⟨msg, selected, belongs⟩ := given
    exact ⟨msg.claimed, ⟨msg, selected, rfl⟩, belongs⟩

/-- A due message is not delivered yet. -/
theorem undelivered_of_due {msg : OutboxMessage} (due : msg.due now = true) :
    msg.status ≠ .done := by
  rcases OutboxMessage.open_of_due due with pending | failed <;> simp_all

/-- A claim puts the one due message of a request in flight. -/
theorem messages_claimDue (shown : (store.dossier id).Shows progress) {msg : OutboxMessage}
    (selected : msg ∈ store.dueMessages now limit) (member : msg ∈ (store.dossier id).messages) :
    ((store.claimDue now limit).2.dossier id).messages.map (·.view) =
      progress.messages.map (settledView .inflight) := by
  have undelivered := undelivered_of_due (mem_dueMessages selected).2
  rw [dossier_claimDue]
  refine shown.messages_settled member undelivered _ ?_ fun other otherMember different => ?_
  · rw [if_pos (List.mem_map_of_mem selected)]
    rfl
  · -- Another claimed message of the request would be undelivered as well.
    rw [if_neg]
    intro named
    have again := mem_dueMessages_of_id (mem_messagesOf.mp otherMember).1 named
    exact different (shown.eq_of_undelivered otherMember member
      (undelivered_of_due (mem_dueMessages again).2) undelivered)

/-- A claim rewrites nothing of a request whose messages it does not select. -/
theorem dossier_claimDue_of_none
    (none_ : ¬∃ msg ∈ store.dueMessages now limit, msg.requestId = id) :
    (store.claimDue now limit).2.dossier id = store.dossier id := by
  rw [dossier_claimDue, Dossier.mapMessages_eq_self]
  intro msg member
  -- A rewritten message would be a selected one of the request.
  obtain ⟨stored, belongs⟩ := mem_messagesOf.mp member
  rw [if_neg]
  intro named
  exact none_ ⟨msg, mem_dueMessages_of_id stored named, belongs⟩

/-- A claim moves exactly the requests whose message it hands out. -/
theorem claimDue_shows (shown : (store.dossier id).Shows progress) :
    ∃ target, progress.hear (if (store.claimDue now limit).1.any (·.requestId = id)
        then some .claimed else none) = some target ∧
      ((store.claimDue now limit).2.dossier id).Shows target := by
  -- At most one message of a request is open, so a claim moves it at most once.
  split
  · rename_i some_
    obtain ⟨msg, selected, belongs⟩ := any_claimDue.mp some_
    obtain ⟨stored, due⟩ := mem_dueMessages selected
    have member : msg ∈ (store.dossier id).messages := mem_messagesOf.mpr ⟨stored, belongs⟩
    obtain ⟨target, moves, status, entries, messages⟩ :=
      Progress.next_claimed (shown.message_mem member) (OutboxMessage.open_of_due due)
    have claimed := messages_claimDue shown selected member
    rw [dossier_claimDue] at claimed ⊢
    refine ⟨target, moves, shown.status.trans status.symm, shown.entries.trans entries.symm,
      claimed.trans messages.symm, fun request found => ?_⟩
    refine (shown.owned request found).mapMessages fun other own => ?_
    split
    · exact own.claimedRow
    · exact own
  · rename_i none_
    rw [dossier_claimDue_of_none (mt any_claimDue.mpr none_)]
    exact ⟨progress, rfl, shown⟩

end Claiming

end Store

end TimeOff
