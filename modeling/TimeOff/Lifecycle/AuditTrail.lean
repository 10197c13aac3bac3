import TimeOff.Library.Aging
import TimeOff.Lifecycle.Coherence

/-! What the database has recorded, it keeps: the trail of a run is only ever added to. -/

namespace TimeOff

/-- A cached balance is left alone, or replaced under a higher version. -/
def Balance.Ages (earlier later : Balance) : Prop :=
  later.pair = earlier.pair ∧
    (later = earlier ∨ earlier.lastReconciledVersion < later.lastReconciledVersion)

/-- Of an entry only the state changes, and only while it is active. -/
def BalanceLedgerEntry.Ages (earlier later : BalanceLedgerEntry) : Prop :=
  later = { earlier with state := later.state } ∧ (earlier.state ≠ .active → later = earlier)

/-- Of a message only its delivery changes, its attempts go up, and a settled one stays. -/
def OutboxMessage.Ages (earlier later : OutboxMessage) : Prop :=
  later = { earlier with
    status := later.status, attempts := later.attempts
    nextAttemptAt := later.nextAttemptAt, lastError := later.lastError } ∧
  earlier.attempts ≤ later.attempts ∧
  (earlier.status = .done ∨ earlier.status = .dead → later = earlier)

/-- Of a request only its state and the reference change, and every change takes a new version. -/
def TimeOffRequest.Ages (earlier later : TimeOffRequest) : Prop :=
  later = { earlier with
    status := later.status, hcmRef := later.hcmRef, version := later.version } ∧
  (later = earlier ∨ earlier.version < later.version)

theorem Balance.Ages.trans (first second third : Balance) (left : first.Ages second)
    (right : second.Ages third) : first.Ages third := by
  -- Two replacements raise the version twice.
  refine ⟨right.1.trans left.1, ?_⟩
  rcases left.2 with rfl | lower
  · exact right.2
  · rcases right.2 with rfl | higher
    · exact Or.inr lower
    · exact Or.inr (lower.trans higher)

theorem BalanceLedgerEntry.Ages.trans (first second third : BalanceLedgerEntry)
    (left : first.Ages second) (right : second.Ages third) : first.Ages third := by
  constructor
  · rw [right.1, left.1]
  · intro settled
    -- An entry that is settled stays through both.
    obtain rfl := left.2 settled
    exact right.2 settled

theorem OutboxMessage.Ages.trans (first second third : OutboxMessage)
    (left : first.Ages second) (right : second.Ages third) : first.Ages third := by
  refine ⟨?_, left.2.1.trans right.2.1, fun settled => ?_⟩
  · rw [right.1, left.1]
  · -- Once it is settled, it stays through both.
    obtain rfl := left.2.2 settled
    exact right.2.2 settled

theorem TimeOffRequest.Ages.trans (first second third : TimeOffRequest)
    (left : first.Ages second) (right : second.Ages third) : first.Ages third := by
  -- Two changes take two versions.
  constructor
  · rw [right.1, left.1]
  · rcases left.2 with rfl | lower
    · exact right.2
    · rcases right.2 with rfl | higher
      · exact Or.inr lower
      · exact Or.inr (lower.trans higher)

@[simp] theorem Balance.Ages.refl (row : Balance) : row.Ages row :=
  ⟨rfl, Or.inl rfl⟩

@[simp] theorem BalanceLedgerEntry.Ages.refl (row : BalanceLedgerEntry) : row.Ages row :=
  ⟨rfl, fun _ => rfl⟩

@[simp] theorem OutboxMessage.Ages.refl (row : OutboxMessage) : row.Ages row :=
  ⟨rfl, le_rfl, fun _ => rfl⟩

@[simp] theorem TimeOffRequest.Ages.refl (row : TimeOffRequest) : row.Ages row :=
  ⟨rfl, Or.inl rfl⟩

namespace Store

/-- The later store has everything the earlier one has, aged as it may. -/
structure Ages (before after : Store) : Prop where
  balances : before.balances.Ages Balance.Ages after.balances
  ledger : before.ledger.Ages BalanceLedgerEntry.Ages after.ledger
  outbox : before.outbox.Ages OutboxMessage.Ages after.outbox
  requests : before.requests.Ages TimeOffRequest.Ages after.requests
  -- An audit event never changes at all.
  events : before.events.Ages (· = ·) after.events

theorem Ages.refl (store : Store) : store.Ages store where
  balances := .refl Balance.Ages.refl _
  ledger := .refl BalanceLedgerEntry.Ages.refl _
  outbox := .refl OutboxMessage.Ages.refl _
  requests := .refl TimeOffRequest.Ages.refl _
  events := .refl (fun _ => rfl) _

theorem Ages.trans {first second third : Store} (earlier : first.Ages second)
    (later : second.Ages third) : first.Ages third where
  balances := .trans Balance.Ages.trans earlier.balances later.balances
  ledger := .trans BalanceLedgerEntry.Ages.trans earlier.ledger later.ledger
  outbox := .trans OutboxMessage.Ages.trans earlier.outbox later.outbox
  requests := .trans TimeOffRequest.Ages.trans earlier.requests later.requests
  events := .trans (fun _ _ _ same again => same.trans again) earlier.events later.events

section Statements

variable (store : Store)

/-- A request is saved for the first time. -/
theorem ages_saveNew {request : TimeOffRequest} (fresh : store.requests.find request.id = none) :
    store.Ages (store.saveRequest request) :=
  { Ages.refl store with requests := Table.ages_save_of_fresh TimeOffRequest.Ages.refl fresh }

/-- A request is saved again in another state, which takes a new version. -/
theorem ages_saveAgain {id : String} {request : TimeOffRequest}
    (found : store.requests.find id = some request) (status : RequestStatus)
    (hcmRef : Option String) :
    store.Ages (store.saveRequest { request with status, hcmRef }) := by
  -- The row under the id is the one that was read, with the next version.
  obtain rfl := Table.key_of_find found
  refine { Ages.refl store with
    requests := Table.ages_save_of_found TimeOffRequest.Ages.refl found ⟨rfl, ?_⟩ }
  right
  show request.version < request.version + 1
  omega

/-- The active entries of a request are released. -/
theorem ages_releaseActive (phase : LedgerPhase) (requestId : String) :
    store.Ages (store.releaseActive phase requestId) := by
  -- Only active entries are matched, and of these only the state is set.
  refine { Ages.refl store with ledger := ?_ }
  refine Table.ages_update BalanceLedgerEntry.Ages.refl store.ledger
    (fun entry => { entry with state := .released }) (fun _ => rfl) fun entry _ matched => ?_
  exact ⟨rfl, fun settled => absurd (of_decide_eq_true matched).2.2 settled⟩

/-- An entry is written. -/
theorem ages_saveEntry {entry : BalanceLedgerEntry} (fresh : store.ledger.find entry.id = none) :
    store.Ages { store with ledger := store.ledger.save entry } :=
  { Ages.refl store with ledger := Table.ages_save_of_fresh BalanceLedgerEntry.Ages.refl fresh }

/-- A message is enqueued. -/
theorem ages_enqueue {uuid : String} (fresh : store.outbox.find uuid = none) (now : Time)
    (input : EnqueueInput) : store.Ages (store.enqueue uuid now input) := by
  have unused : store.outbox.find (input.message uuid now).id = none := fresh
  exact { Ages.refl store with
    outbox := Table.ages_save_of_fresh OutboxMessage.Ages.refl unused }

/-- The delivery of messages changes that are not settled. -/
theorem ages_updateOutbox {matching : OutboxMessage → Bool} {set : OutboxMessage → OutboxMessage}
    {keeps : ∀ msg, (set msg).id = msg.id}
    (may : ∀ msg ∈ store.outbox.rows, matching msg = true → msg.Ages (set msg)) :
    store.Ages { store with outbox := store.outbox.update matching set keeps } := by
  refine { Ages.refl store with outbox := ?_ }
  exact Table.ages_update OutboxMessage.Ages.refl store.outbox set keeps may

/-- An audit event is recorded. -/
theorem ages_saveEvent {event : ReconciliationEvent} (fresh : store.events.find event.id = none) :
    store.Ages { store with events := store.events.save event } :=
  { Ages.refl store with events := Table.ages_save_of_fresh (fun _ => rfl) fresh }

end Statements

section Transactions

variable {store after : Store} {id uuid : String} {now : Time} {result : TimeOffRequest}

/-- Moving a request along the table saves it again. -/
theorem ages_saveMoved (store : Store) {request : TimeOffRequest}
    (found : store.requests.find id = some request) (action : RequestAction) :
    store.Ages (store.saveRequest (request.moved action)) :=
  store.ages_saveAgain found _ request.hcmRef

/-- An answer advances a request, or leaves it. -/
theorem ages_advance (store : Store) {request : TimeOffRequest}
    (found : store.requests.find id = some request) (action : RequestAction)
    (ref : Option String) : store.Ages (store.advance request action ref) := by
  unfold advance
  split
  · exact store.ages_saveAgain found _ ref
  · exact .refl store

/-- Stopping the messages of a request settles those that wait. -/
theorem ages_cancelPending (store : Store) (requestId : String) :
    store.Ages (store.cancelPendingForRequest requestId) := by
  -- A message that waits is not settled yet.
  apply ages_updateOutbox
  intro msg _ matched
  have open_ := (of_decide_eq_true matched).2
  refine ⟨rfl, le_rfl, fun settled => ?_⟩
  rcases open_ with waits | waits <;> rw [waits] at settled <;> simp at settled

/-- A claim takes messages that wait. -/
theorem ages_claimDue (store : Store) (now : Time) : store.Ages (store.claimDue now).2 := by
  -- What is claimed was due, so it was not settled yet.
  apply ages_updateOutbox
  intro msg member matched
  have named : msg.id ∈ (store.dueMessages now OutboxService.claimLimit).map (·.id) := by
    simpa using matched
  have due := (mem_dueMessages (mem_dueMessages_of_id member named)).2
  refine ⟨rfl, le_rfl, fun settled => ?_⟩
  rcases OutboxMessage.open_of_due due with waits | waits <;> rw [waits] at settled <;>
    simp at settled

/-- The row of a claimed message is settled, or counts one attempt more. -/
theorem ages_updateMessage {msg : OutboxMessage} (held : msg.claimedRow ∈ store.outbox.rows)
    (set : OutboxMessage → OutboxMessage) (keeps : ∀ msg, (set msg).id = msg.id)
    (may : msg.claimedRow.Ages (set msg.claimedRow)) :
    store.Ages (store.updateMessage msg.id set keeps) := by
  apply ages_updateOutbox
  intro row member matched
  -- The id names the claimed row, and no other.
  obtain rfl := Table.eq_of_key_eq member held (of_decide_eq_true matched)
  exact may

/-- A row in flight is not settled yet. -/
theorem unsettled_claimedRow (msg : OutboxMessage) {later : OutboxMessage} :
    msg.claimedRow.status = .done ∨ msg.claimedRow.status = .dead → later = msg.claimedRow := by
  rintro (done | dead)
  · cases done
  · cases dead

/-- What a transaction has done is followed by settling the message it was for. -/
theorem Ages.settle {moved : Store} (earlier : store.Ages moved)
    (outbox : moved.outbox = store.outbox) {msg : OutboxMessage}
    (held : msg.claimedRow ∈ store.outbox.rows) (set : OutboxMessage → OutboxMessage)
    (keeps : ∀ msg, (set msg).id = msg.id) (may : msg.claimedRow.Ages (set msg.claimedRow)) :
    store.Ages (moved.updateMessage msg.id set keeps) :=
  earlier.trans (ages_updateMessage (outbox ▸ held) set keeps may)

/-- A committed debit releases its hold, writes a commit and advances its request. -/
theorem ages_commitReservation {request : TimeOffRequest}
    (found : store.requests.find id = some request) {entryId : String}
    (entry : store.ledger.find entryId = none) (employeeId locationId : String) (amount : Int)
    (hcmVersion : Option Int) (ref : Option String) :
    store.Ages ((store.commitReservation entryId request.id employeeId locationId amount
      hcmVersion).advance request .hcmCommitted ref) := by
  let released := store.releaseReservation request.id
  let committed := store.commitReservation entryId request.id employeeId locationId amount
    hcmVersion
  have unused : released.ledger.find entryId = none :=
    find_releaseActive store .reserve request.id entry
  have written : store.Ages committed :=
    (store.ages_releaseActive .reserve request.id).trans (released.ages_saveEntry unused)
  exact written.trans (committed.ages_advance found .hcmCommitted ref)

/-- An acknowledgement is recorded in the ledger, for the request and in its message. -/
theorem ages_applySuccess {msg : OutboxMessage} (held : msg.claimedRow ∈ store.outbox.rows)
    {entryId eventId : String} (entry : store.ledger.find entryId = none)
    (event : store.events.find eventId = none) (hcmRef : String) (hcmVersion : Int)
    (applied : Bool) :
    store.Ages (store.applySuccess msg hcmRef hcmVersion applied entryId eventId) := by
  have done : msg.claimedRow.Ages { msg.claimedRow with status := .done, lastError := none } :=
    ⟨rfl, le_rfl, unsettled_claimedRow msg⟩
  unfold applySuccess
  cases found : store.requests.find msg.requestId with
  | none => exact ages_updateMessage held _ _ done
  | some request =>
    cases msg.type with
    | debit =>
      dsimp only
      let committed := store.commitReservation entryId request.id request.employeeId
        request.locationId msg.payload.amount (some hcmVersion)
      let advanced := committed.advance request .hcmCommitted (some hcmRef)
      have moved : store.Ages advanced := ages_commitReservation found entry ..
      have outbox : advanced.outbox = store.outbox := outbox_advance ..
      split
      · exact moved.settle outbox held _ _ done
      · -- A ghost success leaves an audit event as well.
        have same : advanced.events = store.events := (advance_ledger committed request _ _).2
        have drifted : advanced.Ages (advanced.recordDrift eventId request
            "HCM acknowledged debit without applying it (ghost success)") :=
          advanced.ages_saveEvent (same ▸ event)
        exact (moved.trans drifted).settle outbox held _ _ done
    | credit =>
      dsimp only
      let released := store.releaseCommit request.id
      have moved : store.Ages (released.advance request .hcmCreditDone request.hcmRef) :=
        (store.ages_releaseActive .commit request.id).trans
          (released.ages_advance found .hcmCreditDone request.hcmRef)
      exact moved.settle (outbox_advance ..) held _ _ done

/-- A refused debit releases its hold, and a refused credit leaves its request alone. -/
theorem ages_applyRejection {msg : OutboxMessage} (held : msg.claimedRow ∈ store.outbox.rows)
    (reason : String) : store.Ages (store.applyRejection msg reason) := by
  have dead : msg.claimedRow.Ages
      { msg.claimedRow with status := .dead, lastError := some ("REJECTED: " ++ reason) } :=
    ⟨rfl, le_rfl, unsettled_claimedRow msg⟩
  simp only [applyRejection]
  split
  · rename_i request found _
    let released := store.releaseReservation request.id
    have moved : store.Ages (released.advance request .hcmRejected request.hcmRef) :=
      (store.ages_releaseActive .reserve request.id).trans
        (released.ages_advance found .hcmRejected request.hcmRef)
    exact moved.settle (outbox_advance ..) held _ _ dead
  · exact ages_updateMessage held _ _ dead

/-- A transient failure counts an attempt. -/
theorem ages_markRetryOrDead {msg : OutboxMessage} (held : msg.claimedRow ∈ store.outbox.rows)
    (error : String) (now : Time) : store.Ages (store.markRetryOrDead msg error now) := by
  have counted : msg.claimedRow.attempts ≤ msg.attempts + 1 := by
    show msg.attempts ≤ msg.attempts + 1
    omega
  simp only [markRetryOrDead]
  -- It is retried or given up, with one attempt more in either case.
  split
  · exact ages_updateMessage held _ _ ⟨rfl, counted, unsettled_claimedRow msg⟩
  · exact ages_updateMessage held _ _ ⟨rfl, counted, unsettled_claimedRow msg⟩

/-- Recording an attempt settles its message, and adds what it says to the trail. -/
theorem ages_recordAttempt {msg : OutboxMessage} (held : msg.claimedRow ∈ store.outbox.rows)
    {entryId eventId : String} (entry : store.ledger.find entryId = none)
    (event : store.events.find eventId = none) (attempt : Attempt) (now : Time) :
    store.Ages (store.recordAttempt msg attempt entryId eventId now) := by
  cases attempt with
  | acked ack => exact ages_applySuccess held entry event ..
  | refused message => exact ages_applyRejection held message
  | errored message => exact ages_markRetryOrDead held message now

/-- A first load adds a row, or leaves the one that arrived in between. -/
theorem ages_insertBalance (store : Store) (employeeId locationId : String)
    (row : HcmBalanceRow) : store.Ages (store.insertBalance employeeId locationId row) :=
  { Ages.refl store with
    balances := Table.ages_insertOrIgnore Balance.Ages.refl store.balances _ }

/-- An update records an audit event, or none. -/
theorem ages_events_reconcileKey (store : Store) (uuid : String) (now : Time)
    (update : HcmBalanceUpdate) (event : store.events.find uuid = none) :
    store.events.Ages (· = ·) (store.reconcileKey uuid now update).2.events := by
  -- The event is written under a new id, where one is written at all.
  simp only [reconcileKey]
  split
  · exact (Ages.refl store).events
  · unfold recordReconciliation
    split
    · exact Table.ages_save_of_fresh (fun _ => rfl) event
    · exact (Ages.refl store).events

/-- An update that is taken over replaces an older balance, and absorbs active commits. -/
theorem ages_reconcileKey (store : Store) (uuid : String) (now : Time)
    (update : HcmBalanceUpdate) (event : store.events.find uuid = none) :
    store.Ages (store.reconcileKey uuid now update).2 := by
  -- A stale update changes nothing, and a fresh one has a version above what is cached.
  rcases Int.lt_or_le (store.watermark update.pair) update.version with fresh | stale
  · obtain ⟨_, _, absorbs⟩ := store.reconcileKey_fresh uuid now fresh
    have kept := Ages.refl store
    refine ⟨?_, ?_, absorbs.outbox ▸ kept.outbox, absorbs.requests ▸ kept.requests,
      store.ages_events_reconcileKey uuid now update event⟩
    · obtain ⟨asOf, saved⟩ := absorbs.balance
      rw [saved]
      cases found : store.balances.find update.pair with
      | none => exact Table.ages_save_of_fresh Balance.Ages.refl found
      | some b =>
        have lower : b.lastReconciledVersion < update.version := watermark_of_find found ▸ fresh
        exact Table.ages_save_of_found Balance.Ages.refl found
          ⟨(Table.key_of_find found).symm, Or.inr lower⟩
    · -- Of the ledger, only active commits at older versions are absorbed.
      intro entry member
      refine ⟨_, absorbs.ledger ▸ List.mem_map_of_mem member, ?_⟩
      split
      · rename_i matched
        refine ⟨rfl, fun settled => absurd ?_ settled⟩
        simp only [BalanceLedgerEntry.matchedBy, decide_eq_true_eq] at matched
        exact matched.2.1
      · exact .refl entry
  · rw [(store.reconcileKey_stale uuid now stale).2]
    exact .refl store

end Transactions

end Store

namespace Service

variable {before after : Service} {action : ServiceAction}

/-- Every step keeps what the database has recorded. -/
theorem step_ages (coherent : before.Coherent) (taken : before.step action = some after) :
    before.store.Ages after.store := by
  -- A step is one of the service's own statements, or several in one transaction.
  cases step_move taken with
  | creates uuid _ _ _ _ fresh created =>
    rcases Store.create_ok created with ⟨_, rfl⟩ | ⟨_, _, _, rfl, _, rfl⟩
    · exact .refl _
    · exact Store.ages_saveNew _ fresh
  | submits _ uuid _ _ _ _ _ fresh submitted =>
    obtain ⟨request, found, _, _, _, rfl⟩ := Store.submit_ok submitted
    let held := before.store.addReservation uuid request.id request.employeeId request.locationId
      request.days
    have written : before.store.Ages held := before.store.ages_saveEntry fresh
    exact written.trans (held.ages_saveMoved found .submit)
  | approves _ uuid now _ _ fresh approved =>
    obtain ⟨request, found, _, rfl⟩ := Store.approve_ok approved
    let saved := before.store.saveRequest (request.moved .approve)
    have moved : before.store.Ages saved := before.store.ages_saveMoved found .approve
    exact moved.trans (saved.ages_enqueue fresh now _)
  | rejects _ _ _ rejected =>
    obtain ⟨request, found, _, rfl⟩ := Store.reject_ok rejected
    let released := before.store.releaseReservation request.id
    have given : before.store.Ages released := before.store.ages_releaseActive .reserve request.id
    exact given.trans (released.ages_saveMoved found .reject)
  | cancels _ uuid now _ _ fresh cancelled =>
    obtain ⟨request, found, ways⟩ := Store.cancel_ok cancelled
    let saved := before.store.saveRequest (request.moved .cancel)
    let released := before.store.releaseReservation request.id
    let stopped := released.cancelPendingForRequest request.id
    have given : before.store.Ages released := before.store.ages_releaseActive .reserve request.id
    rcases ways with ⟨_, rfl⟩ | ⟨_, rfl⟩ | ⟨_, rfl⟩
    · have moved : before.store.Ages saved := before.store.ages_saveMoved found .cancel
      exact moved.trans (saved.ages_enqueue fresh now _)
    · have settled : before.store.Ages stopped := given.trans
        (released.ages_cancelPending request.id)
      exact settled.trans (stopped.ages_saveMoved found .cancel)
    · exact given.trans (released.ages_saveMoved found .cancel)
  | drains now _ => exact Store.ages_claimDue _ now
  | records msg attempt entryId eventId now attempted entry event =>
    have held : msg ∈ before.processor.held := by simp [OutboxProcessor.held, attempted]
    exact Store.ages_recordAttempt (coherent.held msg held) entry event attempt now
  | loads employeeId locationId row => exact Store.ages_insertBalance _ employeeId locationId row
  | reconciles uuid now update event => exact Store.ages_reconcileKey _ uuid now update event
  | _ => exact .refl _

/--
Whatever the service does from a reachable state, everything its database has recorded there stays.

Entries keep all but their state, and that once they are settled; messages keep what they deliver,
never lose an attempt, and stay as they are once they are settled; requests keep their terms, and
take a new version for every change; a cached balance is replaced by newer ones only; and an audit
event never changes.
-/
theorem audit_trail (reached : Service.Reachable before)
    (onwards : Runs.Reachable step (fun _ _ => True) before after) :
    before.store.Ages after.store := by
  -- Every state on the way is reachable as well.
  have kept : Service.Reachable after ∧ before.store.Ages after.store := by
    induction onwards with
    | start => exact ⟨reached, .refl _⟩
    | step _ _ taken ih =>
      obtain ⟨earlier, aged⟩ := ih
      exact ⟨.step earlier trivial taken, aged.trans (step_ages earlier.coherent taken)⟩
  exact kept.2

/-- Three days are held for a request that waits for its approval. -/
def heldRun : List ServiceAction :=
  [.insertBalance "e" "l" ⟨"e", "l", 10, 1, 0⟩,
    .operate (.create "r" ⟨"e", "l", "2025-01-06", "2025-01-08", 3, none, true⟩ none),
    .operate (.submit "r" "hold")]

/-- The request is approved, its debit is delivered, and a snapshot absorbs the commit. -/
def absorbedRun : List ServiceAction :=
  [.operate (.approve "r" "debit" 0), .operate (.drain 0),
    .answer (.ok ⟨"hcm-1", 7, 2, true, false⟩), .operate (.record "commit" "drift" 0),
    .reconcileKey "event" 1 ⟨"e", "l", 7, 2, none⟩]

/-- The hold of the first run is still in the ledger after the second one, as one of two entries. -/
theorem audit_trail_absorbed : ∃ before after, Service.Reachable before ∧
    Runs.run step (fun _ _ => true) before absorbedRun = some after ∧
      before.store.ledger.rows.length = 1 ∧ after.store.ledger.rows.length = 2 ∧
      before.store.Ages after.store := by
  have executed : (run heldRun).map (fun service =>
      decide (service.store.ledger.rows.length = 1) &&
        decide ((Runs.run step (fun _ _ => true) service absorbedRun).map
          (·.store.ledger.rows.length) = some 2)) = some true := by decide +kernel
  obtain ⟨before, reached, ended⟩ := exists_reachable_of_run executed
  rw [Bool.and_eq_true, decide_eq_true_eq, decide_eq_true_eq] at ended
  obtain ⟨after, ran, two⟩ := Option.map_eq_some_iff.mp ended.2
  exact ⟨before, after, reached, ran, ended.1, two,
    audit_trail reached (Runs.reachable_of_run (fun _ _ _ => trivial) .start ran)⟩

end Service

end TimeOff
