import TimeOff.Lifecycle.Deliveries
import TimeOff.System.Service

/-! What each step of the service does to the rows of the outbox and to the processor's memory. -/

namespace TimeOff

/-- The row that recording an attempt leaves in the place of the claimed one. -/
def Attempt.settledRow (msg : OutboxMessage) (now : Time) (row : OutboxMessage) :
    Attempt → OutboxMessage
  | .acked _ => { row with status := .done, lastError := none }
  | .refused message => { row with status := .dead, lastError := some ("REJECTED: " ++ message) }
  | .errored message =>
    if OutboxService.maxAttempts ≤ msg.attempts + 1 then
      { row with status := .dead, attempts := msg.attempts + 1, lastError := some message }
    else
      { row with
        status := .failed, attempts := msg.attempts + 1, lastError := some message
        nextAttemptAt := some
          (now + OutboxService.baseBackoffMs * 2 ^ (msg.attempts + 1 - 1).toNat) }

namespace Store

/-- Advancing a request leaves the outbox alone. -/
@[simp] theorem outbox_advance (store : Store) (request : TimeOffRequest) (action : RequestAction)
    (ref : Option String) : (store.advance request action ref).outbox = store.outbox := by
  unfold advance
  split <;> rfl

/-- Advancing a request writes no ledger entry and no event. -/
theorem advance_ledger (store : Store) (request : TimeOffRequest) (action : RequestAction)
    (ref : Option String) : (store.advance request action ref).ledger = store.ledger ∧
      (store.advance request action ref).events = store.events := by
  unfold advance
  split <;> exact ⟨rfl, rfl⟩

/-- Releasing entries adds none. -/
theorem find_releaseActive (store : Store) (phase : LedgerPhase) (requestId : String) {id : String}
    (absent : store.ledger.find id = none) :
    (store.releaseActive phase requestId).ledger.find id = none := by
  simp only [releaseActive, Table.find_update, absent, Option.map_none]

/-- Rewriting the message under an id rewrites that row of the outbox. -/
theorem rows_updateMessage (store : Store) (id : String) (set : OutboxMessage → OutboxMessage)
    (keeps : ∀ msg, (set msg).id = msg.id) :
    (store.updateMessage id set keeps).outbox.rows =
      store.outbox.rows.map fun row => if row.id = id then set row else row := by
  simp only [updateMessage, Table.rows_update, decide_eq_true_eq]

/-- Recording an attempt settles the row of its message and no other. -/
theorem rows_recordAttempt (store : Store) (msg : OutboxMessage) (attempt : Attempt)
    (entryId eventId : String) (now : Time) :
    (store.recordAttempt msg attempt entryId eventId now).outbox.rows =
      store.outbox.rows.map fun row =>
        if row.id = msg.id then attempt.settledRow msg now row else row := by
  -- Marking the message is the last statement, and the only one that reaches the outbox.
  cases attempt with
  | acked ack =>
    simp only [recordAttempt, applySuccess]
    split
    · exact rows_updateMessage ..
    · simp only [markDone, rows_updateMessage]
      -- What is recorded before the message is marked leaves the outbox alone.
      congr 2
      cases msg.type
      · dsimp only
        split
        · exact outbox_advance ..
        · exact outbox_advance ..
      · exact outbox_advance ..
  | refused message =>
    simp only [recordAttempt, applyRejection, markRejected, rows_updateMessage]
    congr 2
    split
    · exact outbox_advance ..
    · rfl
  | errored message =>
    simp only [recordAttempt, markRetryOrDead]
    split
    · rename_i parked
      simp only [rows_updateMessage, Attempt.settledRow, parked, if_true]
    · rename_i retried
      simp only [rows_updateMessage, Attempt.settledRow, retried, if_false]

/-- Cancelling the pending messages of a request stops its open messages. -/
theorem rows_cancelPending (store : Store) (id : String) :
    (store.cancelPendingForRequest id).outbox.rows =
      store.outbox.rows.map fun msg => if msg.requestId = id then msg.stopped else msg := by
  -- Both conditions of the statement are asked of every row.
  unfold cancelPendingForRequest
  rw [Table.rows_update]
  apply List.map_congr_left
  intro msg _
  by_cases own : msg.requestId = id <;> simp [own, OutboxMessage.stopped]

/-- A claim marks the selected messages as being in flight. -/
theorem rows_claimDue (store : Store) (now : Time) (limit : Nat) :
    (store.claimDue now limit).2.outbox.rows = store.outbox.rows.map fun msg =>
      if msg.id ∈ (store.dueMessages now limit).map (·.id) then msg.claimedRow else msg := by
  -- The claim selects by id, and an id is listed when its message was selected.
  have rows := Table.rows_update store.outbox
    (fun msg => ((store.dueMessages now limit).map (·.id)).contains msg.id)
    OutboxMessage.claimedRow fun _ => rfl
  simp only [List.contains_iff_mem] at rows
  exact rows

/-- The copies a claim hands out are those of the rows it leaves in flight. -/
theorem claimedRow_mem (store : Store) (now : Time) (limit : Nat) {msg : OutboxMessage}
    (handed : msg ∈ (store.claimDue now limit).1) :
    msg.claimedRow ∈ (store.claimDue now limit).2.outbox.rows := by
  -- A copy handed out has its source among the rows that the claim rewrites.
  obtain ⟨source, selected, rfl⟩ := List.mem_map.mp handed
  rw [rows_claimDue]
  refine List.mem_map.mpr ⟨source, (mem_dueMessages selected).1, ?_⟩
  rw [if_pos (List.mem_map_of_mem selected)]
  rfl

/-- A claim hands out every message once. -/
theorem claimDue_nodup (store : Store) (now : Time) (limit : Nat) :
    ((store.claimDue now limit).1.map (·.id)).Nodup := by
  -- Filtering, sorting and limiting keep the ids apart, as the primary key does.
  have unique : ((store.outbox.rows.filter (·.due now)).map (·.id)).Nodup :=
    (List.filter_sublist.map _).nodup store.outbox.nodup
  have sorted := ((store.perm_dueByAge now).map (·.id)).nodup_iff.mpr unique
  have taken := ((List.take_sublist limit _).map OutboxMessage.id).nodup sorted
  simpa [claimDue, dueMessages, List.map_map, Function.comp_def] using taken

end Store

namespace Service

/-- The message whose delivery a step settles. -/
def settles (service : Service) : ServiceAction → Option String
  | .operate (.record _ _ _) => service.processor.attempted.map (·.1.id)
  | _ => none

/-- Everything a step can do to the rows of the outbox and to the processor's memory. -/
inductive Queue (before : Service) (action : ServiceAction) (rows : List OutboxMessage)
    (processor : OutboxProcessor) : Prop
  | kept : before.settles action = none → rows = before.store.outbox.rows →
      processor = before.processor → Queue before action rows processor
  -- A new message is written with the request that caused it.
  | enqueued (msg : OutboxMessage) :
      before.settles action = none → msg.status = .pending → msg.attempts = 0 →
      before.store.outbox.find msg.id = none →
      rows = before.store.outbox.rows ++ [msg] → processor = before.processor →
      Queue before action rows processor
  -- A cancellation stops what has not shipped.
  | stopped (id uuid : String) (now : Time) :
      action = .operate (.cancel id uuid now) →
      rows = before.store.outbox.rows.map
        (fun msg => if msg.requestId = id then msg.stopped else msg) →
      processor = before.processor → Queue before action rows processor
  -- A drain claims the due messages and holds their copies.
  | claimed (now : Time) :
      action = .operate (.drain now) → before.processor.draining = false →
      rows = (before.store.claimDue now).2.outbox.rows →
      processor = { draining := !(before.store.claimDue now).1.isEmpty
                    due := (before.store.claimDue now).1, attempted := none } →
      Queue before action rows processor
  -- The answer to the oldest claimed message arrives.
  | heard (msg : OutboxMessage) (rest : List OutboxMessage)
      (result : Except HcmError ApplyDeltaAck) :
      action = .answer result → before.processor.due = msg :: rest →
      before.processor.attempted = none → rows = before.store.outbox.rows →
      processor = { before.processor with
        due := rest, attempted := some (msg, Attempt.ofResult result) } →
      Queue before action rows processor
  -- The outcome of the attempted message is recorded.
  | recorded (msg : OutboxMessage) (attempt : Attempt) (entryId eventId : String) (now : Time) :
      action = .operate (.record entryId eventId now) →
      before.processor.attempted = some (msg, attempt) →
      rows = before.store.outbox.rows.map
        (fun row => if row.id = msg.id then attempt.settledRow msg now row else row) →
      processor = before.processor.settled → Queue before action rows processor
  -- The transaction of an acknowledgement fails, and an error is recorded instead.
  | caught (msg : OutboxMessage) (ack : ApplyDeltaAck) (message : String) :
      action = .operate (.recordFails message) →
      before.processor.attempted = some (msg, .acked ack) →
      rows = before.store.outbox.rows →
      processor = { before.processor with attempted := some (msg, .errored message) } →
      Queue before action rows processor
  -- Any other failed transaction ends the drain.
  | escaped (msg : OutboxMessage) (attempt : Attempt) (message : String) :
      action = .operate (.recordFails message) →
      before.processor.attempted = some (msg, attempt) → (∀ ack, attempt ≠ .acked ack) →
      rows = before.store.outbox.rows → processor = {} → Queue before action rows processor
  | crashed : action = .crash → rows = before.store.outbox.rows → processor = {} →
      Queue before action rows processor

variable {before after : Service} {action : ServiceAction}

/-- A cancellation enqueues a credit, stops what has not shipped, or only releases the hold. -/
theorem cancel_queue {id uuid : String} {now : Time} {result : TimeOffRequest} {store : Store}
    (fresh : before.store.outbox.find uuid = none)
    (cancelled : before.store.cancel id uuid now = .ok (result, store)) :
    Queue before (.operate (.cancel id uuid now)) store.outbox.rows before.processor := by
  -- What a cancellation does to the queue depends on how far the request had come.
  obtain ⟨request, found, ⟨_, rfl⟩ | ⟨_, rfl⟩ | ⟨_, rfl⟩⟩ := Store.cancel_ok cancelled
  · exact .enqueued ((request.propagate .credit).message uuid now) rfl rfl rfl fresh
      (Table.rows_save_of_fresh fresh) rfl
  · obtain rfl := Table.key_of_find found
    exact .stopped request.id uuid now rfl
      (Store.rows_cancelPending (before.store.releaseReservation request.id) request.id) rfl
  · exact .kept rfl rfl rfl

/-- A step of the service is one of these. -/
theorem step_queue (taken : before.step action = some after) :
    Queue before action after.store.outbox.rows after.processor := by
  -- Each transaction that succeeds is one whose writes are known.
  cases step_move taken with
  | creates _ _ _ _ _ _ created =>
    rcases Store.create_ok created with ⟨_, rfl⟩ | ⟨_, _, _, _, _, rfl⟩
    · exact .kept rfl rfl rfl
    · exact .kept rfl rfl rfl
  | submits _ _ _ _ _ _ _ _ submitted =>
    obtain ⟨_, _, _, _, _, rfl⟩ := Store.submit_ok submitted
    exact .kept rfl rfl rfl
  | approves id uuid now _ _ fresh approved =>
    -- An approval enqueues the debit of its request under a fresh id.
    obtain ⟨request, _, _, rfl⟩ := Store.approve_ok approved
    exact .enqueued ((request.propagate .debit).message uuid now) rfl rfl rfl fresh
      (Table.rows_save_of_fresh fresh) rfl
  | rejects _ _ _ rejected =>
    obtain ⟨_, _, _, rfl⟩ := Store.reject_ok rejected
    exact .kept rfl rfl rfl
  | cancels id uuid now _ _ fresh cancelled => exact cancel_queue fresh cancelled
  | drains now idle => exact .claimed now rfl idle rfl rfl
  | records msg attempt entryId eventId now attempted =>
    exact .recorded msg attempt entryId eventId now rfl attempted
      (before.store.rows_recordAttempt msg attempt entryId eventId now) rfl
  | catches msg ack message attempted => exact .caught msg ack message rfl attempted rfl rfl
  | escapes msg attempt message attempted notAcked =>
    exact .escaped msg attempt message rfl attempted notAcked rfl rfl
  | hears msg rest result due attempted => exact .heard msg rest result rfl due attempted rfl rfl
  | loads => exact .kept rfl rfl rfl
  | reconciles uuid now update =>
    by_cases fresh : before.store.watermark update.pair < update.version
    · have absorbs := (before.store.reconcileKey_fresh uuid now fresh).2.2
      exact .kept rfl (congrArg Table.rows absorbs.outbox) rfl
    · have stale := (before.store.reconcileKey_stale uuid now (Int.not_lt.mp fresh)).2
      exact .kept rfl (by rw [stale]) rfl
  | crashes => exact .crashed rfl rfl rfl

/-- What is attempted after a step was so before, was just answered, or counts as an error. -/
theorem attempted_of_step (taken : before.step action = some after) {msg : OutboxMessage}
    {attempt : Attempt} (attempted : after.processor.attempted = some (msg, attempt)) :
    before.processor.attempted = some (msg, attempt) ∨
      (∃ result rest, action = .answer result ∧ before.processor.due = msg :: rest ∧
        attempt = Attempt.ofResult result) ∨
      ∃ ack message, before.processor.attempted = some (msg, .acked ack) ∧
        attempt = .errored message := by
  -- A delivery becomes attempted by its answer, and the failed transaction turns it into an error.
  cases step_queue taken with
  | kept _ _ same | enqueued _ _ _ _ _ _ same | stopped _ _ _ _ _ same =>
    rw [same] at attempted
    exact Or.inl attempted
  | heard msg rest result answered due _ _ same =>
    rw [same] at attempted
    cases attempted
    exact Or.inr (Or.inl ⟨result, rest, answered, due, rfl⟩)
  | caught msg ack message _ acked _ same =>
    rw [same] at attempted
    cases attempted
    exact Or.inr (Or.inr ⟨ack, message, acked, rfl⟩)
  | claimed _ _ _ _ same | recorded _ _ _ _ _ _ _ _ same | escaped _ _ _ _ _ _ _ same
  | crashed _ _ same =>
    rw [same] at attempted
    cases attempted

end Service

end TimeOff
